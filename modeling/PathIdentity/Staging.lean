import PathIdentity.Exception

/-!
# Staging sets

While a path is followed, the exception states armed along it are collected in a `Staging` set: its
members ascend, no two of them are equal, and of equal states the first one inserted is kept. Two
flags say whether a loop state or a filter state was ever inserted since the set was last emptied;
a state that is turned away as a duplicate still counts for them.
-/

namespace PathIdentity

/-- A list of states with one more, ascending if it was. An equal state that is already there
stays. -/
def insertState {σ : Type} [Ord σ] (state : σ) : List σ → List σ
  | [] => [state]
  | other :: rest =>
    match compare state other with
    | .lt => state :: other :: rest
    | .eq => other :: rest
    | .gt => other :: insertState state rest

@[simp] theorem insertState_ne_nil {σ : Type} [Ord σ] (state : σ) (states : List σ) :
    insertState state states ≠ [] := by
  cases states with
  | nil => simp [insertState]
  | cons other rest =>
    rw [insertState]
    split <;> simp

/-- A set of exception states under construction. -/
structure Staging (σ : Type) where
  /-- The distinct states, ascending. -/
  members : List σ
  /-- Whether a loop state was inserted. -/
  hasLoop : Bool
  /-- Whether a filter state was inserted. -/
  hasFilter : Bool

namespace Staging

variable {σ : Type}

/-- The set without states. -/
def empty : Staging σ := ⟨[], false, false⟩

/-- Whether there are no states. -/
def isEmpty (s : Staging σ) : Bool := s.members.isEmpty

/-- The number of distinct states. -/
def size (s : Staging σ) : Nat := s.members.length

/-- The content, for a new owner, and what is left behind: an empty set. -/
def take (s : Staging σ) : Staging σ × Staging σ := (s, empty)

/-- Inserts a state. -/
def insert [ExceptionState σ] (s : Staging σ) (state : σ) : Staging σ where
  members := insertState state s.members
  hasLoop := s.hasLoop || ExceptionState.isLoop state
  hasFilter := s.hasFilter || ExceptionState.isFilter state

/-- Inserts states in turn. -/
def extend [ExceptionState σ] (s : Staging σ) (states : List σ) : Staging σ :=
  states.foldl insert s

/-- The set of some states. -/
def ofList [ExceptionState σ] (states : List σ) : Staging σ := empty.extend states

/-- The storage of a set without states shows as absent. -/
instance [HasShape σ] : HasShape (Staging σ) where
  shape s :=
    let holder : Shape :=
      if s.isEmpty then .atom "None" else .tuple "Some" [.set (s.members.map shape)]
    .record "ExceptionStates"
      [("holder", holder), ("has_loop_path", shape s.hasLoop),
        ("has_filter_path", shape s.hasFilter)]

/-! ## Emptiness -/

@[simp] theorem isEmpty_empty : (empty : Staging σ).isEmpty = true := rfl

@[simp] theorem isEmpty_insert [ExceptionState σ] (s : Staging σ) (state : σ) :
    (s.insert state).isEmpty = false := by
  simp [isEmpty, insert]

end Staging

end PathIdentity
