import PathIdentity.Pool.Store

/-!
# What a handle shows

A handle is read through the store that holds its entry. The sentinel reads as the empty set with
hash zero and no serial. Handles are equal when they refer to the same entry; `Store.contentEq` and
`Store.compare` look at the content and work across pools.
-/

namespace PathIdentity

namespace Handle

/-- Whether a handle is the sentinel. -/
def isSentinel : Handle → Bool
  | sentinel => true
  | entry _ => false

/-- The serial of the entry. -/
def serial? : Handle → Option Nat
  | sentinel => none
  | entry id => some id.serial

/-- Whether a handle belongs to a pool; the sentinel belongs to every pool. -/
def belongsTo (pool : PoolId) : Handle → Bool
  | sentinel => true
  | entry id => id.pool = pool

/-- Whether two handles come from one pool; the sentinel comes from every pool. -/
def samePool : Handle → Handle → Bool
  | entry a, entry b => a.pool = b.pool
  | _, _ => true

end Handle

namespace Store

variable {σ : Type}

/-- The entry of a handle. -/
def entryOf? (s : Store σ) : Handle → Option (Entry σ)
  | .sentinel => none
  | .entry id => s.entryAt? id

/-- The states, ascending. -/
def members (s : Store σ) (h : Handle) : List σ := ((s.entryOf? h).map (·.members)).getD []

/-- The number of states. -/
def size (s : Store σ) (h : Handle) : Nat := (s.members h).length

/-- Whether the set was made with a loop state. -/
def hasLoop (s : Store σ) (h : Handle) : Bool := (s.entryOf? h).any (·.hasLoop)

/-- Whether the set was made with a filter state. -/
def hasFilter (s : Store σ) (h : Handle) : Bool := (s.entryOf? h).any (·.hasFilter)

/-- The hash of the content. -/
def hashOf (s : Store σ) (h : Handle) : UInt64 := ((s.entryOf? h).map (·.hash)).getD 0

/-- The number of live handles to the same entry. -/
def refCount (s : Store σ) (h : Handle) : Nat := ((s.entryOf? h).map (·.handles)).getD 0

variable [Ord σ]

/-- Whether two handles have the same hash and equal states. -/
def contentEq (s : Store σ) (a b : Handle) : Bool :=
  s.hashOf a == s.hashOf b && sameStates (s.members a) (s.members b)

/-- The order of handles: the sentinel first, then sets by size, then by the first state in which
they differ. -/
def compare (s : Store σ) (a b : Handle) : Ordering :=
  match a, b with
  | .sentinel, .sentinel => .eq
  | .sentinel, .entry _ => .lt
  | .entry _, .sentinel => .gt
  | .entry i, .entry j =>
    if i = j then .eq
    else (Ord.compare (s.size a) (s.size b)).then (Ord.compare (s.members a) (s.members b))

/-- Handles in ascending order; handles that compare equal keep their places. -/
def sortHandles {κ : Type} (s : Store σ) (handles : List (κ × Handle)) : List (κ × Handle) :=
  handles.mergeSort fun a b => (s.compare a.2 b.2).isLE

/-- The outline of a handle. -/
def shapeOf [HasShape σ] (s : Store σ) (h : Handle) : Shape :=
  match h with
  | .sentinel => .atom "ExceptionStateSet(empty)"
  | .entry id => .record "ExceptionStateSet"
    [("serial", shape id.serial), ("members", shape (s.members h))]

end Store

end PathIdentity
