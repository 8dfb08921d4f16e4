import PathIdentity.Pool.Store
import Mathlib.Data.List.Forall2

/-!
# Lists of states

States are equal when they compare `.eq`, which need not mean that they are the same value. Under a
transitive order `sameStates` is an equivalence of lists, and it is where the order of lists says
`.eq` (`compare_eq_iff_sameStates`). Two lists that ascend and have the same membership hold equal
states in the same places (`SameMembership.sameStates`).

`CongruentState` is the further law that equal states have the same hash and are classified alike;
then `sameStates` lists have the same hash and the same flags. `MatcherState` satisfies it, since
its order identifies no two values; `KeyedState`, whose order looks at a key alone, does not.
-/

namespace PathIdentity

section Order

variable {σ : Type} [Ord σ]

/-- The states of a list ascend, without repetition. -/
def Ascending (states : List σ) : Prop := states.Pairwise fun a b => compare a b = .lt

/-- Each state of either list has an equal one in the other. -/
def SameMembership (a b : List σ) : Prop :=
  (∀ x ∈ a, ∃ y ∈ b, compare x y = .eq) ∧ ∀ y ∈ b, ∃ x ∈ a, compare x y = .eq

/-! ## Equal states in the same places -/

@[simp] theorem sameStates_nil : sameStates ([] : List σ) [] = true := rfl

@[simp] theorem sameStates_nil_cons (y : σ) (b : List σ) : sameStates [] (y :: b) = false := rfl

@[simp] theorem sameStates_cons_nil (x : σ) (a : List σ) : sameStates (x :: a) [] = false := rfl

@[simp] theorem sameStates_cons_cons (x y : σ) (a b : List σ) :
    sameStates (x :: a) (y :: b) = true ↔ compare x y = .eq ∧ sameStates a b = true := by
  simp [sameStates, List.isEqv_cons_cons]

theorem sameStates_iff_forall₂ {a b : List σ} :
    sameStates a b = true ↔ List.Forall₂ (fun x y => compare x y = .eq) a b := by
  induction a generalizing b with
  | nil => cases b <;> simp
  | cons x a ih => cases b <;> simp [ih]

theorem length_eq_of_sameStates {a b : List σ} (h : sameStates a b = true) :
    a.length = b.length :=
  (sameStates_iff_forall₂.1 h).length_eq

/-- The lexicographic order of lists says `.eq` exactly for equal states in the same places. -/
theorem compare_eq_iff_sameStates {a b : List σ} :
    compare a b = .eq ↔ sameStates a b = true := by
  induction a generalizing b with
  | nil => cases b <;> simp
  | cons x a ih =>
    cases b with
    | nil => simp
    | cons y b =>
      rw [sameStates_cons_cons, ← ih, List.compare_eq_compareLex, List.compareLex_cons_cons]
      simp

theorem sameStates_refl [Std.ReflOrd σ] (a : List σ) : sameStates a a = true := by
  induction a with
  | nil => rfl
  | cons x a ih => simp [ih]

theorem sameStates_symm [Std.OrientedOrd σ] {a b : List σ} (h : sameStates a b = true) :
    sameStates b a = true := by
  rw [← compare_eq_iff_sameStates] at h ⊢
  exact Std.OrientedCmp.eq_symm h

theorem sameStates_trans [Std.TransOrd σ] {a b c : List σ} (hab : sameStates a b = true)
    (hbc : sameStates b c = true) : sameStates a c = true := by
  rw [← compare_eq_iff_sameStates] at hab hbc ⊢
  exact Std.TransCmp.eq_trans hab hbc

/-! ## Same membership -/

theorem SameMembership.nil_left {b : List σ} (h : SameMembership [] b) : b = [] := by
  refine List.eq_nil_iff_forall_not_mem.2 fun y hy => ?_
  obtain ⟨x, hx, -⟩ := h.2 y hy
  exact List.not_mem_nil hx

theorem SameMembership.nil_right {a : List σ} (h : SameMembership a []) : a = [] := by
  refine List.eq_nil_iff_forall_not_mem.2 fun x hx => ?_
  obtain ⟨y, hy, -⟩ := h.1 x hx
  exact List.not_mem_nil hy

theorem SameMembership.symm [Std.OrientedOrd σ] {a b : List σ} (h : SameMembership a b) :
    SameMembership b a :=
  ⟨fun y hy => (h.2 y hy).imp fun _ hx => ⟨hx.1, Std.OrientedCmp.eq_symm hx.2⟩,
    fun x hx => (h.1 x hx).imp fun _ hy => ⟨hy.1, Std.OrientedCmp.eq_symm hy.2⟩⟩

variable [Std.TransOrd σ]

/-- The first state of an ascending list is not above a state with an equal one in the list. -/
theorem Ascending.head_isLE {x z : σ} {a : List σ} (ha : Ascending (x :: a))
    (hz : ∃ y ∈ x :: a, compare z y = .eq) : (compare x z).isLE := by
  obtain ⟨y, hy, hzy⟩ := hz
  rcases List.mem_cons.1 hy with rfl | hy
  · rw [Std.OrientedCmp.eq_symm hzy]
    rfl
  · have hxy : compare x y = .lt := (List.pairwise_cons.1 ha).1 y hy
    rw [Std.TransCmp.lt_of_lt_of_eq hxy (Std.OrientedCmp.eq_symm hzy)]
    rfl

/-- A state below the first state of an ascending list has no equal one there. -/
theorem Ascending.ne_of_lt_head {x z : σ} {a : List σ} (ha : Ascending (x :: a))
    (hlt : compare z x = .lt) : ∀ y ∈ x :: a, compare z y ≠ .eq := by
  intro y hy hzy
  have hle := ha.head_isLE ⟨y, hy, hzy⟩
  rw [Std.OrientedCmp.gt_of_lt hlt] at hle
  cases hle

/-- In ascending lists a state below the first one of a list has no equal one there, so of lists
with equal first states the rest of one has its membership in the rest of the other. -/
theorem Ascending.exists_mem_tail {x y : σ} {a b : List σ} (ha : Ascending (x :: a))
    (hxy : compare x y = .eq) (h : ∀ z ∈ x :: a, ∃ w ∈ y :: b, compare z w = .eq) :
    ∀ z ∈ a, ∃ w ∈ b, compare z w = .eq := by
  intro z hz
  obtain ⟨w, hw, hzw⟩ := h z (List.mem_cons_of_mem _ hz)
  rcases List.mem_cons.1 hw with rfl | hw
  · have hxz : compare x z = .lt := (List.pairwise_cons.1 ha).1 z hz
    have : compare x z = .eq := Std.TransCmp.eq_trans hxy (Std.OrientedCmp.eq_symm hzw)
    rw [hxz] at this
    cases this
  · exact ⟨w, hw, hzw⟩

/-- Ascending lists with the same membership hold equal states in the same places. -/
theorem SameMembership.sameStates {a b : List σ} (ha : Ascending a) (hb : Ascending b)
    (h : SameMembership a b) : PathIdentity.sameStates a b = true := by
  induction a generalizing b with
  | nil => rw [h.nil_left, sameStates_nil]
  | cons x a ih =>
    cases b with
    | nil => cases h.nil_right
    | cons y b =>
      have hxy : compare x y = .eq := by
        refine Std.OrientedCmp.isLE_antisymm (ha.head_isLE ?_) (hb.head_isLE ?_)
        · exact h.symm.1 y List.mem_cons_self
        · exact h.1 x List.mem_cons_self
      have hab : SameMembership a b := by
        refine ⟨ha.exists_mem_tail hxy h.1, ?_⟩
        have hba := hb.exists_mem_tail (Std.OrientedCmp.eq_symm hxy) h.symm.1
        exact fun z hz => (hba z hz).imp fun _ hw => ⟨hw.1, Std.OrientedCmp.eq_symm hw.2⟩
      exact (sameStates_cons_cons x y a b).2
        ⟨hxy, ih (List.pairwise_cons.1 ha).2 (List.pairwise_cons.1 hb).2 hab⟩

end Order

/-! ## Equal states that are hashed and classified alike -/

/-- Equal states have the same hash and are classified alike. -/
class CongruentState (σ : Type) [ExceptionState σ] : Prop where
  stateHash_eq {a b : σ} (h : compare a b = .eq) : stateHash a = stateHash b
  isLoop_eq {a b : σ} (h : compare a b = .eq) : ExceptionState.isLoop a = ExceptionState.isLoop b
  isFilter_eq {a b : σ} (h : compare a b = .eq) :
    ExceptionState.isFilter a = ExceptionState.isFilter b

section Congruent

variable {σ : Type} [ExceptionState σ]

theorem any_eq_of_sameStates {p : σ → Bool} (hp : ∀ a b : σ, compare a b = .eq → p a = p b)
    {a b : List σ} (h : sameStates a b = true) : a.any p = b.any p := by
  rw [sameStates_iff_forall₂] at h
  induction h with
  | nil => rfl
  | cons hxy _ ih => rw [List.any_cons, List.any_cons, hp _ _ hxy, ih]

theorem setHash_eq_of_sameStates (hhash : ∀ a b : σ, compare a b = .eq → stateHash a = stateHash b)
    {a b : List σ} (h : sameStates a b = true) : setHash a = setHash b := by
  have hmap : a.map stateHash = b.map stateHash := by
    rw [sameStates_iff_forall₂] at h
    induction h with
    | nil => rfl
    | cons hxy _ ih => rw [List.map_cons, List.map_cons, hhash _ _ hxy, ih]
  rw [setHash, setHash, hmap]

end Congruent

namespace MatcherState

/-- Exception, then kind, then position, as one comparison of keys. -/
theorem compare_eq_compareLex : (compare : MatcherState → MatcherState → Ordering) =
    compareLex (compareOn fun s => s.exception.number)
      (compareLex (compareOn fun s => s.kind.ordinal) (compareOn fun s => s.index)) := rfl

instance : Std.TransOrd MatcherState := by
  rw [Std.TransOrd, compare_eq_compareLex]
  infer_instance

theorem ordinal_injective : Function.Injective ExceptionKind.ordinal := by
  intro a b h
  cases a <;> cases b <;> first | rfl | cases h

theorem eq_of_compare {a b : MatcherState} (h : compare a b = .eq) : a = b := by
  rw [compare_eq_compareLex, compareLex_eq_eq, compareLex_eq_eq] at h
  obtain ⟨hexception, hkind, hindex⟩ := h
  have hkind := ordinal_injective (Std.LawfulEqOrd.eq_of_compare hkind)
  have hexception := Std.LawfulEqOrd.eq_of_compare hexception
  have hindex := Std.LawfulEqOrd.eq_of_compare hindex
  obtain ⟨⟨m⟩, k, i⟩ := a
  obtain ⟨⟨n⟩, l, j⟩ := b
  cases hexception
  cases hkind
  cases hindex
  rfl

instance : CongruentState MatcherState where
  stateHash_eq h := congrArg _ (eq_of_compare h)
  isLoop_eq h := congrArg _ (eq_of_compare h)
  isFilter_eq h := congrArg _ (eq_of_compare h)

end MatcherState

/-- A state that is ordered by its key alone, so its hash and classification are free. -/
structure KeyedState where
  key : ℕ
  hash : UInt64
  isLoop : Bool
  isFilter : Bool

namespace KeyedState

instance : Ord KeyedState := ⟨compareOn key⟩

instance : ExceptionState KeyedState where
  stateHash := hash
  isLoop := isLoop
  isFilter := isFilter

instance : Std.TransOrd KeyedState := inferInstanceAs (Std.TransCmp (compareOn key))

end KeyedState

end PathIdentity
