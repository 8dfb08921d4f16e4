import PathIdentity.Proofs.States
import Mathlib.Data.List.Induction

/-!
# Staging sets as logs of insertions

A staging set is what its insertions make of it: `Staging.ofList log`, where `log` lists the states
inserted since the set was last empty. Its members ascend, they come from the log, and the log has
the same membership; its flags are those of the log. Where equal states are classified alike the
flags are also those of the members, so sets with the same membership have the same flags.
-/

namespace PathIdentity

/-! ## Inserting a state in order -/

section Insert

variable {σ : Type} [Ord σ]

theorem mem_of_mem_insertState {state x : σ} {states : List σ} (h : x ∈ insertState state states) :
    x = state ∨ x ∈ states := by
  induction states with
  | nil => exact Or.inl (List.mem_singleton.1 h)
  | cons other rest ih =>
    rw [insertState] at h
    split at h
    · exact List.mem_cons.1 h
    · exact Or.inr h
    · rcases List.mem_cons.1 h with rfl | h
      · exact Or.inr List.mem_cons_self
      · exact (ih h).imp_right (List.mem_cons_of_mem _)

theorem mem_insertState_of_mem {state x : σ} {states : List σ} (h : x ∈ states) :
    x ∈ insertState state states := by
  induction states with
  | nil => cases h
  | cons other rest ih =>
    rw [insertState]
    split
    · exact List.mem_cons_of_mem _ h
    · exact h
    · rcases List.mem_cons.1 h with rfl | h
      · exact List.mem_cons_self
      · exact List.mem_cons_of_mem _ (ih h)

/-- After an insertion the state has an equal one among the members. -/
theorem exists_mem_insertState [Std.ReflOrd σ] (state : σ) (states : List σ) :
    ∃ y ∈ insertState state states, compare state y = .eq := by
  induction states with
  | nil => exact ⟨state, List.mem_singleton_self _, Std.ReflOrd.compare_self⟩
  | cons other rest ih =>
    rw [insertState]
    split
    · exact ⟨state, List.mem_cons_self, Std.ReflOrd.compare_self⟩
    · rename_i heq
      exact ⟨other, List.mem_cons_self, heq⟩
    · obtain ⟨y, hy, heq⟩ := ih
      exact ⟨y, List.mem_cons_of_mem _ hy, heq⟩

theorem Ascending.insertState [Std.TransOrd σ] {states : List σ} (h : Ascending states)
    (state : σ) : Ascending (insertState state states) := by
  induction states with
  | nil => exact List.pairwise_singleton _ _
  | cons other rest ih =>
    obtain ⟨hother, hrest⟩ := List.pairwise_cons.1 h
    rw [PathIdentity.insertState]
    split
    · rename_i hlt
      refine List.pairwise_cons.2 ⟨fun x hx => ?_, h⟩
      rcases List.mem_cons.1 hx with rfl | hx
      · exact hlt
      · exact Std.TransCmp.lt_trans hlt (hother x hx)
    · exact h
    · rename_i hgt
      refine List.pairwise_cons.2 ⟨fun x hx => ?_, ih hrest⟩
      rcases mem_of_mem_insertState hx with rfl | hx
      · exact Std.OrientedCmp.lt_of_gt hgt
      · exact hother x hx

end Insert

/-! ## Logs -/

namespace Staging

variable {σ : Type} [ExceptionState σ]

@[simp] theorem ofList_nil : (ofList [] : Staging σ) = empty := rfl

theorem extend_ofList (log states : List σ) :
    (ofList log).extend states = ofList (log ++ states) := by
  rw [ofList, extend, extend, ofList, extend, List.foldl_append]

theorem insert_ofList (log : List σ) (state : σ) :
    (ofList log).insert state = ofList (log ++ [state]) := by
  rw [← extend_ofList]
  rfl

/-- The flags tell whether a state of the log is classified so. -/
theorem flags_ofList (log : List σ) :
    (ofList log).hasLoop = log.any ExceptionState.isLoop ∧
      (ofList log).hasFilter = log.any ExceptionState.isFilter := by
  induction log using List.reverseRecOn with
  | nil => exact ⟨rfl, rfl⟩
  | append_singleton log state ih =>
    rw [← insert_ofList]
    simp [insert, ih.1, ih.2]

theorem isEmpty_ofList_iff {log : List σ} : (ofList log).isEmpty = true ↔ log = [] := by
  cases log using List.reverseRecOn with
  | nil => simp
  | append_singleton log state => simp [← insert_ofList]

theorem members_ofList_eq_nil_iff {log : List σ} : (ofList log).members = [] ↔ log = [] :=
  List.isEmpty_iff.symm.trans isEmpty_ofList_iff

theorem mem_of_mem_ofList {log : List σ} {x : σ} (h : x ∈ (ofList log).members) : x ∈ log := by
  induction log using List.reverseRecOn with
  | nil => exact h
  | append_singleton log state ih =>
    rw [← insert_ofList] at h
    rw [List.mem_append, List.mem_singleton]
    exact (mem_of_mem_insertState h).symm.imp_left ih

variable [Std.TransOrd σ]

theorem ascending_ofList (log : List σ) : Ascending (ofList log).members := by
  induction log using List.reverseRecOn with
  | nil => exact List.Pairwise.nil
  | append_singleton log state ih =>
    rw [← insert_ofList]
    exact ih.insertState state

/-- The members of a staging set have the membership of its log. -/
theorem sameMembership_ofList (log : List σ) : SameMembership log (ofList log).members := by
  refine ⟨fun x hx => ?_, fun y hy => ⟨y, mem_of_mem_ofList hy, Std.ReflOrd.compare_self⟩⟩
  induction log using List.reverseRecOn with
  | nil => cases hx
  | append_singleton log state ih =>
    rw [← insert_ofList]
    rcases List.mem_append.1 hx with hx | hx
    · obtain ⟨y, hy, heq⟩ := ih hx
      exact ⟨y, mem_insertState_of_mem hy, heq⟩
    · rw [List.mem_singleton.1 hx]
      exact exists_mem_insertState state (ofList log).members

theorem any_members_ofList {p : σ → Bool} (hp : ∀ a b : σ, compare a b = .eq → p a = p b)
    (log : List σ) : (ofList log).members.any p = log.any p := by
  rw [Bool.eq_iff_iff, List.any_eq_true, List.any_eq_true]
  constructor
  · rintro ⟨x, hx, h⟩
    exact ⟨x, mem_of_mem_ofList hx, h⟩
  · rintro ⟨x, hx, h⟩
    obtain ⟨y, hy, heq⟩ := (sameMembership_ofList log).1 x hx
    exact ⟨y, hy, hp x y heq ▸ h⟩

variable [CongruentState σ]

theorem hasLoop_ofList_eq_any_members (log : List σ) :
    (ofList log).hasLoop = (ofList log).members.any ExceptionState.isLoop := by
  rw [any_members_ofList fun _ _ => CongruentState.isLoop_eq, (flags_ofList log).1]

theorem hasFilter_ofList_eq_any_members (log : List σ) :
    (ofList log).hasFilter = (ofList log).members.any ExceptionState.isFilter := by
  rw [any_members_ofList fun _ _ => CongruentState.isFilter_eq, (flags_ofList log).2]

end Staging

end PathIdentity
