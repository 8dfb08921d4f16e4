import Mathlib.Data.List.Nodup

/-!
# Looking keys up

Pools, buckets and the entries of documents are lists of pairs, looked up by their first components.
Where no key stands twice, look-up finds exactly what is there.
-/

namespace PathIdentity

variable {α β : Type} [DecidableEq α]

theorem lookup_cons_ite (a key : α) (b : β) (l : List (α × β)) :
    ((key, b) :: l).lookup a = if a = key then some b else l.lookup a := by
  by_cases h : a = key
  · simp [h]
  · simp [List.lookup_cons, beq_false_of_ne h, h]

variable {l : List (α × β)} {a : α} {b : β}

theorem lookup_eq_none_iff_not_mem : l.lookup a = none ↔ a ∉ l.map Prod.fst := by
  simp only [List.lookup_eq_none_iff, List.mem_map, bne_iff_ne]
  constructor
  · rintro h ⟨entry, hentry, rfl⟩
    exact h entry hentry rfl
  · rintro h entry hentry rfl
    exact h ⟨entry, hentry, rfl⟩

theorem lookup_eq_some_of_mem (hl : (l.map Prod.fst).Nodup) (h : (a, b) ∈ l) :
    l.lookup a = some b := by
  induction l with
  | nil => cases h
  | cons entry l ih =>
    obtain ⟨key, c⟩ := entry
    obtain ⟨hkey, hl⟩ := List.nodup_cons.1 hl
    rw [lookup_cons_ite]
    rcases List.mem_cons.1 h with heq | hmem
    · cases heq
      exact if_pos rfl
    · have hne : a ≠ key := by
        rintro rfl
        exact hkey (List.mem_map.2 ⟨(a, b), hmem, rfl⟩)
      rw [if_neg hne, ih hl hmem]

theorem lookup_eq_some_iff_mem (hl : (l.map Prod.fst).Nodup) :
    l.lookup a = some b ↔ (a, b) ∈ l := by
  refine ⟨fun h => ?_, lookup_eq_some_of_mem hl⟩
  obtain ⟨before, after, rfl, -⟩ := List.lookup_eq_some_iff.1 h
  exact List.mem_append_right before List.mem_cons_self

end PathIdentity
