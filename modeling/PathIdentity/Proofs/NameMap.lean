import PathIdentity.NameMap
import Mathlib.Data.String.Basic

/-!
# The values of a name map

A name map whose names ascend (`NameMap.Ordered`) holds one value for each name. `NameMap.values`
are its values in the order of their names; what `put` and `erase` do to them is stated up to order,
with the value that a name had before.
-/

namespace PathIdentity

namespace NameMap

variable {α : Type}

/-- The names ascend. -/
def Ordered (m : NameMap α) : Prop := m.Pairwise fun a b => a.1 < b.1

/-- The values, in the order of their names. -/
def values (m : NameMap α) : List α := m.map (·.2)

@[simp] theorem values_nil : values ([] : NameMap α) = [] := rfl

@[simp] theorem values_cons (name : String) (a : α) (m : NameMap α) :
    values ((name, a) :: m) = a :: values m := rfl

theorem ordered_nil : Ordered ([] : NameMap α) := List.Pairwise.nil

theorem get?_eq_none_of_lt {name : String} {m : NameMap α} (h : ∀ entry ∈ m, name < entry.1) :
    get? name m = none := by
  induction m with
  | nil => rfl
  | cons entry m ih =>
    obtain ⟨key, b⟩ := entry
    have hlt : name < key := h _ List.mem_cons_self
    rw [get?_cons, if_neg (ne_of_lt hlt)]
    exact ih fun e he => h e (List.mem_cons_of_mem _ he)

theorem mem_of_get? {name : String} {a : α} {m : NameMap α} (h : get? name m = some a) :
    (name, a) ∈ m := by
  induction m with
  | nil => cases h
  | cons entry m ih =>
    obtain ⟨key, b⟩ := entry
    rw [get?_cons] at h
    split_ifs at h with hkey
    · cases h
      rw [hkey]
      exact List.mem_cons_self
    · exact List.mem_cons_of_mem _ (ih h)

theorem mem_values_of_get? {name : String} {a : α} {m : NameMap α} (h : get? name m = some a) :
    a ∈ m.values := List.mem_map_of_mem (mem_of_get? h)

theorem Ordered.get?_of_mem {name : String} {a : α} {m : NameMap α} (hm : m.Ordered)
    (h : (name, a) ∈ m) : get? name m = some a := by
  induction m with
  | nil => cases h
  | cons entry m ih =>
    obtain ⟨key, b⟩ := entry
    obtain ⟨hkey, hm⟩ := List.pairwise_cons.1 hm
    rw [get?_cons]
    rcases List.mem_cons.1 h with heq | hmem
    · cases heq
      exact if_pos rfl
    · rw [if_neg (ne_of_gt (hkey _ hmem)), ih hm hmem]

theorem Ordered.mem_values_iff {a : α} {m : NameMap α} (hm : m.Ordered) :
    a ∈ m.values ↔ ∃ name, get? name m = some a := by
  refine ⟨fun h => ?_, fun ⟨_, h⟩ => mem_values_of_get? h⟩
  obtain ⟨⟨name, b⟩, hmem, rfl⟩ := List.mem_map.1 h
  exact ⟨name, hm.get?_of_mem hmem⟩

/-! ## Putting -/

theorem mem_put {name : String} {a : α} {m : NameMap α} {entry : String × α}
    (h : entry ∈ put name a m) : entry = (name, a) ∨ entry ∈ m := by
  induction m with
  | nil => exact Or.inl (List.mem_singleton.1 h)
  | cons other m ih =>
    obtain ⟨key, b⟩ := other
    rw [put] at h
    split_ifs at h
    · exact (List.mem_cons.1 h).imp_right (List.mem_cons_of_mem _)
    · exact List.mem_cons.1 h
    · rcases List.mem_cons.1 h with rfl | h
      · exact Or.inr List.mem_cons_self
      · exact (ih h).imp_right (List.mem_cons_of_mem _)

theorem Ordered.put {m : NameMap α} (h : m.Ordered) (name : String) (a : α) :
    (put name a m).Ordered := by
  induction m with
  | nil => exact List.pairwise_singleton _ _
  | cons entry m ih =>
    obtain ⟨key, b⟩ := entry
    obtain ⟨hkey, hm⟩ := List.pairwise_cons.1 h
    rw [NameMap.put]
    split_ifs with heq hlt
    · exact List.pairwise_cons.2 ⟨heq ▸ hkey, hm⟩
    · refine List.pairwise_cons.2 ⟨fun e he => ?_, h⟩
      rcases List.mem_cons.1 he with rfl | he
      · exact hlt
      · exact lt_trans hlt (hkey e he)
    · refine List.pairwise_cons.2 ⟨fun e he => ?_, ih hm⟩
      rcases mem_put he with rfl | he
      · exact lt_of_le_of_ne (not_lt.1 hlt) (Ne.symm heq)
      · exact hkey e he

/-- Putting a value under a name that is not in use adds it. -/
theorem values_put_of_none {name : String} {m : NameMap α} (a : α) (h : get? name m = none) :
    (put name a m).values.Perm (a :: m.values) := by
  induction m with
  | nil => exact List.Perm.refl _
  | cons entry m ih =>
    obtain ⟨key, b⟩ := entry
    rw [get?_cons] at h
    split_ifs at h with heq
    rw [put, if_neg heq]
    split_ifs with hlt
    · exact List.Perm.refl _
    · exact ((ih h).cons b).trans (List.Perm.swap a b _)

/-- Putting a value under a name that is in use replaces the value that was there. -/
theorem Ordered.values_put_of_some {name : String} {m : NameMap α} (hm : m.Ordered) (a : α)
    {old : α} (h : get? name m = some old) :
    (old :: (NameMap.put name a m).values).Perm (a :: m.values) := by
  induction m with
  | nil => cases h
  | cons entry m ih =>
    obtain ⟨key, b⟩ := entry
    obtain ⟨hkey, hm⟩ := List.pairwise_cons.1 hm
    rw [get?_cons] at h
    split_ifs at h with heq
    · cases h
      rw [NameMap.put, if_pos heq]
      exact List.Perm.swap a old _
    · have hlt : ¬ name < key := by
        intro hlt
        rw [get?_eq_none_of_lt fun e he => lt_trans hlt (hkey e he)] at h
        cases h
      rw [NameMap.put, if_neg heq, if_neg hlt]
      exact (List.Perm.swap b old _).trans (((ih hm h).cons b).trans (List.Perm.swap a b _))

/-- Putting a value under a name adds it and takes out what was there. -/
theorem Ordered.values_put {m : NameMap α} (hm : m.Ordered) (name : String) (a : α) :
    ((m.get? name).toList ++ (NameMap.put name a m).values).Perm (a :: m.values) := by
  cases hold : m.get? name with
  | none => exact values_put_of_none a hold
  | some old => exact hm.values_put_of_some a hold

/-! ## Erasing -/

theorem Ordered.erase {m : NameMap α} (h : m.Ordered) (name : String) : (erase name m).Ordered :=
  h.sublist List.filter_sublist

theorem erase_eq_self {name : String} {m : NameMap α} (h : ∀ entry ∈ m, entry.1 ≠ name) :
    erase name m = m :=
  List.filter_eq_self.2 fun e he => decide_eq_true (h e he)

/-- Erasing a name takes its value out. -/
theorem Ordered.values_erase {name : String} {m : NameMap α} (hm : m.Ordered) {a : α}
    (h : get? name m = some a) : m.values.Perm (a :: (NameMap.erase name m).values) := by
  induction m with
  | nil => cases h
  | cons entry m ih =>
    obtain ⟨key, b⟩ := entry
    obtain ⟨hkey, hm⟩ := List.pairwise_cons.1 hm
    rw [get?_cons] at h
    rw [erase_cons]
    split_ifs at h with heq
    · cases h
      rw [if_pos heq.symm, heq, erase_eq_self fun e he => ne_of_gt (hkey e he)]
      exact List.Perm.refl _
    · rw [if_neg (Ne.symm heq)]
      exact ((ih hm h).cons b).trans (List.Perm.swap a b _)

/-! ## Erasing several names -/

/-- The map without some names. -/
def without (names : List String) (m : NameMap α) : NameMap α :=
  m.filter fun entry => entry.1 ∉ names

theorem without_nil (m : NameMap α) : without [] m = m := List.filter_eq_self.2 fun _ _ => by simp

theorem without_cons (name : String) (names : List String) (m : NameMap α) :
    without (name :: names) m = without names (erase name m) := by
  rw [without, without, erase, List.filter_filter]
  refine List.filter_congr fun entry _ => ?_
  by_cases h : entry.1 = name <;> simp [h]

theorem without_congr {names names' : List String} (h : ∀ name, name ∈ names ↔ name ∈ names')
    (m : NameMap α) : without names m = without names' m :=
  List.filter_congr fun entry _ => by simp [h]

theorem get?_without (name : String) (names : List String) (m : NameMap α) :
    get? name (without names m) = if name ∈ names then none else get? name m := by
  induction names generalizing m with
  | nil => rw [without_nil, if_neg List.not_mem_nil]
  | cons other names ih =>
    rw [without_cons, ih]
    by_cases heq : name = other
    · subst heq
      rw [get?_erase_self, ite_self, if_pos List.mem_cons_self]
    · rw [get?_erase_of_ne heq]
      simp [heq]

theorem Ordered.without {m : NameMap α} (h : m.Ordered) (names : List String) :
    (NameMap.without names m).Ordered :=
  h.sublist List.filter_sublist

/-- A value is left unless all its names are among those that are erased. -/
theorem Ordered.not_mem_values_without_iff {a : α} {names : List String} {m : NameMap α}
    (hm : m.Ordered) :
    a ∉ (NameMap.without names m).values ↔ ∀ name, get? name m = some a → name ∈ names := by
  rw [(hm.without names).mem_values_iff]
  simp only [get?_without, not_exists]
  refine forall_congr' fun name => ?_
  by_cases h : name ∈ names <;> simp [h]

/-- Names other than the one that is erased keep their values. -/
theorem get?_erase_of_mem {name other : String} {names : List String} (hnot : name ∉ names)
    (hmem : other ∈ names) (m : NameMap α) : get? other (erase name m) = get? other m :=
  get?_erase_of_ne (ne_of_mem_of_not_mem hmem hnot) m

/-- The values of some names. -/
def valuesOf (names : List String) (m : NameMap α) : List α :=
  names.filterMap fun name => get? name m

theorem valuesOf_cons {name : String} {names : List String} {a : α} {m : NameMap α}
    (h : get? name m = some a) (hnot : name ∉ names) :
    valuesOf (name :: names) m = a :: valuesOf names (erase name m) := by
  have hsame : ∀ other ∈ names, get? other m = get? other (erase name m) := fun _ hmem =>
    (get?_erase_of_mem hnot hmem m).symm
  rw [valuesOf, List.filterMap_cons, h, valuesOf, List.filterMap_congr hsame]

/-- Erasing different names takes their values out. -/
theorem Ordered.values_without {names : List String} {m : NameMap α} (hm : m.Ordered)
    (hnodup : names.Nodup) (hnames : ∀ name ∈ names, (get? name m).isSome = true) :
    m.values.Perm (valuesOf names m ++ (NameMap.without names m).values) := by
  induction names generalizing m with
  | nil =>
    rw [without_nil]
    exact List.Perm.refl _
  | cons name names ih =>
    obtain ⟨hnot, hnodup⟩ := List.nodup_cons.1 hnodup
    obtain ⟨hname, hnames⟩ := List.forall_mem_cons.1 hnames
    obtain ⟨a, ha⟩ := Option.isSome_iff_exists.1 hname
    have hrest := ih (hm.erase name) hnodup fun other hmem =>
      (congrArg Option.isSome (get?_erase_of_mem hnot hmem m)).trans (hnames other hmem)
    rw [without_cons, valuesOf_cons ha hnot, List.cons_append]
    exact (hm.values_erase ha).trans (hrest.cons a)

end NameMap

end PathIdentity
