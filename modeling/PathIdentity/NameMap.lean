/-!
# Values by name

A `NameMap α` holds values under names, as a list with the names ascending. `put` replaces the value
of a name that is already there. The lemmas say what each operation does to `get?`.
-/

namespace PathIdentity

/-- Values under names, the names ascending. -/
abbrev NameMap (α : Type) := List (String × α)

namespace NameMap

variable {α : Type}

/-- The value of a name. -/
def get? (name : String) (m : NameMap α) : Option α := m.lookup name

/-- The map with a value put under a name. -/
def put (name : String) (a : α) : NameMap α → NameMap α
  | [] => [(name, a)]
  | (key, b) :: rest =>
    if name = key then (name, a) :: rest
    else if name < key then (name, a) :: (key, b) :: rest
    else (key, b) :: put name a rest

/-- The map without a name. -/
def erase (name : String) (m : NameMap α) : NameMap α := m.filter (·.1 ≠ name)

/-- The map of named values, later ones replacing earlier ones of the same name. -/
def ofList (entries : List (String × α)) : NameMap α :=
  entries.foldl (fun m (name, a) => put name a m) []

/-! ## Look-up -/

@[simp] theorem get?_nil (name : String) : get? name ([] : NameMap α) = none := rfl

theorem get?_cons (name key : String) (a : α) (m : NameMap α) :
    get? name ((key, a) :: m) = if name = key then some a else get? name m := by
  by_cases h : name = key
  · simp [get?, h]
  · simp [get?, List.lookup_cons, beq_false_of_ne h, h]

@[simp] theorem get?_put_self (name : String) (a : α) (m : NameMap α) :
    get? name (put name a m) = some a := by
  induction m with
  | nil => simp [put, get?_cons]
  | cons entry rest ih =>
    obtain ⟨key, b⟩ := entry
    by_cases h : name = key
    · simp [put, get?_cons, h]
    · by_cases hlt : name < key <;> simp [put, get?_cons, h, hlt, ih]

theorem get?_put_of_ne {name other : String} (h : other ≠ name) (a : α) (m : NameMap α) :
    get? other (put name a m) = get? other m := by
  induction m with
  | nil => simp [put, get?_cons, h]
  | cons entry rest ih =>
    obtain ⟨key, b⟩ := entry
    by_cases hk : name = key
    · subst hk
      simp [put, get?_cons, h]
    · by_cases hlt : name < key <;> simp [put, get?_cons, h, hk, hlt, ih]

theorem erase_cons (name key : String) (a : α) (m : NameMap α) :
    erase name ((key, a) :: m) = if key = name then erase name m else (key, a) :: erase name m := by
  by_cases h : key = name <;> simp [erase, h]

@[simp] theorem get?_erase_self (name : String) (m : NameMap α) :
    get? name (erase name m) = none := by
  induction m with
  | nil => rfl
  | cons entry rest ih =>
    rw [erase_cons]
    split
    · exact ih
    · rename_i h
      rw [get?_cons, if_neg (Ne.symm h), ih]

theorem get?_erase_of_ne {name other : String} (h : other ≠ name) (m : NameMap α) :
    get? other (erase name m) = get? other m := by
  induction m with
  | nil => rfl
  | cons entry rest ih =>
    rw [erase_cons, get?_cons]
    split
    · rename_i hk
      rw [ih, if_neg fun ho => h (ho.trans hk)]
    · rw [get?_cons, ih]

end NameMap

end PathIdentity
