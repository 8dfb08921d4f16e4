import PathIdentity.Config.Load
import PathIdentity.Proofs.Decoding
import PathIdentity.Proofs.Pool.Reachable
import PathIdentity.Proofs.Toml.Keys

/-!
# Which configurations load

A document whose tables are tables loads exactly if no key is out of place, each setting has a value
of its type (`SearchSettings.Misfit` is the contrary), and the capacity is not too great. What loads
is given by looking up the settings (`SearchSettings.Writes`). Where no key stands twice, a table
that decodes is empty or holds its setting alone, and the fold over the tables of a document visits
each once: `foldlM_addTable_eq_ok_iff` says what it does to each setting. No key stands twice in a
document that is read, so texts load as the documents that they write.
-/

namespace PathIdentity.SearchSettings

open Toml (Value Document valueAt?)

/-! ## What documents say -/

/-- Whether a key with a value belongs to the table of a name. -/
def Belongs (name key : String) (v : Value) : Prop :=
  (name = "crpr" ∧ key = "enabled" ∧ ∃ b, v = .boolean b) ∨
  (name = "clock" ∧ key = "uncertainty" ∧ ∃ b, v = .boolean b) ∨
  (name = "pool" ∧ key = "initial_capacity" ∧ ∃ n : ℕ, v = .integer n)

/-- Some key of the document or of a table does not belong there, or has a value of another type. -/
def Misfit (document : Document) : Prop :=
  (∃ name, name ∉ tableNames ∧ (document.lookup name).isSome) ∨
    ∃ name key v, valueAt? document name key = some v ∧ ¬ Belongs name key v

/-- The capacity of pools that a document gives exceeds `2^24`. -/
def Oversized (document : Document) : Prop :=
  ∃ n : ℕ, valueAt? document "pool" "initial_capacity" = some (.integer n) ∧ 2 ^ 24 < n

/-- Each setting is as the document gives it, or else `false`, `true` and 0. -/
structure Writes (document : Document) (s : SearchSettings) : Prop where
  crpr : (valueAt? document "crpr" "enabled").getD (.boolean false) = .boolean s.crprEnabled
  clock : (valueAt? document "clock" "uncertainty").getD (.boolean true) =
    .boolean s.uncertaintyEnabled
  pool : (valueAt? document "pool" "initial_capacity").getD (.integer 0) = .integer s.poolCapacity

theorem Writes.unique {document : Document} {s t : SearchSettings} (hs : Writes document s)
    (ht : Writes document t) : s = t := by
  obtain ⟨crpr, clock, pool⟩ := s
  obtain ⟨crpr', clock', pool'⟩ := t
  have hcrpr := hs.crpr.symm.trans ht.crpr
  have hclock := hs.clock.symm.trans ht.clock
  have hpool := hs.pool.symm.trans ht.pool
  simp only [Value.boolean.injEq, Value.integer.injEq, Int.natCast_inj] at hcrpr hclock hpool
  rw [hcrpr, hclock, hpool]

/-- What stands under the names of tables are tables. -/
def HasTables (document : Document) : Prop :=
  ∀ name ∈ tableNames, ∀ v, document.lookup name = some v → ∃ entries, v = .table entries

/-! ## One table -/

theorem decodeSwitch_eq_ok_iff {v : Value} {b : Bool} :
    decodeSwitch v = .ok b ↔ v = .boolean b := by
  cases v <;> simp [decodeSwitch]

theorem decodeCount_eq_ok_iff {v : Value} {n : ℕ} : decodeCount v = .ok n ↔ v = .integer n := by
  cases v with
  | integer m =>
    rw [decodeCount, Value.integer.injEq]
    split_ifs with hm
    · rw [Except.ok.injEq]
      omega
    · exact iff_of_false nofun (by omega)
  | _ => exact iff_of_false nofun nofun

section

variable {α : Type} {record key : String} {decode : Value → Decoded α} {write : α → Value}
  {default a : α}

theorem write_injective (hdecode : ∀ v a, decode v = .ok a ↔ v = write a) :
    Function.Injective write := by
  intro a b heq
  have hb : decode (write a) = .ok b := (hdecode _ _).2 heq
  rw [(hdecode _ _).2 rfl] at hb
  exact Except.ok.inj hb

/-- A table that decodes is empty or holds its setting alone. -/
theorem decodeTable_eq_ok_iff (hdecode : ∀ v a, decode v = .ok a ↔ v = write a)
    {entries : List (String × Value)} (hkeys : (entries.map Prod.fst).Nodup) :
    decodeTable record key decode default (.table entries) = .ok a ↔
      (∀ k v, entries.lookup k = some v → k = key ∧ ∃ a, v = write a) ∧
        (entries.lookup key).getD (write default) = write a := by
  rcases entries with _ | ⟨⟨k, v⟩, _ | ⟨⟨k', v'⟩, rest⟩⟩
  · show Except.ok default = Except.ok a ↔ _
    simp [(write_injective hdecode).eq_iff]
  · show ((if k = key then decode v else _) >>= Except.ok) = Except.ok a ↔ _
    split_ifs with hk
    · subst hk
      simp only [Decoded.bind_eq_ok_iff, hdecode, lookup_cons_ite, List.lookup_nil]
      constructor
      · rintro ⟨b, rfl, hb⟩
        cases hb
        refine ⟨fun k' v' h => ?_, by simp⟩
        split_ifs at h with hk
        cases h
        exact ⟨hk, a, rfl⟩
      · rintro ⟨-, h⟩
        exact ⟨a, by simpa using h, rfl⟩
    · refine iff_of_false nofun fun h => hk (h.1 k v ?_).1
      simp
  · have hne : k' ≠ k := fun heq => by simp [heq] at hkeys
    refine iff_of_false (fun h => ?_) fun h => hne ?_
    · rw [decodeTable, List.foldlM_cons, Decoded.bind_eq_ok_iff] at h
      obtain ⟨b, hb, h⟩ := h
      rw [List.foldlM_cons, Decoded.bind_eq_ok_iff] at h
      obtain ⟨b', hb', -⟩ := h
      change (if k = key then decode v else .error _) = .ok b at hb
      change (if k' = key then decode v' else .error _) = .ok b' at hb'
      split_ifs at hb hb' with hk hk'
      exact hne (hk'.trans hk.symm)
    · have hk := (h.1 k v (by simp)).1
      have hk' := (h.1 k' v' (by simp [lookup_cons_ite, hne])).1
      exact hk'.trans hk.symm

/-- The setting of a table, or its default, is what look-up gives; all else in it is refused. -/
theorem lookup_elim_eq_ok_iff (hdecode : ∀ v a, decode v = .ok a ↔ v = write a)
    {document : Document} (hdistinct : (Value.table document).Distinct) {name : String}
    (htable : ∀ v, document.lookup name = some v → ∃ entries, v = .table entries) :
    (document.lookup name).elim (.ok default) (decodeTable record key decode default) = .ok a ↔
      (∀ k v, valueAt? document name k = some v → k = key ∧ ∃ a, v = write a) ∧
        (valueAt? document name key).getD (write default) = write a := by
  cases hname : document.lookup name with
  | none => simp [valueAt?, hname, (write_injective hdecode).eq_iff]
  | some v =>
    obtain ⟨entries, rfl⟩ := htable v hname
    obtain ⟨hnames, hvalues⟩ := Value.distinct_table_iff.1 hdistinct
    have hmem := (lookup_eq_some_iff_mem hnames).1 hname
    obtain ⟨hkeys, -⟩ := Value.distinct_table_iff.1 (hvalues (name, .table entries) hmem)
    simp only [valueAt?, hname]
    rw [Option.elim_some, decodeTable_eq_ok_iff hdecode hkeys]

end

/-! ## The tables of a document -/

/-- A table that is added changes its own setting only. -/
theorem addTable_eq_ok_iff {s₀ s : SearchSettings} {name : String} {v : Value} :
    s₀.addTable name v = .ok s ↔ name ∈ tableNames ∧
      (if name = "crpr" then decodeTable "CrprConfig" "enabled" decodeSwitch false v
        else .ok s₀.crprEnabled) = .ok s.crprEnabled ∧
      (if name = "clock" then decodeTable "ClockConfig" "uncertainty" decodeSwitch true v
        else .ok s₀.uncertaintyEnabled) = .ok s.uncertaintyEnabled ∧
      (if name = "pool" then decodeTable "PoolConfig" "initial_capacity" decodeCount 0 v
        else .ok s₀.poolCapacity) = .ok s.poolCapacity := by
  obtain ⟨crpr, clock, pool⟩ := s
  obtain ⟨crpr₀, clock₀, pool₀⟩ := s₀
  rw [addTable]
  by_cases hcrpr : name = "crpr"
  · subst hcrpr
    simp [Decoded.map_eq_ok_iff, tableNames, -Bool.exists_bool]
  by_cases hclock : name = "clock"
  · subst hclock
    simp [Decoded.map_eq_ok_iff, tableNames, and_left_comm, -Bool.exists_bool]
  by_cases hpool : name = "pool"
  · subst hpool
    simp [Decoded.map_eq_ok_iff, tableNames, and_left_comm]
  · simp [tableNames, hcrpr, hclock, hpool]

/-- What a table makes of a setting, and the tables after it of that, is found by looking the table
of the setting up. -/
theorem exists_lookup_elim_iff {α : Type} {decode : Value → Decoded α} {name table : String}
    {v : Value} {rest : Document} (hname : rest.lookup name = none) {a₀ a : α} :
    (∃ a₁, (if name = table then decode v else .ok a₀) = .ok a₁ ∧
        (rest.lookup table).elim (.ok a₁) decode = .ok a) ↔
      (((name, v) :: rest).lookup table).elim (.ok a₀) decode = .ok a := by
  rw [lookup_cons_ite]
  by_cases h : name = table
  · subst h
    simp [hname]
  · simp [h, Ne.symm h]

theorem forall_lookup_cons_iff {name : String} {v : Value} {rest : Document} :
    (∀ other, (((name, v) :: rest).lookup other).isSome → other ∈ tableNames) ↔
      name ∈ tableNames ∧ ∀ other, (rest.lookup other).isSome → other ∈ tableNames := by
  simp only [lookup_cons_ite]
  constructor
  · intro h
    refine ⟨h name (by simp), fun other hother => h other ?_⟩
    split_ifs
    · rfl
    · exact hother
  · rintro ⟨hmem, h⟩ other hother
    split_ifs at hother with heq
    · exact heq ▸ hmem
    · exact h other hother

/-- The fold over the tables of a document decodes each setting on its own. -/
theorem foldlM_addTable_eq_ok_iff {document : Document} (hkeys : (document.map Prod.fst).Nodup)
    {s₀ s : SearchSettings} :
    document.foldlM (fun s (name, v) => s.addTable name v) s₀ = .ok s ↔
      (∀ name, (document.lookup name).isSome → name ∈ tableNames) ∧
      (document.lookup "crpr").elim (.ok s₀.crprEnabled)
        (decodeTable "CrprConfig" "enabled" decodeSwitch false) = .ok s.crprEnabled ∧
      (document.lookup "clock").elim (.ok s₀.uncertaintyEnabled)
        (decodeTable "ClockConfig" "uncertainty" decodeSwitch true) = .ok s.uncertaintyEnabled ∧
      (document.lookup "pool").elim (.ok s₀.poolCapacity)
        (decodeTable "PoolConfig" "initial_capacity" decodeCount 0) = .ok s.poolCapacity := by
  induction document generalizing s₀ with
  | nil =>
    obtain ⟨crpr, clock, pool⟩ := s
    obtain ⟨crpr₀, clock₀, pool₀⟩ := s₀
    show Except.ok _ = Except.ok _ ↔ _
    simp
  | cons entry rest ih =>
    obtain ⟨name, v⟩ := entry
    obtain ⟨hname, hrest⟩ := List.nodup_cons.1 hkeys
    have hnone : rest.lookup name = none := lookup_eq_none_iff_not_mem.2 hname
    rw [List.foldlM_cons, Decoded.bind_eq_ok_iff]
    simp only [ih hrest, addTable_eq_ok_iff, ← exists_lookup_elim_iff hnone]
    rw [forall_lookup_cons_iff]
    constructor
    · rintro ⟨s₁, ⟨hmem, hcrpr, hclock, hpool⟩, hnames, hcrpr', hclock', hpool'⟩
      exact ⟨⟨hmem, hnames⟩, ⟨_, hcrpr, hcrpr'⟩, ⟨_, hclock, hclock'⟩, _, hpool, hpool'⟩
    · rintro ⟨⟨hmem, hnames⟩, ⟨crpr, hcrpr, hcrpr'⟩, ⟨clock, hclock, hclock'⟩, pool, hpool, hpool'⟩
      exact ⟨⟨crpr, clock, pool⟩, ⟨hmem, hcrpr, hclock, hpool⟩, hnames, hcrpr', hclock', hpool'⟩

theorem not_misfit_iff {document : Document} : ¬ Misfit document ↔
    (∀ name, (document.lookup name).isSome → name ∈ tableNames) ∧
    (∀ key v, valueAt? document "crpr" key = some v → key = "enabled" ∧ ∃ b, v = .boolean b) ∧
    (∀ key v, valueAt? document "clock" key = some v →
      key = "uncertainty" ∧ ∃ b, v = .boolean b) ∧
    ∀ key v, valueAt? document "pool" key = some v →
      key = "initial_capacity" ∧ ∃ n : ℕ, v = .integer n := by
  have hcrpr {key v} : Belongs "crpr" key v ↔ key = "enabled" ∧ ∃ b, v = .boolean b := by
    simp [Belongs]
  have hclock {key v} : Belongs "clock" key v ↔ key = "uncertainty" ∧ ∃ b, v = .boolean b := by
    simp [Belongs]
  have hpool {key v} :
      Belongs "pool" key v ↔ key = "initial_capacity" ∧ ∃ n : ℕ, v = .integer n := by
    simp [Belongs]
  simp only [← hcrpr, ← hclock, ← hpool, Misfit, not_or, not_exists, not_and, not_not]
  constructor
  · rintro ⟨hnames, h⟩
    exact ⟨fun name hname => by_contra fun hnot => hnames name hnot hname,
      h "crpr", h "clock", h "pool"⟩
  · rintro ⟨hnames, hcrpr, hclock, hpool⟩
    refine ⟨fun name hnot hname => hnot (hnames name hname), fun name key v hv => ?_⟩
    have hmem : name ∈ tableNames := by
      refine hnames name ?_
      rw [valueAt?] at hv
      split at hv
      · rename_i hname
        rw [hname]
        rfl
      · cases hv
    simp only [tableNames, List.mem_cons, List.not_mem_nil, or_false] at hmem
    rcases hmem with rfl | rfl | rfl
    · exact hcrpr key v hv
    · exact hclock key v hv
    · exact hpool key v hv

theorem ofDocument_eq_ok_iff {document : Document} (hdistinct : (Value.table document).Distinct)
    (htables : HasTables document) {s : SearchSettings} :
    ofDocument document = .ok s ↔ ¬ Misfit document ∧ Writes document s := by
  have hkeys := (Value.distinct_table_iff.1 hdistinct).1
  have hswitch (v : Value) (b : Bool) := decodeSwitch_eq_ok_iff (v := v) (b := b)
  have hcount (v : Value) (n : ℕ) := decodeCount_eq_ok_iff (v := v) (n := n)
  rw [ofDocument, foldlM_addTable_eq_ok_iff hkeys,
    lookup_elim_eq_ok_iff hswitch hdistinct (htables "crpr" (by decide)),
    lookup_elim_eq_ok_iff hswitch hdistinct (htables "clock" (by decide)),
    lookup_elim_eq_ok_iff hcount hdistinct (htables "pool" (by decide)), not_misfit_iff]
  constructor
  · rintro ⟨hnames, ⟨hcrpr, hcrpr'⟩, ⟨hclock, hclock'⟩, hpool, hpool'⟩
    exact ⟨⟨hnames, hcrpr, hclock, hpool⟩, hcrpr', hclock', hpool'⟩
  · rintro ⟨⟨hnames, hcrpr, hclock, hpool⟩, hcrpr', hclock', hpool'⟩
    exact ⟨hnames, ⟨hcrpr, hcrpr'⟩, ⟨hclock, hclock'⟩, hpool, hpool'⟩

theorem exists_getD_eq {α : Type} {write : α → Value} {o : Option Value} (default : α)
    (h : ∀ v, o = some v → ∃ a, v = write a) : ∃ a, o.getD (write default) = write a := by
  cases o with
  | none => exact ⟨default, rfl⟩
  | some v => exact h v rfl

theorem exists_writes {document : Document} (h : ¬ Misfit document) : ∃ s, Writes document s := by
  obtain ⟨-, hcrpr, hclock, hpool⟩ := not_misfit_iff.1 h
  obtain ⟨crpr, hcrpr⟩ := exists_getD_eq false fun v hv => (hcrpr "enabled" v hv).2
  obtain ⟨clock, hclock⟩ := exists_getD_eq true fun v hv => (hclock "uncertainty" v hv).2
  obtain ⟨pool, hpool⟩ := exists_getD_eq 0 fun v hv => (hpool "initial_capacity" v hv).2
  exact ⟨⟨crpr, clock, pool⟩, hcrpr, hclock, hpool⟩

/-! ## Loading -/

/-- A result is a failure of a class. -/
def Fails (result : Except LoadError SearchSettings) (c : FailureClass) : Prop :=
  ∃ e, result = .error e ∧ e.failureClass = c

/-- A result, of a failure only the class. -/
def outcome (result : Except LoadError SearchSettings) : Except FailureClass SearchSettings :=
  result.mapError LoadError.failureClass

/-- A result is the one for a document: each fault of the document has its class, and without a
fault the settings are those that it writes. -/
structure Classified (document : Document) (result : Except LoadError SearchSettings) : Prop where
  parsing : Fails result .parsing ↔ Misfit document
  validation : Fails result .validation ↔ ¬ Misfit document ∧ Oversized document
  settings : ¬ Misfit document → ¬ Oversized document → ∃ s, result = .ok s ∧ Writes document s

/-- Two results agree for a document: they are the same, but for which of several faults is named
where it is a misfit. -/
def Agree (document : Document) (result result' : Except LoadError SearchSettings) : Prop :=
  outcome result' = outcome result ∧ (¬ Misfit document → result' = result)

/-- The capacity that a document writes is oversized where it does not validate. -/
theorem Writes.oversized_iff {document : Document} {s : SearchSettings} (h : Writes document s) :
    Oversized document ↔ greatestCapacity < s.poolCapacity := by
  have hgreatest : greatestCapacity = 2 ^ 24 := rfl
  have hpool := h.pool
  rw [hgreatest]
  constructor
  · rintro ⟨n, hn, hlt⟩
    rw [hn, Option.getD_some, Value.integer.injEq] at hpool
    omega
  · intro hlt
    cases hv : valueAt? document "pool" "initial_capacity" with
    | none =>
      rw [hv, Option.getD_none, Value.integer.injEq] at hpool
      omega
    | some v =>
      rw [hv, Option.getD_some] at hpool
      exact ⟨s.poolCapacity, hpool ▸ hv, hlt⟩

section

variable {document : Document}

theorem loadDocument_of_error {cause : DecodeError} (h : ofDocument document = .error cause) :
    loadDocument document = .error (.mismatched cause) := by
  rw [loadDocument, h]
  rfl

theorem loadDocument_of_ok {s : SearchSettings} (h : ofDocument document = .ok s) :
    loadDocument document = s.validate := by
  rw [loadDocument, h]
  rfl

theorem loadDocument_of_misfit (hdistinct : (Value.table document).Distinct)
    (htables : HasTables document) (h : Misfit document) :
    ∃ cause, loadDocument document = .error (.mismatched cause) := by
  cases hs : ofDocument document with
  | ok s => exact absurd h ((ofDocument_eq_ok_iff hdistinct htables).1 hs).1
  | error cause => exact ⟨cause, loadDocument_of_error hs⟩

theorem loadDocument_of_writes (hdistinct : (Value.table document).Distinct)
    (htables : HasTables document) (h : ¬ Misfit document) {s : SearchSettings}
    (hs : Writes document s) : loadDocument document = s.validate :=
  loadDocument_of_ok ((ofDocument_eq_ok_iff hdistinct htables).2 ⟨h, hs⟩)

@[simp] theorem fails_error_iff {e : LoadError} {c : FailureClass} :
    Fails (.error e) c ↔ e.failureClass = c := by
  simp [Fails]

@[simp] theorem not_fails_ok (s : SearchSettings) (c : FailureClass) : ¬ Fails (.ok s) c := by
  simp [Fails]

theorem classified_loadDocument (hdistinct : (Value.table document).Distinct)
    (htables : HasTables document) : Classified document (loadDocument document) := by
  by_cases hmisfit : Misfit document
  · obtain ⟨cause, hload⟩ := loadDocument_of_misfit hdistinct htables hmisfit
    rw [hload]
    exact ⟨by simp [LoadError.failureClass, hmisfit], by simp [LoadError.failureClass, hmisfit],
      fun hfits => absurd hmisfit hfits⟩
  · obtain ⟨s, hs⟩ := exists_writes hmisfit
    have hsize := hs.oversized_iff
    rw [loadDocument_of_writes hdistinct htables hmisfit hs, validate]
    split_ifs with hlt
    · exact ⟨by simp [LoadError.failureClass, hmisfit],
        by simp [LoadError.failureClass, hmisfit, hsize, hlt],
        fun _ hnot => absurd (hsize.2 hlt) hnot⟩
    · exact ⟨by simp [hmisfit], by simp [hsize, hlt], fun _ _ => ⟨s, rfl, hs⟩⟩

theorem le_of_loadDocument_eq_ok {s : SearchSettings} (h : loadDocument document = .ok s) :
    s.poolCapacity ≤ 2 ^ 24 := by
  cases hs : ofDocument document with
  | error cause =>
    rw [loadDocument_of_error hs] at h
    cases h
  | ok s' =>
    rw [loadDocument_of_ok hs, validate] at h
    split_ifs at h with hlt
    cases h
    exact Nat.not_lt.1 hlt

end

theorem load_eq_loadDocument {text : String} {document : Document}
    (hread : Toml.read? text = some document) : load text = loadDocument document := by
  rw [load, hread]

theorem le_of_load_eq_ok {text : String} {s : SearchSettings} (h : load text = .ok s) :
    s.poolCapacity ≤ 2 ^ 24 := by
  cases hread : Toml.read? text with
  | none =>
    rw [load, hread] at h
    cases h
  | some document => exact le_of_loadDocument_eq_ok (load_eq_loadDocument hread ▸ h)

/-! ## The order of keys -/

section

variable {document document' : Document}

theorem Belongs.iff_of_reordered {name key : String} {v v' : Value} (h : v.Reordered v') :
    Belongs name key v ↔ Belongs name key v' := by
  simp only [Belongs, h.eq_boolean_iff, h.eq_integer_iff]

theorem misfit_iff_of_reordered (h : (Value.table document).Reordered (.table document')) :
    Misfit document ↔ Misfit document' := by
  refine or_congr (exists_congr fun name => and_congr_right fun _ => ?_)
    (exists_congr fun name => exists_congr fun key => ?_)
  · simp only [Option.isSome_iff_exists]
    simpa using Value.Reordered.exists_iff (h.lookup name) (p := fun _ => True) fun _ => Iff.rfl
  · exact Value.Reordered.exists_iff (h.valueAt? name key) fun hv =>
      not_congr (Belongs.iff_of_reordered hv)

theorem writes_iff_of_reordered (h : (Value.table document).Reordered (.table document'))
    {s : SearchSettings} : Writes document s ↔ Writes document' s := by
  have hcrpr := Value.Reordered.getD (h.valueAt? "crpr" "enabled") (.boolean false)
  have hclock := Value.Reordered.getD (h.valueAt? "clock" "uncertainty") (.boolean true)
  have hpool := Value.Reordered.getD (h.valueAt? "pool" "initial_capacity") (.integer 0)
  exact ⟨fun hs => ⟨hcrpr.eq_boolean_iff.1 hs.crpr, hclock.eq_boolean_iff.1 hs.clock,
      hpool.eq_integer_iff.1 hs.pool⟩,
    fun hs => ⟨hcrpr.eq_boolean_iff.2 hs.crpr, hclock.eq_boolean_iff.2 hs.clock,
      hpool.eq_integer_iff.2 hs.pool⟩⟩

theorem HasTables.of_reordered (hd : HasTables document)
    (h : (Value.table document).Reordered (.table document')) : HasTables document' := by
  intro name hname v' hv'
  have hlookup := h.lookup name
  rw [hv'] at hlookup
  cases hv : document.lookup name with
  | none =>
    rw [hv] at hlookup
    cases hlookup
  | some v =>
    obtain ⟨entries, rfl⟩ := hd name hname v hv
    rw [hv] at hlookup
    cases hlookup with
    | some hentries => exact hentries.eq_table

/-- Only which fault of several is named depends on the order of keys. -/
theorem agree_loadDocument (hdistinct : (Value.table document).Distinct)
    (hdistinct' : (Value.table document').Distinct) (htables : HasTables document)
    (h : (Value.table document).Reordered (.table document')) :
    Agree document (loadDocument document) (loadDocument document') := by
  have htables' := htables.of_reordered h
  have hmisfits := misfit_iff_of_reordered h
  by_cases hmisfit : Misfit document
  · refine ⟨?_, fun hfits => absurd hmisfit hfits⟩
    obtain ⟨cause, hload⟩ := loadDocument_of_misfit hdistinct htables hmisfit
    obtain ⟨cause', hload'⟩ := loadDocument_of_misfit hdistinct' htables' (hmisfits.1 hmisfit)
    rw [hload, hload']
    rfl
  · obtain ⟨s, hs⟩ := exists_writes hmisfit
    have hload := loadDocument_of_writes hdistinct htables hmisfit hs
    have hload' := loadDocument_of_writes hdistinct' htables' (mt hmisfits.2 hmisfit)
      ((writes_iff_of_reordered h).1 hs)
    have heq : loadDocument document' = loadDocument document := hload'.trans hload.symm
    exact ⟨congrArg outcome heq, fun _ => heq⟩

end

/-- Settings load exactly from the documents that give them. Each fault of a document without
repeated keys has its class, and the order of keys does not matter, whether its tables are permuted
or keys anywhere within. So it is with texts, by the documents that they write; a text that is no
document is reported as such. No pool is made with a greater capacity than `2^24`. -/
theorem load_exact :
    (∀ document, (Value.table document).Distinct → HasTables document →
      Classified document (loadDocument document) ∧
      (∀ document', document.Perm document' →
        Agree document (loadDocument document) (loadDocument document')) ∧
      ∀ document', (Value.table document').Distinct →
        (Value.table document).Reordered (.table document') →
          Agree document (loadDocument document) (loadDocument document')) ∧
    (∀ text document, Toml.read? text = some document → HasTables document →
      Classified document (load text) ∧
      ∀ text' document', Toml.read? text' = some document' →
        (Value.table document).Reordered (.table document') →
          Agree document (load text) (load text')) ∧
    (∀ text, Toml.read? text = none →
      Fails (load text) .parsing ∧ ¬ Fails (load text) .validation) ∧
    ∀ text s, load text = .ok s → ∀ {σ : Type} [ExceptionState σ] [Std.TransOrd σ]
      (session : Session σ), session.Reachable → ∀ name,
        ∃ t pool r, session.step (.newPool name s.poolCapacity) = some t ∧
          t.1.pools.get? name = some pool ∧ t.1.store.registryOf? pool = some r ∧
          r.capacity = s.poolCapacity ∧ r.capacity ≤ 2 ^ 24 := by
  refine ⟨fun document hdistinct htables => ⟨classified_loadDocument hdistinct htables,
      fun document' hperm => ?_, fun document' hdistinct' horder =>
        agree_loadDocument hdistinct hdistinct' htables horder⟩,
    fun text document hread htables => ?_, fun text hread => ?_, ?_⟩
  · have hkeys := (Value.distinct_table_iff.1 hdistinct).1
    exact agree_loadDocument hdistinct (hdistinct.perm hperm) htables (.of_perm hkeys hperm)
  · have hdistinct := Toml.read?_distinct hread
    rw [load_eq_loadDocument hread]
    refine ⟨classified_loadDocument hdistinct htables, fun text' document' hread' horder => ?_⟩
    rw [load_eq_loadDocument hread']
    exact agree_loadDocument hdistinct (Toml.read?_distinct hread') htables horder
  · have hload : load text = .error .malformed := by rw [load, hread]
    simp [hload, LoadError.failureClass]
  · intro text s hload σ _ _ session hsession name
    obtain ⟨t, pool, r, hstep, hpool, hr, hcapacity⟩ :=
      hsession.consistent.exists_newPool name s.poolCapacity
    exact ⟨t, pool, r, hstep, hpool, hr, hcapacity, hcapacity ▸ le_of_load_eq_ok hload⟩

/-- A text that makes room for 64 hashes and leaves the other settings alone. -/
def sizedText : String := "[pool]\ninitial_capacity = 64\n"

/-- What `sizedText` writes. -/
def sizedDocument : Document := [("pool", .table [("initial_capacity", .integer 64)])]

theorem read?_sizedText : Toml.read? sizedText = some sizedDocument := by
  -- Evaluation must not meet the text itself, which it would take apart again at every character.
  have hchars : sizedText.toList = ['[', 'p', 'o', 'o', 'l', ']', '\n', 'i', 'n', 'i', 't', 'i',
      'a', 'l', '_', 'c', 'a', 'p', 'a', 'c', 'i', 't', 'y', ' ', '=', ' ', '6', '4', '\n'] := rfl
  rw [Toml.read?, Reader.run?, hchars]
  rfl

theorem hasTables_sizedDocument : HasTables sizedDocument := by
  intro name _ v hv
  rw [sizedDocument, lookup_cons_ite, List.lookup_nil] at hv
  split_ifs at hv
  cases hv
  exact ⟨_, rfl⟩

/-- `sizedText` is read as a document without repeated keys, and both load. -/
theorem load_exact_sized :
    (Value.table sizedDocument).Distinct ∧ HasTables sizedDocument ∧ ¬ Misfit sizedDocument ∧
      ¬ Oversized sizedDocument ∧ loadDocument sizedDocument = .ok ⟨false, true, 64⟩ ∧
      Toml.read? sizedText = some sizedDocument ∧ load sizedText = .ok ⟨false, true, 64⟩ := by
  have hdistinct := Toml.read?_distinct read?_sizedText
  have hdecoded : ofDocument sizedDocument = .ok ⟨false, true, 64⟩ := rfl
  obtain ⟨hfits, hwrites⟩ := (ofDocument_eq_ok_iff hdistinct hasTables_sizedDocument).1 hdecoded
  have hsize : ¬ Oversized sizedDocument := by
    rw [hwrites.oversized_iff]
    decide
  obtain ⟨hdocuments, htexts, -⟩ := load_exact
  obtain ⟨s, hload, hs⟩ :=
    (hdocuments sizedDocument hdistinct hasTables_sizedDocument).1.settings hfits hsize
  obtain ⟨s', hload', hs'⟩ :=
    (htexts sizedText sizedDocument read?_sizedText hasTables_sizedDocument).1.settings hfits hsize
  refine ⟨hdistinct, hasTables_sizedDocument, hfits, hsize, ?_, read?_sizedText, ?_⟩
  · rw [hload, hs.unique hwrites]
  · rw [hload', hs'.unique hwrites]

end PathIdentity.SearchSettings
