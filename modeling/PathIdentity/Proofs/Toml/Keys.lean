import PathIdentity.Toml.Reader
import PathIdentity.Proofs.Lookup
import PathIdentity.Proofs.Text.Reader
import Mathlib.Tactic.SplitIfs

/-!
# Keys of documents

No table of a document has a key twice (`read?_distinct`). A table under construction keeps to this
because an entry is only added under a key that is not there; what is added is a value that was
read, so inline tables come before the tables that headers open. So look-up says all about a table,
and documents that differ in the order of keys only (`Value.Reordered`) are told apart by none.
-/

namespace PathIdentity.Toml

/-- No table within the value has a key twice. -/
inductive Value.Distinct : Value → Prop
  | string (s : String) : Distinct (.string s)
  | integer (n : Int) : Distinct (.integer n)
  | float (x : Double) : Distinct (.float x)
  | boolean (b : Bool) : Distinct (.boolean b)
  | dateTime (text : String) : Distinct (.dateTime text)
  | array {items : List Value} (hitems : ∀ v ∈ items, Distinct v) : Distinct (.array items)
  | table {entries : List (String × Value)} (hkeys : (entries.map Prod.fst).Nodup)
    (hvalues : ∀ entry ∈ entries, Distinct entry.2) : Distinct (.table entries)

theorem Value.distinct_array_iff {items : List Value} :
    (Value.array items).Distinct ↔ ∀ v ∈ items, v.Distinct :=
  ⟨fun | .array hitems => hitems, .array⟩

theorem Value.distinct_table_iff {entries : List (String × Value)} :
    (Value.table entries).Distinct ↔
      (entries.map Prod.fst).Nodup ∧ ∀ entry ∈ entries, entry.2.Distinct :=
  ⟨fun | .table hkeys hvalues => ⟨hkeys, hvalues⟩, fun h => .table h.1 h.2⟩

theorem Value.Distinct.perm {entries entries' : List (String × Value)}
    (h : (Value.table entries).Distinct) (hperm : entries.Perm entries') :
    (Value.table entries').Distinct := by
  obtain ⟨hkeys, hvalues⟩ := distinct_table_iff.1 h
  exact distinct_table_iff.2 ⟨(hperm.map Prod.fst).nodup_iff.1 hkeys,
    fun entry hentry => hvalues entry (hperm.mem_iff.2 hentry)⟩

/-! ## Tables under construction -/

theorem entriesToValues_eq_map (entries : Entries) :
    entriesToValues entries = entries.map fun entry => (entry.1, entry.2.toValue) := by
  induction entries with
  | nil => rfl
  | cons entry rest ih =>
    obtain ⟨key, node⟩ := entry
    rw [entriesToValues, ih, List.map_cons]

theorem elementsToValues_eq_map (elements : List Entries) :
    elementsToValues elements = elements.map fun entries => .table (entriesToValues entries) := by
  induction elements with
  | nil => rfl
  | cons entries rest ih => rw [elementsToValues, ih, List.map_cons]

/-- No table within the entries, nor the table of them, has a key twice. -/
def DistinctEntries (entries : Entries) : Prop := (Value.table (entriesToValues entries)).Distinct

theorem distinctEntries_iff {entries : Entries} : DistinctEntries entries ↔
    (entries.map Prod.fst).Nodup ∧ ∀ entry ∈ entries, entry.2.toValue.Distinct := by
  rw [DistinctEntries, Value.distinct_table_iff, entriesToValues_eq_map, List.map_map,
    List.forall_mem_map]
  rfl

theorem distinctEntries_nil : DistinctEntries [] := distinctEntries_iff.2 (by simp)

theorem distinct_tables_iff {elements : List Entries} :
    (Node.tables elements).toValue.Distinct ↔ ∀ entries ∈ elements, DistinctEntries entries := by
  rw [Node.toValue, Value.distinct_array_iff, elementsToValues_eq_map]
  simp [DistinctEntries]

namespace DistinctEntries

variable {entries : Entries} {key : String} {node : Node}

theorem of_lookup (h : DistinctEntries entries) (hkey : entries.lookup key = some node) :
    node.toValue.Distinct := by
  obtain ⟨hkeys, hnodes⟩ := distinctEntries_iff.1 h
  exact hnodes (key, node) ((lookup_eq_some_iff_mem hkeys).1 hkey)

theorem append (h : DistinctEntries entries) (hkey : entries.lookup key = none)
    (hnode : node.toValue.Distinct) : DistinctEntries (entries ++ [(key, node)]) := by
  obtain ⟨hkeys, hnodes⟩ := distinctEntries_iff.1 h
  have hnot := lookup_eq_none_iff_not_mem.1 hkey
  refine distinctEntries_iff.2 ⟨?_, ?_⟩
  · rw [List.map_append, List.nodup_append]
    refine ⟨hkeys, List.nodup_singleton _, ?_⟩
    rintro a ha b hb rfl
    obtain rfl : a = key := List.mem_singleton.1 hb
    exact hnot ha
  · rw [List.forall_mem_append, List.forall_mem_singleton]
    exact ⟨hnodes, hnode⟩

theorem replaceEntry (h : DistinctEntries entries) (hnode : node.toValue.Distinct) :
    DistinctEntries (replaceEntry key node entries) := by
  obtain ⟨hkeys, hnodes⟩ := distinctEntries_iff.1 h
  refine distinctEntries_iff.2 ⟨?_, ?_⟩
  · rw [Toml.replaceEntry, List.map_map]
    exact hkeys
  · rintro entry hentry
    obtain ⟨⟨k, old⟩, hold, rfl⟩ := List.mem_map.1 hentry
    by_cases hk : k = key
    · simpa [hk] using hnode
    · simpa [hk] using hnodes _ hold

theorem eraseEntry (h : DistinctEntries entries) (key : String) :
    DistinctEntries (eraseEntry key entries) := by
  obtain ⟨hkeys, hnodes⟩ := distinctEntries_iff.1 h
  exact distinctEntries_iff.2 ⟨hkeys.sublist (List.filter_sublist.map _),
    fun entry hentry => hnodes entry (List.mem_of_mem_filter hentry)⟩

end DistinctEntries

theorem lookup_eraseEntry_self (key : String) (entries : Entries) :
    (eraseEntry key entries).lookup key = none :=
  lookup_eq_none_iff_not_mem.2 (by simp [eraseEntry])

/-! ## Changes to tables -/

/-- A change after which no table has a key twice if none had before. -/
def KeepsDistinct (change : Entries → Option Entries) : Prop :=
  ∀ entries entries', change entries = some entries' → DistinctEntries entries →
    DistinctEntries entries'

theorem KeepsDistinct.changeLast? {change : Entries → Option Entries}
    (hchange : KeepsDistinct change) {elements elements' : List Entries}
    (h : changeLast? change elements = some elements')
    (helements : ∀ entries ∈ elements, DistinctEntries entries) :
    ∀ entries ∈ elements', DistinctEntries entries := by
  induction elements generalizing elements' with
  | nil => cases h
  | cons entries rest ih =>
    obtain ⟨hentries, hrest⟩ := List.forall_mem_cons.1 helements
    cases rest with
    | nil =>
      obtain ⟨changed, hchanged, helements'⟩ := Option.bind_eq_some_iff.1 h
      cases helements'
      exact List.forall_mem_singleton.2 (hchange entries changed hchanged hentries)
    | cons next rest =>
      obtain ⟨changed, hchanged, helements'⟩ := Option.bind_eq_some_iff.1 h
      cases helements'
      exact List.forall_mem_cons.2 ⟨hentries, ih hchanged hrest⟩

theorem KeepsDistinct.changeAt? {made : Origin} {change : Origin → Entries → Option Entries}
    (hchange : ∀ origin, KeepsDistinct (change origin)) (path : List String) (origin : Origin) :
    KeepsDistinct (changeAt? made change path origin) := by
  induction path generalizing origin with
  | nil => exact hchange origin
  | cons key path ih =>
    intro entries entries' h hentries
    rw [Toml.changeAt?] at h
    split at h
    · rename_i hkey
      obtain ⟨inner, hinner, heq⟩ := Option.bind_eq_some_iff.1 h
      cases heq
      exact hentries.append hkey (ih made [] inner hinner distinctEntries_nil)
    · cases h
    · rename_i elements hkey
      obtain ⟨changed, hchanged, heq⟩ := Option.bind_eq_some_iff.1 h
      cases heq
      have helements := distinct_tables_iff.1 (hentries.of_lookup hkey)
      exact hentries.replaceEntry
        (distinct_tables_iff.2 ((ih .header).changeLast? hchanged helements))
    · rename_i origin' inner hkey
      split at h
      · cases h
      · obtain ⟨changed, hchanged, heq⟩ := Option.bind_eq_some_iff.1 h
        cases heq
        exact hentries.replaceEntry (ih origin' inner changed hchanged (hentries.of_lookup hkey))

/-! ## Statements -/

/-- No table within the value of a key has a key twice. -/
def KeyValue.Distinct (kv : KeyValue) : Prop := kv.value.Distinct

/-- No table within the values of a section has a key twice. -/
def Section.Distinct (part : Section) : Prop := ∀ kv ∈ part.body, kv.Distinct

theorem keepsDistinct_foldlM {α : Type} {add : Entries → α → Option Entries} {items : List α}
    (h : ∀ item ∈ items, KeepsDistinct fun entries => add entries item) :
    KeepsDistinct fun entries => items.foldlM add entries := by
  induction items with
  | nil =>
    intro entries entries' heq hentries
    cases heq
    exact hentries
  | cons item items ih =>
    obtain ⟨hitem, hitems⟩ := List.forall_mem_cons.1 h
    intro entries entries' heq hentries
    obtain ⟨mid, hmid, heq⟩ := Option.bind_eq_some_iff.1 heq
    exact ih hitems mid entries' heq (hitem entries mid hmid hentries)

theorem keepsDistinct_addKeyValue? {kv : KeyValue} (hkv : kv.Distinct) :
    KeepsDistinct fun entries => addKeyValue? entries kv := by
  refine KeepsDistinct.changeAt? (fun origin entries entries' h hentries => ?_) kv.path .header
  split_ifs at h with horigin hkey
  cases h
  exact hentries.append (Option.not_isSome_iff_eq_none.1 hkey) hkv

theorem keepsDistinct_addAll? {body : List KeyValue} (hbody : ∀ kv ∈ body, kv.Distinct) :
    KeepsDistinct fun entries => addAll? entries body :=
  keepsDistinct_foldlM fun kv hkv => keepsDistinct_addKeyValue? (hbody kv hkv)

theorem keepsDistinct_addSection? {part : Section} (hpart : part.Distinct) :
    KeepsDistinct fun entries => addSection? entries part := by
  have hfill := keepsDistinct_addAll? hpart
  refine KeepsDistinct.changeAt? (fun origin entries entries' h hentries => ?_) part.path .header
  split at h
  · rename_i hkey
    obtain ⟨filled, hfilled, heq⟩ := Option.bind_eq_some_iff.1 h
    cases heq
    exact hentries.append hkey (hfill [] filled hfilled distinctEntries_nil)
  · rename_i inner _ hkey
    obtain ⟨filled, hfilled, heq⟩ := Option.bind_eq_some_iff.1 h
    cases heq
    exact (hentries.eraseEntry part.key).append (lookup_eraseEntry_self part.key entries)
      (hfill inner filled hfilled (hentries.of_lookup hkey))
  · rename_i hkey
    obtain ⟨filled, hfilled, heq⟩ := Option.bind_eq_some_iff.1 h
    cases heq
    have helement := hfill [] filled hfilled distinctEntries_nil
    exact hentries.append hkey
      (distinct_tables_iff.2 (List.forall_mem_singleton.2 helement))
  · rename_i elements _ hkey
    obtain ⟨filled, hfilled, heq⟩ := Option.bind_eq_some_iff.1 h
    cases heq
    have helements := distinct_tables_iff.1 (hentries.of_lookup hkey)
    have helement := hfill [] filled hfilled distinctEntries_nil
    exact hentries.replaceEntry (distinct_tables_iff.2
      (List.forall_mem_append.2 ⟨helements, List.forall_mem_singleton.2 helement⟩))
  · cases h

theorem documentOf?_distinct {top : List KeyValue} {sections : List Section} {document : Document}
    (htop : ∀ kv ∈ top, kv.Distinct) (hsections : ∀ part ∈ sections, part.Distinct)
    (h : documentOf? top sections = some document) : (Value.table document).Distinct := by
  obtain ⟨entries, hentries, h⟩ := Option.bind_eq_some_iff.1 h
  obtain ⟨entries', hentries', h⟩ := Option.bind_eq_some_iff.1 h
  cases h
  have hdistinct := keepsDistinct_addAll? htop [] entries hentries distinctEntries_nil
  exact keepsDistinct_foldlM (fun part hpart => keepsDistinct_addSection? (hsections part hpart))
    entries entries' hentries' hdistinct

theorem inlineTable?_distinct {body : List KeyValue} {table : Value}
    (hbody : ∀ kv ∈ body, kv.Distinct) (h : inlineTable? body = some table) : table.Distinct := by
  obtain ⟨entries, hentries, h⟩ := Option.bind_eq_some_iff.1 h
  cases h
  exact keepsDistinct_addAll? hbody [] entries hentries distinctEntries_nil

/-! ## Reading -/

open Reader

theorem number_yields : Yields number Value.Distinct :=
  .orElse (yields_map _ .dateTime) (.orElse (yields_map _ .float) (yields_map _ .integer))

theorem simple_yields {nested : Char → Reader Value}
    (h : ∀ opening, Yields (nested opening) Value.Distinct) :
    Yields (value.simple nested) Value.Distinct := by
  refine .after _ fun next => ?_
  split
  · exact yields_map _ .string
  · exact yields_map _ .string
  · exact .after _ fun _ => yields_pure (.boolean true)
  · exact .after _ fun _ => yields_pure (.boolean false)
  · exact h '['
  · exact h '\x7b'
  · exact number_yields

theorem keyValue_yields {value : Reader Value} (h : Yields value Value.Distinct) :
    Yields (keyValue value) KeyValue.Distinct :=
  .after _ fun _ => .after _ fun _ => .after _ fun _ => h.bind fun _ hv => yields_pure hv

theorem value_yields (depth : ℕ) : Yields (value depth) Value.Distinct := by
  induction depth with
  | zero => exact simple_yields fun _ => yields_failure
  | succ depth ih =>
    refine simple_yields fun opening => .after _ fun _ => ?_
    split
    · exact (Yields.commaItems ih).map fun _ => .array
    · refine (Yields.commaItems (keyValue_yields ih)).bind fun body hbody => ?_
      split
      · rename_i table htable
        exact yields_pure (inlineTable?_distinct hbody htable)
      · exact yields_failure

theorem body_yields : Yields body fun kvs => ∀ kv ∈ kvs, kv.Distinct := by
  have hline : Yields keyValueLine KeyValue.Distinct :=
    (keyValue_yields (value_yields _)).bind fun _ hkv => .after _ fun _ => yields_pure hkv
  exact .after _ fun _ => .many (hline.bind fun _ hkv => .after _ fun _ => yields_pure hkv)

theorem sectionText_yields : Yields sectionText Section.Distinct :=
  .after _ fun _ => .after _ fun _ => .after _ fun _ => .after _ fun _ => .after _ fun _ =>
    body_yields.bind fun _ hbody => yields_pure hbody

/-- In a document that is read, and in each table of it, no key stands twice. -/
theorem read?_distinct {s : String} {document : Document} (h : read? s = some document) :
    (Value.table document).Distinct := by
  obtain ⟨⟨top, sections⟩, hread, h⟩ := Option.bind_eq_some_iff.1 h
  obtain ⟨⟨found, rest⟩, hfound, hrest⟩ := Option.bind_eq_some_iff.1 hread
  have hparts : Yields documentText fun parts =>
      (∀ kv ∈ parts.1, kv.Distinct) ∧ ∀ part ∈ parts.2, part.Distinct :=
    .after _ fun _ => body_yields.bind fun _ htop =>
      sectionText_yields.many.bind fun _ hsections => yields_pure ⟨htop, hsections⟩
  change (if rest.isEmpty then some found else none) = some (top, sections) at hrest
  split_ifs at hrest
  cases hrest
  obtain ⟨htop, hsections⟩ := hparts _ _ _ hfound
  exact documentOf?_distinct htop hsections h

/-! ## Look-up -/

/-- The value under a key of a table of a document. -/
def valueAt? (document : Document) (name key : String) : Option Value :=
  match document.lookup name with
  | some (.table entries) => entries.lookup key
  | _ => none

/-- The values differ in the order of keys only. -/
inductive Value.Reordered : Value → Value → Prop
  | refl (v : Value) : Reordered v v
  | array {items items' : List Value} (hitems : List.Forall₂ Reordered items items') :
    Reordered (.array items) (.array items')
  | table {entries entries' : List (String × Value)}
    (hentries : ∀ key, Option.Rel Reordered (entries.lookup key) (entries'.lookup key)) :
    Reordered (.table entries) (.table entries')

namespace Value.Reordered

theorem eq_table {entries : List (String × Value)} {v : Value}
    (h : (Value.table entries).Reordered v) : ∃ entries', v = .table entries' := by
  cases h with
  | refl => exact ⟨_, rfl⟩
  | table => exact ⟨_, rfl⟩

theorem eq_boolean_iff {v v' : Value} (h : v.Reordered v') {b : Bool} :
    v = .boolean b ↔ v' = .boolean b := by
  cases h with
  | refl => rfl
  | array | table => simp

theorem eq_integer_iff {v v' : Value} (h : v.Reordered v') {n : Int} :
    v = .integer n ↔ v' = .integer n := by
  cases h with
  | refl => rfl
  | array | table => simp

theorem optionRel_refl (v : Option Value) : Option.Rel Value.Reordered v v := by
  cases v with
  | none => exact .none
  | some v => exact .some (.refl v)

theorem getD {o o' : Option Value} (h : Option.Rel Value.Reordered o o') (v : Value) :
    (o.getD v).Reordered (o'.getD v) := by
  cases h with
  | none => exact .refl v
  | some h => exact h

theorem exists_iff {o o' : Option Value} (h : Option.Rel Value.Reordered o o') {p : Value → Prop}
    (hp : ∀ {v v' : Value}, v.Reordered v' → (p v ↔ p v')) :
    (∃ v, o = some v ∧ p v) ↔ ∃ v, o' = some v ∧ p v := by
  cases h with
  | none => simp
  | some h => simpa using hp h

/-- Entries may be written in another order. -/
theorem of_perm {entries entries' : List (String × Value)} (hkeys : (entries.map Prod.fst).Nodup)
    (h : entries.Perm entries') : (Value.table entries).Reordered (.table entries') := by
  refine .table fun key => ?_
  have heq : entries.lookup key = entries'.lookup key := by
    ext v
    rw [lookup_eq_some_iff_mem hkeys, lookup_eq_some_iff_mem ((h.map _).nodup_iff.1 hkeys),
      h.mem_iff]
  rw [heq]
  exact optionRel_refl _

theorem lookup {document document' : Document}
    (h : (Value.table document).Reordered (.table document')) (key : String) :
    Option.Rel Value.Reordered (document.lookup key) (document'.lookup key) := by
  cases h with
  | refl => exact optionRel_refl _
  | table hentries => exact hentries key

theorem valueAt? {document document' : Document}
    (h : (Value.table document).Reordered (.table document')) (name key : String) :
    Option.Rel Value.Reordered (valueAt? document name key) (valueAt? document' name key) := by
  have hname := h.lookup name
  rw [Toml.valueAt?, Toml.valueAt?]
  generalize document.lookup name = v, document'.lookup name = v' at hname
  cases hname with
  | none => exact .none
  | some hv =>
    cases hv with
    | refl => exact optionRel_refl _
    | array => exact .none
    | table hentries => exact hentries key

end Value.Reordered

end PathIdentity.Toml
