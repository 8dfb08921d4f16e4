import PathIdentity.Toml.Basic

/-!
# Putting a document together

A document comes as statements: headers that open a table, and keys with a value. While it is put
together each table remembers where it came from (`Origin`), because that decides what may still be
added to it:

* a table is opened by one header only, and by none if dotted keys made it;
* dotted keys add to tables that dotted keys made, and to no others;
* a header may open a table that so far was only passed through by the headers of its parts; the
  table then takes its place behind those mentioned before the header;
* a value is closed, inline tables and arrays included.

`documentOf?` gives the document of a list of statements that keep these rules.
-/

namespace PathIdentity.Toml

/-- What made a table. -/
inductive Origin where
  /-- Its own header; the table of the whole document counts as opened so. -/
  | header
  /-- A header of one of its parts. -/
  | passed
  /-- A dotted key. -/
  | dotted
deriving DecidableEq

/-- A part of a document under construction. -/
inductive Node where
  | value (v : Value)
  | table (origin : Origin) (entries : List (String × Node))
  /-- An array of tables, each opened by a header. -/
  | tables (elements : List (List (String × Node)))

/-- Entries of a table under construction. -/
abbrev Entries := List (String × Node)

/-! ## The finished value -/

mutual

/-- The value of a finished node. -/
def Node.toValue : Node → Value
  | .value v => v
  | .table _ entries => .table (entriesToValues entries)
  | .tables elements => .array (elementsToValues elements)

/-- The values of finished entries. -/
def entriesToValues : List (String × Node) → List (String × Value)
  | [] => []
  | (key, node) :: rest => (key, node.toValue) :: entriesToValues rest

/-- The values of finished tables. -/
def elementsToValues : List (List (String × Node)) → List Value
  | [] => []
  | entries :: rest => .table (entriesToValues entries) :: elementsToValues rest

end

/-! ## Entries -/

/-- The entries with another node under a key that is there. -/
def replaceEntry (key : String) (node : Node) (entries : Entries) : Entries :=
  entries.map fun (k, old) => (k, if k = key then node else old)

/-- The entries without a key. -/
def eraseEntry (key : String) (entries : Entries) : Entries := entries.filter (·.1 ≠ key)

/-- Changes the last of the tables of an array. -/
def changeLast? (change : Entries → Option Entries) :
    List (List (String × Node)) → Option (List (List (String × Node)))
  | [] => none
  | [entries] => do return [← change entries]
  | entries :: rest => do return entries :: (← changeLast? change rest)

/-- Changes the table at a path below the given entries, going into the last table of each array on
the way. Tables that are missing are made with the origin `made`; if that is `dotted`, tables opened
by a header are not entered. -/
def changeAt? (made : Origin) (change : Origin → Entries → Option Entries) :
    (path : List String) → Origin → Entries → Option Entries
  | [], origin, entries => change origin entries
  | key :: path, _, entries =>
    match entries.lookup key with
    | none => do
      let inner ← changeAt? made change path made []
      return entries ++ [(key, .table made inner)]
    | some (.value _) => none
    | some (.tables elements) => do
      let elements ← changeLast? (changeAt? made change path .header) elements
      return replaceEntry key (.tables elements) entries
    | some (.table origin inner) =>
      if made = .dotted ∧ origin = .header then none
      else do
        let inner ← changeAt? made change path origin inner
        return replaceEntry key (.table origin inner) entries

/-! ## Statements -/

/-- A key with its value; `path` holds the keys before the last dot. -/
structure KeyValue where
  path : List String
  key : String
  value : Value

/-- A table with its header: the tables that the header passes, the name of the table, whether it
is one more element of an array, and what stands under the header. -/
structure Section where
  path : List String
  key : String
  isElement : Bool
  body : List KeyValue

/-- Adds a key with its value. A key without dots goes to the open table, which no dotted key made;
one with dots goes to a table that dotted keys made. -/
def addKeyValue? (entries : Entries) (kv : KeyValue) : Option Entries :=
  let add (origin : Origin) (entries : Entries) : Option Entries :=
    if (origin == .dotted) == kv.path.isEmpty then none
    else if (entries.lookup kv.key).isSome then none
    else some (entries ++ [(kv.key, .value kv.value)])
  changeAt? .dotted add kv.path .header entries

/-- Adds keys with their values in turn. -/
def addAll? (entries : Entries) (body : List KeyValue) : Option Entries :=
  body.foldlM addKeyValue? entries

/-- Opens a table and fills it. -/
def addSection? (entries : Entries) (part : Section) : Option Entries :=
  let add (_ : Origin) (entries : Entries) : Option Entries :=
    match part.isElement, entries.lookup part.key with
    | false, none => do
      return entries ++ [(part.key, .table .header (← addAll? [] part.body))]
    | false, some (.table .passed inner) => do
      let inner ← addAll? inner part.body
      return eraseEntry part.key entries ++ [(part.key, .table .header inner)]
    | true, none => do
      return entries ++ [(part.key, .tables [← addAll? [] part.body])]
    | true, some (.tables elements) => do
      let element ← addAll? [] part.body
      return replaceEntry part.key (.tables (elements ++ [element])) entries
    | _, some _ => none
  changeAt? .passed add part.path .header entries

/-- The document of the keys before the first header and the sections after it. -/
def documentOf? (top : List KeyValue) (sections : List Section) : Option Document := do
  let entries ← addAll? [] top
  return entriesToValues (← sections.foldlM addSection? entries)

/-- The value of an inline table. -/
def inlineTable? (body : List KeyValue) : Option Value := do
  return .table (entriesToValues (← addAll? [] body))

end PathIdentity.Toml
