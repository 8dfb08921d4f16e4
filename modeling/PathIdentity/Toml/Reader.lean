import PathIdentity.Toml.DateTime
import PathIdentity.Toml.Node
import PathIdentity.Toml.Number
import PathIdentity.Toml.Text

/-!
# Reading TOML documents

`Toml.read?` reads a TOML 1.0 document: lines of keys with values, then sections, each a header and
the keys under it. A byte order mark at the start is skipped. The elements of an array may be spread
over lines and the last may be followed by a comma; an inline table stands on one line and ends with
its last value.
-/

namespace PathIdentity.Toml

open Reader

/-! ## Values -/

/-- A key with its value, the value being read by `value`. -/
def keyValue (value : Reader Value) : Reader KeyValue := do
  let (path, key) ← keyPath
  char '='
  skipBlanks
  return ⟨path, key, ← value⟩

/-- A number or a date-time. -/
def number : Reader Value :=
  (.dateTime <$> dateTime) <|> (.float <$> float) <|> (.integer <$> integer)

/-- A value with arrays and inline tables at most `depth` deep. -/
def value : (depth : Nat) → Reader Value
  | 0 => simple fun _ => failure
  | depth + 1 => simple fun opening => do
    char opening
    if opening = '[' then .array <$> commaItems skipLayout (value depth) ']' true
    else
      let body ← commaItems skipBlanks (keyValue (value depth)) '\x7d' false
      match inlineTable? body with
      | some table => pure table
      | none => failure
where
  /-- A value, an array or inline table being left to `nested`. -/
  simple (nested : Char → Reader Value) : Reader Value := do
    match ← next? with
    | some '"' | some '\'' => .string <$> stringText
    | some 't' => do
      text "true"
      return .boolean true
    | some 'f' => do
      text "false"
      return .boolean false
    | some '[' => nested '['
    | some '\x7b' => nested '\x7b'
    | _ => number

/-- Arrays and inline tables are less deep than this. -/
def depthLimit : Nat := 80

/-! ## Documents -/

/-- Empty lines and comments. -/
def skipLines : Reader Unit := do
  let _ ← many do
    skipBlanks
    let c ← optional comment
    newline <|> if c.isSome then atEnd else failure
  skipBlanks

/-- A line with a key and its value. -/
def keyValueLine : Reader KeyValue := do
  let kv ← keyValue (value (depthLimit - 1))
  restOfLine
  return kv

/-- Lines with keys and their values, empty lines and comments between them. -/
def body : Reader (List KeyValue) := do
  skipLines
  many do
    let kv ← keyValueLine
    skipLines
    return kv

/-- A section: a header in brackets, doubled for an element of an array of tables, and its body. -/
def sectionText : Reader Section := do
  char '['
  let isElement := (← optional (char '[')).isSome
  let (path, key) ← keyPath
  text (if isElement then "]]" else "]")
  restOfLine
  return ⟨path, key, isElement, ← body⟩

/-- The keys before the first header, and the sections. -/
def documentText : Reader (List KeyValue × List Section) := do
  let _ ← optional (char '\ufeff')
  let top ← body
  return (top, ← many sectionText)

/-- The document that a text writes. -/
def read? (s : String) : Option Document := do
  let (top, sections) ← documentText.run? s
  documentOf? top sections

end PathIdentity.Toml
