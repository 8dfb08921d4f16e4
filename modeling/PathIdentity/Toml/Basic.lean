import PathIdentity.Decoding

/-!
# TOML documents

A TOML document is a table: values under keys, in the order in which the document first mentions
them. However a table is written, as a header, by dotted keys or inline, it is the same value, and
an array of tables is an array.
-/

namespace PathIdentity.Toml

/-- A TOML value. -/
inductive Value where
  | string (s : String)
  | integer (n : Int)
  | float (x : Double)
  | boolean (b : Bool)
  /-- A date, a time, or both, as written. -/
  | dateTime (text : String)
  | array (items : List Value)
  | table (entries : List (String × Value))

/-- A TOML value as something found. A date-time presents itself as a map. -/
def Value.found : Value → Found
  | string s => .string s
  | integer n => .integer n
  | float x => .float x
  | boolean b => .boolean b
  | dateTime _ => .map
  | array _ => .sequence
  | table _ => .map

/-- The only key of a date-time that is looked at as a table. -/
def dateTimeKey : String := "$__toml_private_datetime"

/-- The entries of a document. -/
abbrev Document := List (String × Value)

end PathIdentity.Toml
