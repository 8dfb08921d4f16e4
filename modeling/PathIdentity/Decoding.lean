import PathIdentity.Number.Text
import PathIdentity.Text.Quoted

/-!
# Why a value does not decode

Values of documents are decoded into values of the domain. A failure is a cause, `DecodeError`; its
text is made by `DecodeError.message`, in a style for the doubles that it may name, since formats
write these differently.
-/

namespace PathIdentity

/-- What was found. -/
inductive Found where
  | null
  | boolean (b : Bool)
  | integer (n : Int)
  | float (x : Double)
  | string (s : String)
  | sequence
  | map

/-- What was expected. -/
inductive Expected where
  | word32
  | double
  | count
  | boolean
  | unit
  /-- A named value: its name, or a map from its name. -/
  | stringOrMap
  | singleKeyMap
  /-- A record of a name. -/
  | record (name : String)
  /-- A record of a name, from an array of so many elements. -/
  | elements (name : String) (n : Nat)
  /-- An array that ends earlier. -/
  | fewerElements

/-- Why a value does not decode. -/
inductive DecodeError where
  | invalidType (found : Found) (expected : Expected)
  | invalidValue (found : Found) (expected : Expected)
  | invalidLength (length : Nat) (expected : Expected)
  | missingField (name : String)
  | unknownField (name : String) (known : List String)
  | unknownVariant (name : String) (known : List String)

/-- The outcome of decoding. -/
abbrev Decoded := Except DecodeError

/-! ## Texts -/

/-- A text between grave accents. -/
def ticked (s : String) : String := "`" ++ s ++ "`"

/-- What was found, in words. -/
def Found.text (style : FloatStyle) : Found → String
  | null => "null"
  | boolean b => "boolean " ++ ticked (toString b)
  | integer n => "integer " ++ ticked (toString n)
  | float x => "floating point " ++ ticked (x.text style)
  | string s => "string " ++ quoted s
  | sequence => "sequence"
  | map => "map"

/-- What was expected, in words. -/
def Expected.text : Expected → String
  | word32 => "u32"
  | double => "f64"
  | count => "usize"
  | boolean => "a boolean"
  | unit => "unit"
  | stringOrMap => "string or map"
  | singleKeyMap => "map with a single key"
  | record name => "struct " ++ name
  | elements name n => "struct " ++ name ++ " with " ++ toString n ++ " elements"
  | fewerElements => "fewer elements in array"

/-- A choice of names, in words. -/
def choiceText : List String → String
  | [] => "nothing"
  | [a] => ticked a
  | [a, b] => ticked a ++ " or " ++ ticked b
  | names => "one of " ++ ", ".intercalate (names.map ticked)

/-- The text of a failure. -/
def DecodeError.message (style : FloatStyle) : DecodeError → String
  | invalidType found expected =>
    "invalid type: " ++ found.text style ++ ", expected " ++ expected.text
  | invalidValue found expected =>
    "invalid value: " ++ found.text style ++ ", expected " ++ expected.text
  | invalidLength length expected =>
    "invalid length " ++ toString length ++ ", expected " ++ expected.text
  | missingField name => "missing field " ++ ticked name
  | unknownField name known => "unknown field " ++ ticked name ++ ", expected " ++ choiceText known
  | unknownVariant name known =>
    "unknown variant " ++ ticked name ++ ", expected " ++ choiceText known

end PathIdentity
