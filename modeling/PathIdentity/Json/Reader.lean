import PathIdentity.Json.Basic
import PathIdentity.Number.Decimal
import PathIdentity.Text.Reader

/-!
# Reading JSON text

`Json.ofText?` reads a JSON value that fills a text. A number keeps the form in which it is written:
digits alone are an integer if 64 bits hold them, and minus zero is a double, since no integer is
minus zero.
-/

namespace PathIdentity.Json

open Reader

/-- Blanks, tabulators and line ends. -/
def skipBlank : Reader Unit := do
  let _ ← takeWhile fun c => c = ' ' || c = '\t' || c = '\n' || c = '\r'

/-- Four hexadecimal digits. -/
def hexQuad : Reader Nat := numberOf 16 <$> exactly 4 (isDigitOf 16)

/-- The code after a backslash and `u`; a code above the basic plane is written as a high and a low
surrogate. -/
def unicodeEscape : Reader Char := do
  let high ← hexQuad
  let code ←
    if 0xd800 ≤ high ∧ high < 0xdc00 then do
      text "\\u"
      let low ← hexQuad
      if 0xdc00 ≤ low ∧ low < 0xe000 then
        pure (0x10000 + (high - 0xd800) * 0x400 + (low - 0xdc00))
      else failure
    else pure high
  match ofCode? code with
  | some c => pure c
  | none => failure

/-- What follows a backslash. -/
def escape : Reader Char := do
  match ← satisfy fun _ => true with
  | '"' => pure '"'
  | '\\' => pure '\\'
  | '/' => pure '/'
  | 'b' => pure '\x08'
  | 'f' => pure '\x0c'
  | 'n' => pure '\n'
  | 'r' => pure '\r'
  | 't' => pure '\t'
  | 'u' => unicodeEscape
  | _ => failure

/-- One character of a string. -/
def stringChar : Reader Char := do
  let c ← satisfy fun c => c ≠ '"' && 0x20 ≤ c.toNat
  if c = '\\' then escape else pure c

/-- A string between quotes. -/
def stringText : Reader String := do
  char '"'
  let cs ← many stringChar
  char '"'
  return String.ofList cs

/-- The digits of an exponent with their sign. -/
def exponentPart : Reader Int := do
  let _ ← satisfy fun c => c = 'e' || c = 'E'
  let sign ← optional (satisfy fun c => c = '+' || c = '-')
  let n := numberOf 10 (← takeWhile1 isDecimal)
  return if sign = some '-' then -n else n

/-- The number that fits the parts of its text. -/
def numberOfParts (negative : Bool) (whole : List Char) (fraction : Option (List Char))
    (exponent : Option Int) : Json :=
  let digits := numberOf 10 (whole ++ fraction.getD [])
  let places : Int := (fraction.getD []).length
  let double := Double.ofDecimal negative ⟨digits, exponent.getD 0 - places⟩
  if fraction.isSome || exponent.isSome then float double
  else if negative then
    if digits = 0 ∨ Nat.pow 2 63 < digits then float double else int (-digits)
  else if digits < Nat.pow 2 64 then int digits else float double

/-- A number. -/
def number : Reader Json := do
  let sign ← optional (char '-')
  let whole ←
    if (← next?) == some '0' then do
      char '0'
      pure ['0']
    else takeWhile1 isDecimal
  let fraction ← optional do
    char '.'
    takeWhile1 isDecimal
  let exponent ← optional exponentPart
  return numberOfParts sign.isSome whole fraction exponent

/-- A value nested at most `depth` deep. -/
def value : (depth : Nat) → Reader Json
  | 0 => failure
  | depth + 1 => do
    match ← next? with
    | some 'n' => do
      text "null"
      return null
    | some 't' => do
      text "true"
      return bool true
    | some 'f' => do
      text "false"
      return bool false
    | some '"' => string <$> stringText
    | some '[' => do
      char '['
      array <$> commaItems skipBlank (value depth) ']' false
    | some '\x7b' => do
      char '\x7b'
      let field : Reader (String × Json) := do
        let name ← stringText
        skipBlank
        char ':'
        skipBlank
        return (name, ← value depth)
      ofFields <$> commaItems skipBlank field '\x7d' false
    | _ => number

/-- The value that a text writes, between blanks. -/
def ofText? (s : String) : Option Json :=
  (do
    skipBlank
    let j ← value (s.length + 1)
    skipBlank
    return j).run? s

end PathIdentity.Json
