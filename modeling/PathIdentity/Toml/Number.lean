import PathIdentity.Number.Decimal
import PathIdentity.Toml.Blank

/-!
# Numbers of TOML

An integer is decimal with an optional sign, or hexadecimal, octal or binary without one, and fits
into 64 bits. A float has a fraction, an exponent, or both, and is read as the nearest double; one
that is too large for a double is refused, unless it is negative and becomes minus infinity. An
underscore may stand between two digits. A decimal number begins with zero only if zero is all of
its whole part.
-/

namespace PathIdentity.Toml

open Reader

/-- Digits of a base with underscores between them, one digit at least. -/
def digitRun (base : Nat) : Reader (List Char) := do
  let first ← satisfy (isDigitOf base)
  let others ← many do
    let _ ← optional (char '_')
    satisfy (isDigitOf base)
  return first :: others

/-- A sign, if there is one: whether it is minus. -/
def sign : Reader (Option Bool) :=
  optional ((do
    char '-'
    return true) <|> (do
    char '+'
    return false))

/-- The digits of a decimal whole part. -/
def wholePart : Reader (List Char) := do
  if (← next?) == some '0' then
    char '0'
    return ['0']
  else digitRun 10

/-! ## Integers -/

/-- The integer, if 64 bits hold it. -/
def fitting (n : Int) : Reader Int :=
  if -Int.pow 2 63 ≤ n ∧ n < Int.pow 2 63 then pure n else failure

/-- An integer with a mark for its base. -/
def markedInteger (mark : String) (base : Nat) : Reader Int := do
  text mark
  let digits ← digitRun base
  fitting (numberOf base digits)

/-- An integer. -/
def integer : Reader Int :=
  markedInteger "0x" 16 <|> markedInteger "0o" 8 <|> markedInteger "0b" 2 <|> (do
    let negative := (← sign).getD false
    let n := numberOf 10 (← wholePart)
    fitting (if negative then -n else n))

/-! ## Floats -/

/-- A power of ten behind the digits of a float. -/
def exponent : Reader Int := do
  let _ ← satisfy fun c => c = 'e' || c = 'E'
  let negative := (← sign).getD false
  let n := numberOf 10 (← digitRun 10)
  return if negative then -n else n

/-- A fraction behind the whole part of a float. -/
def fraction : Reader (List Char) := do
  char '.'
  digitRun 10

/-- The double of a float's parts. -/
def doubleOfParts (negative : Bool) (whole fraction : List Char) (exponent : Int) : Double :=
  .ofDecimal negative ⟨numberOf 10 (whole ++ fraction), exponent - fraction.length⟩

/-- A float in digits. -/
def digitFloat : Reader Double := do
  let negative := (← sign).getD false
  let whole ← wholePart
  let x ← (do
      let places ← fraction
      let power ← optional exponent
      return doubleOfParts negative whole places (power.getD 0)) <|> (do
      return doubleOfParts negative whole [] (← exponent))
  if x = .infinity false then failure else pure x

/-- An infinity or a NaN, by name. -/
def namedFloat : Reader Double := do
  let negative := (← sign).getD false
  (do
    text "inf"
    return .infinity negative) <|> (do
    text "nan"
    return .quietNaN negative)

/-- A float. -/
def float : Reader Double := digitFloat <|> namedFloat

end PathIdentity.Toml
