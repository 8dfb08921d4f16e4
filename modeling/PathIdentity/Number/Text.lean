import PathIdentity.Number.Decimal

/-!
# The text of a double

A double is written with the fewest digits that read back as the same double. A `FloatStyle` says
which numbers are written positionally and which way a tie between two digit strings goes; the rest
are written with an exponent. Positional text always has a point and a digit after it.
-/

namespace PathIdentity

/-- When and how a form of doubles writes a power of ten. -/
structure ExponentStyle where
  /-- A number is positional when the place of its decimal point is above this one. -/
  low : Int
  /-- A number is positional when the place of its decimal point is at most this one. -/
  high : Int
  /-- Written before a power of ten that is not negative. -/
  powerSign : String

/-- The decisions of a written form of doubles. -/
structure FloatStyle where
  /-- Which of two equally near digit strings is taken. -/
  tie : Double.Tie
  /-- How numbers far from one are written; all are positional where there is no such style. -/
  exponent : Option ExponentStyle

/-- So many zeros. -/
def zeros (n : Nat) : String := "".pushn '0' n

namespace Decimal

/-- Digits with a decimal point among, before or after them. -/
def positionalText (d : Decimal) : String :=
  let digits := toString d.digits
  let place := d.pointPlace
  if place ≤ 0 then "0." ++ zeros (-place).toNat ++ digits
  else if 0 ≤ d.exponent then digits ++ zeros d.exponent.toNat ++ ".0"
  else
    String.ofList (digits.toList.take place.toNat) ++ "." ++
      String.ofList (digits.toList.drop place.toNat)

/-- One digit before the point, the others after it, and the power of ten. -/
def exponentText (style : ExponentStyle) (d : Decimal) : String :=
  let power := d.pointPlace - 1
  let tail := "e" ++ (if power < 0 then "" else style.powerSign) ++ toString power
  match (toString d.digits).toList with
  | [] => tail
  | [c] => c.toString ++ tail
  | c :: rest => c.toString ++ "." ++ String.ofList rest ++ tail

/-- The text in a style. -/
def text (style : FloatStyle) (d : Decimal) : String :=
  match style.exponent with
  | none => d.positionalText
  | some e =>
    if e.low < d.pointPlace ∧ d.pointPlace ≤ e.high then d.positionalText else d.exponentText e

end Decimal

/-- The text of a double in a style. -/
def Double.text (style : FloatStyle) (x : Double) : String :=
  let sign := if x.isNegative then "-" else ""
  match x.magnitude with
  | .nan => "NaN"
  | .infinite => sign ++ "inf"
  | .finite 0 => sign ++ "0.0"
  | .finite _ => sign ++ (Double.shortest style.tie x.rank).text style

end PathIdentity
