import PathIdentity.Number.Double

/-!
# Decimals and doubles

A `Decimal` is `digits * 10^exponent`. `Double.ofDecimal` is the double nearest to one, and
`Double.shortest` goes the other way: of the decimals that read back as a given double it takes one
with the fewest digits, and of those the nearest.

The decimals that read back as a double are those between the midpoints to its two neighbours, the
midpoints included when the rank of the double is even. For each number of digits only the two
neighbours of the value on the grid of decimals with that many digits matter: if any decimal of the
grid lies between the midpoints, one of these two does.
-/

namespace PathIdentity

/-- The number `digits * 10^exponent`. -/
structure Decimal where
  digits : Nat
  exponent : Int
deriving DecidableEq

/-- The number of decimal digits of a number; zero has one. -/
def digitCount (n : Nat) : Nat := (Nat.toDigits 10 n).length

namespace Decimal

/-- The decimal point of a decimal as a place after its leading digit's left edge: the exponent
that it would have if all its digits stood after the point. -/
def pointPlace (d : Decimal) : Int := d.exponent + digitCount d.digits

/-- The same number without zeros at the end of its digits; `fuel` bounds their count. -/
def trimZeros : (fuel : Nat) → Decimal → Decimal
  | 0, d => d
  | fuel + 1, d =>
    if d.digits ≠ 0 ∧ d.digits % 10 = 0 then trimZeros fuel ⟨d.digits / 10, d.exponent + 1⟩ else d

/-- Beyond `10^310` every decimal rounds to infinity. -/
def greatestPlace : Int := 310

/-- Below `10^-330` every decimal rounds to zero. -/
def leastPlace : Int := -330

end Decimal

namespace Double

/-- The double nearest to a decimal, with the given sign. -/
def ofDecimal (negative : Bool) (d : Decimal) : Double :=
  if d.digits = 0 ∨ d.pointPlace < Decimal.leastPlace then ofRank negative 0
  else if Decimal.greatestPlace < d.pointPlace then infinity negative
  else ofRatio negative (d.digits * Nat.pow 10 d.exponent.toNat) (Nat.pow 10 (-d.exponent).toNat)

/-! ## Fewest digits -/

/-- Where a decimal exactly between two candidates goes. -/
inductive Tie where
  | toEven
  | up
deriving DecidableEq

/-- The midpoints to the neighbours of a finite rank, in half units. -/
def midpoints (rank : Nat) : Nat × Nat :=
  (unitsOfRank (rank - 1) + unitsOfRank rank, unitsOfRank rank + unitsOfRank (rank + 1))

/-- Whether `n * 10^exponent` reads back as the double of a rank. -/
def readsBack (rank n : Nat) (exponent : Int) : Bool :=
  let scale := Nat.pow 10 (-exponent).toNat
  let (low, high) := midpoints rank
  let value := n * Nat.pow 10 exponent.toNat * (2 * unitsPerOne)
  if rank % 2 = 0 then low * scale ≤ value && value ≤ high * scale
  else low * scale < value && value < high * scale

/-- The decimal on the grid `10^exponent` that reads back as the double of a rank and is nearest
to it, if there is one. -/
def onGrid? (tie : Tie) (rank : Nat) (exponent : Int) : Option Decimal :=
  let num := unitsOfRank rank * Nat.pow 10 (-exponent).toNat
  let den := unitsPerOne * Nat.pow 10 exponent.toNat
  let below := num / den
  let nearest := match tie with
    | .toEven => divHalfEven num den
    | .up => divHalfUp num den
  let other := if nearest = below then below + 1 else below
  if readsBack rank nearest exponent then some ⟨nearest, exponent⟩
  else if readsBack rank other exponent then some ⟨other, exponent⟩
  else none

/-- The place of the decimal point of a positive finite rank: the value lies in
`[10^(place - 1), 10^place)`. Units times `10^400` are more than one for every positive rank. -/
def pointPlaceOfRank (rank : Nat) : Int :=
  (digitCount (unitsOfRank rank * Nat.pow 10 400 / unitsPerOne) : Int) - 400

/-- The greatest number of digits that is ever needed. -/
def mostDigits : Nat := 17

/-- A decimal with the fewest digits that reads back as the double of a positive finite rank, and
of those the nearest. -/
def shortest (tie : Tie) (rank : Nat) : Decimal :=
  let place := pointPlaceOfRank rank
  let candidates := (List.range mostDigits).filterMap fun (n : Nat) =>
    onGrid? tie rank (place - (n + 1))
  match candidates with
  | d :: _ => d.trimZeros mostDigits
  | [] => ⟨unitsOfRank rank, 0⟩

end Double

end PathIdentity
