/-!
# 64-bit floating-point numbers

A `Double` is known by its bits. Every finite double is a whole number of *units*, a unit being
`2^-1074`, the least positive double; `Double.units` gives that number, and with it every question
about a finite double becomes one about natural numbers.

The magnitude bits of a double (all but the sign), read as a number, are its *rank*. Ranks count
the nonnegative doubles upwards: `unitsOfRank` is increasing, and `2047 * 2^52` is the rank of
infinity. `roundToRank num den` is the rank of the double nearest to `num / den`, with ties to the
even rank, and infinity from the point where rounding leaves the finite range.
-/

namespace PathIdentity

/-- A double-precision floating-point number, known by its bits. -/
structure Double where
  bits : UInt64
deriving DecidableEq, Inhabited

/-- What a double stands for: `units` counts multiples of `2^-1074`. -/
inductive Magnitude where
  | nan
  | infinite
  | finite (units : Nat)
deriving DecidableEq

/-! ## Ranks -/

/-- The number of fractions of one binade: doubles have 52 bits after the leading one. -/
def binade : Nat := Nat.pow 2 52

/-- The rank of infinity, one above the largest finite rank. -/
def infiniteRank : Nat := 2047 * binade

/-- The units of the double of a rank. Rank 0 to `2 * binade` count single units; each binade
after that counts steps twice as large as the one before. -/
def unitsOfRank (rank : Nat) : Nat :=
  if rank < binade then rank else (rank % binade + binade) * Nat.pow 2 (rank / binade - 1)

/-- Units to one: `1 = 2^1074` units. -/
def unitsPerOne : Nat := Nat.pow 2 1074

/-- The quotient `num / den` as a whole number, to nearest, a half going to the even neighbour. -/
def divHalfEven (num den : Nat) : Nat :=
  let q := num / den
  let r := num % den
  if 2 * r < den ∨ (2 * r = den ∧ q % 2 = 0) then q else q + 1

/-- The quotient `num / den` as a whole number, to nearest, a half going up. -/
def divHalfUp (num den : Nat) : Nat := (2 * num + den) / (2 * den)

/-- The rank of the double nearest to `num / den`, ties going to the even rank. The quotient in
units is rounded to 53 significant bits, and to whole units below `2^53`. -/
def roundToRank (num den : Nat) : Nat :=
  let shift := (num * unitsPerOne / den).log2 - 52
  min (shift * binade + divHalfEven (num * unitsPerOne) (den * Nat.pow 2 shift)) infiniteRank

namespace Double

/-- The bit that carries the sign. -/
def signBit : Nat := Nat.pow 2 63

/-- Whether the sign bit is set; zeros and NaNs have a sign too. -/
def isNegative (x : Double) : Bool := signBit ≤ x.bits.toNat

/-- The magnitude bits as a number. -/
def rank (x : Double) : Nat := x.bits.toNat % signBit

/-- The magnitude of a double. -/
def magnitude (x : Double) : Magnitude :=
  if x.rank < infiniteRank then .finite (unitsOfRank x.rank)
  else if x.rank = infiniteRank then .infinite
  else .nan

/-- The double with a given sign and rank. -/
def ofRank (negative : Bool) (rank : Nat) : Double :=
  ⟨UInt64.ofNat (if negative then signBit + rank else rank)⟩

/-- The double nearest to `num / den`, with the given sign. -/
def ofRatio (negative : Bool) (num den : Nat) : Double :=
  ofRank negative (roundToRank num den)

/-- The double nearest to a whole number. -/
def ofInt (n : Int) : Double := ofRatio (n < 0) n.natAbs 1

/-- Positive zero. -/
def zero : Double := ⟨0⟩

/-- The infinity of a sign. -/
def infinity (negative : Bool) : Double := ofRank negative infiniteRank

/-- A NaN with the given sign and the top fraction bit set. -/
def quietNaN (negative : Bool) : Double := ofRank negative (infiniteRank + binade / 2)

/-- The product with a whole number, rounded once; the number is meant to be a double itself. -/
def mulNat (x : Double) (k : Nat) : Double :=
  match x.magnitude with
  | .finite units => ofRatio x.isNegative (units * k) unitsPerOne
  | .infinite | .nan => x

/-! ## Single precision -/

/-- The double equal to a single-precision number given by its bits. Singles have a sign bit,
8 exponent bits and 23 fraction bits, and are whole multiples of `2^-149`. -/
def ofSingle (bits : UInt32) : Double :=
  let negative := Nat.pow 2 31 ≤ bits.toNat
  let rank := bits.toNat % Nat.pow 2 31
  let step := Nat.pow 2 23
  if rank < step then ofRatio negative rank (Nat.pow 2 149)
  else if rank < 255 * step then
    ofRatio negative ((rank % step + step) * Nat.pow 2 (rank / step - 1)) (Nat.pow 2 149)
  else if rank = 255 * step then infinity negative
  else quietNaN negative

end Double

end PathIdentity
