import PathIdentity.Number.Double

/-!
# Times as ticks

A time is given in seconds as a `Double` and takes part in identity as a whole number of ticks of
one picosecond. `quantize` multiplies by `10^12` with one rounding to the nearest double, rounds
the product to the nearest whole number with halves away from zero, and clamps the result to the
64-bit range. A NaN counts as no time at all, so every time has ticks and equality of ticks is an
equivalence.
-/

namespace PathIdentity

/-- A whole number of picoseconds. -/
abbrev Ticks := Int64

/-- The number of ticks in a second. -/
def ticksPerSecond : Nat := Nat.pow 10 12

/-- The whole number nearest to a double, halves going away from zero, clamped to 64 bits. -/
def Double.roundAway (x : Double) : Int64 :=
  match x.magnitude with
  | .finite units =>
    let n : Int := divHalfUp units unitsPerOne
    Int64.ofIntClamp (if x.isNegative then -n else n)
  | .infinite => if x.isNegative then Int64.minValue else Int64.maxValue
  | .nan => 0

/-- The ticks of a time in seconds. -/
def quantize (seconds : Double) : Ticks := (seconds.mulNat ticksPerSecond).roundAway

end PathIdentity
