import PathIdentity.Transition
import PathIdentity.Words

/-!
# Clock uncertainties

A clock may be annotated with an uncertainty for each analysis mode, in seconds. In identity the
two take part as `UncertaintyTicks`, ordered by the min uncertainty and then the max one, an absent
one first.
-/

namespace PathIdentity

/-- The uncertainties annotated on a clock, in seconds. -/
structure ClockUncertainties where
  /-- For earliest arrivals. -/
  min : Option Double
  /-- For latest arrivals. -/
  max : Option Double
deriving DecidableEq

/-- Uncertainties at the resolution of identity. -/
structure UncertaintyTicks where
  min : Option Ticks
  max : Option Ticks
deriving DecidableEq

namespace UncertaintyTicks

instance : Ord UncertaintyTicks :=
  ⟨fun a b => (compare a.min b.min).then (compare a.max b.max)⟩

end UncertaintyTicks

namespace ClockUncertainties

/-- The uncertainty of a mode. -/
def value (u : ClockUncertainties) : AnalysisMode → Option Double
  | .min => u.min
  | .max => u.max

/-- The uncertainties at the resolution of identity. -/
def ticks (u : ClockUncertainties) : UncertaintyTicks :=
  ⟨u.min.map quantize, u.max.map quantize⟩

instance : Words ClockUncertainties := ⟨fun u => words u.min ++ words u.max⟩

end ClockUncertainties

end PathIdentity
