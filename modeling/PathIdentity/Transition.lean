import PathIdentity.Enumerated
import PathIdentity.Shape

/-!
# Transitions and analysis modes

A clock edge or a pulse has a `Transition`, rising or falling, with index 0 or 1. An analysis point
works in one `AnalysisMode`: it follows the earliest arrivals (min) or the latest ones (max).
-/

namespace PathIdentity

/-- The direction of a signal change. -/
inductive Transition where
  | rise
  | fall
deriving DecidableEq

namespace Transition

/-- The index of a transition. -/
def index : Transition → UInt8
  | rise => 0
  | fall => 1

/-- The transition of an index. -/
def ofIndex? (index : UInt8) : Option Transition :=
  if index = 0 then some rise else if index = 1 then some fall else none

/-- Rising comes before falling. -/
instance : Ord Transition := ⟨fun a b => compare a.index b.index⟩

instance : Enumerated Transition where
  values := [rise, fall]
  name
    | rise => "rise"
    | fall => "fall"

instance : HasShape Transition where
  shape
    | rise => .atom "Rise"
    | fall => .atom "Fall"

end Transition

/-- Which arrivals an analysis follows. -/
inductive AnalysisMode where
  /-- Earliest arrivals, for hold checks. -/
  | min
  /-- Latest arrivals, for setup checks. -/
  | max
deriving DecidableEq

instance : Enumerated AnalysisMode where
  values := [.min, .max]
  name
    | .min => "min"
    | .max => "max"

end PathIdentity
