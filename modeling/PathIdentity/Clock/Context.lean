import PathIdentity.Ids
import PathIdentity.Transition

/-!
# Search contexts

Clock contexts need a handful of answers from the rest of a timing engine: whether the removal of
clock reconvergence pessimism (CRPR) and clock uncertainties are switched on, how two optional clock
paths order, and names for diagnostics. A `SearchContext` supplies them. Two answers have defaults:
paths are equal where they order equal, and no path carries a filter.
-/

namespace PathIdentity

/-- Answers of the timing engine. -/
structure SearchContext where
  /-- Whether pessimism removal is switched on; clock paths take part in identity only then. -/
  crprActive : Bool
  /-- Whether clock uncertainties are switched on. -/
  uncertaintyEnabled : Bool := true
  /-- The order of optional paths. -/
  pathCompare : Option PathRef → Option PathRef → Ordering
  /-- Equality of optional paths. -/
  pathEqual : Option PathRef → Option PathRef → Bool := fun a b => pathCompare a b == .eq
  /-- Whether the tag of a path carries a filter. -/
  pathIsFilter : PathRef → Bool := fun _ => false
  /-- The mode of an analysis point. -/
  mode : PathApIndex → AnalysisMode
  /-- The name of a clock edge. -/
  edgeName : ClockEdgeId → String
  /-- The name of a pin. -/
  pinName : PinId → String
  /-- The pin of the vertex that holds a path. -/
  pathPin : PathRef → PinId

end PathIdentity
