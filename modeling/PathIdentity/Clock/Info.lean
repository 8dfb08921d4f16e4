import PathIdentity.Clock.Context
import PathIdentity.Clock.Uncertainty

/-!
# Clock contexts of paths

A `ClockInfo` says which clock edge launched a path, where the clock came in, how its latency was
found and to which analysis point the path belongs. It is made from `ClockParts` under a search
context (`ClockInfo.ofParts`), which leaves out what is switched off: the clock path of a clock that
is not propagated, and uncertainties where the context has none.

`ClockInfo.words` are the words of its hash. Times take part at the resolution of ticks, and the
clock path by its vertex only, and only if pessimism removal was on.
-/

namespace PathIdentity

/-- What a clock context is made from. -/
structure ClockParts where
  /-- The edge that launched the path; none for a path without a clock. -/
  edge : Option ClockEdgeId := none
  /-- The pin where the clock is defined. -/
  source : Option PinId := none
  /-- Whether the latency is propagated rather than ideal. -/
  isPropagated : Bool := false
  /-- The source pin of a generated clock. -/
  generatedSource : Option PinId := none
  /-- Whether the path is the source path of a generated clock. -/
  isGeneratedSourcePath : Bool := false
  /-- The active sense of a pulse clock; none for other clocks. -/
  pulse : Option Transition := none
  /-- The insertion delay in seconds. -/
  insertion : Double := .zero
  /-- The latency in seconds. -/
  latency : Double := .zero
  uncertainties : Option ClockUncertainties := none
  /-- The analysis point of the path. -/
  analysisPoint : PathApIndex := ⟨0⟩
  /-- The clock path that pessimism removal follows. -/
  crprPath : Option PathRef := none

/-- The clock context of a path. -/
structure ClockInfo extends ClockParts where
  /-- Whether pessimism removal was on when the context was made. -/
  crprHashed : Bool

namespace ClockInfo

/-- The clock context of some parts under a search context. -/
def ofParts (parts : ClockParts) (ctx : SearchContext) : ClockInfo :=
  { parts with
    crprPath := if parts.isPropagated then parts.crprPath else none
    uncertainties := if ctx.uncertaintyEnabled then parts.uncertainties else none
    crprHashed := ctx.crprActive }

/-- Whether the clock is a pulse clock. -/
def isPulse (c : ClockInfo) : Bool := c.pulse.isSome

/-- The index of the sense of a pulse clock, zero for other clocks. -/
def pulseIndex (c : ClockInfo) : UInt8 := (c.pulse.map Transition.index).getD 0

/-- The vertex of the clock path. -/
def crprVertex (c : ClockInfo) : Option VertexId := c.crprPath.map (·.vertex)

/-- The uncertainties at the resolution of identity. -/
def uncertaintyTicks (c : ClockInfo) : Option UncertaintyTicks :=
  c.uncertainties.map ClockUncertainties.ticks

/-- The words of a clock context. Absent uncertainties give no word, unlike every other absent
field. -/
instance : Words ClockInfo where
  words c :=
    words c.edge ++ words c.source ++ words c.generatedSource ++
    (if c.crprHashed then words c.crprVertex else []) ++
    (match c.uncertainties with
      | some u => words u
      | none => []) ++
    words c.latency ++ words c.insertion ++ words c.isPropagated ++
    words c.isGeneratedSourcePath ++ words c.isPulse ++ words c.pulseIndex ++
    words c.analysisPoint

/-- The hash of a clock context. -/
def hash (c : ClockInfo) : UInt64 := mix hashStart c

/-- Whether the clock path carries a filter. -/
def refsFilter (c : ClockInfo) (ctx : SearchContext) : Bool := c.crprPath.any ctx.pathIsFilter

/-- A one-line description. -/
def describe (c : ClockInfo) (ctx : SearchContext) : String :=
  let point := Enumerated.name (ctx.mode c.analysisPoint) ++ "/" ++
    toString c.analysisPoint.number.toNat
  let edge := (c.edge.map ctx.edgeName).getD "unclocked"
  let source := (c.source.map fun pin => " clk_src " ++ ctx.pinName pin).getD ""
  let path := (c.crprPath.map fun path => " crpr_pin " ++ ctx.pinName (ctx.pathPin path)).getD ""
  point ++ " " ++ edge ++ source ++ path ++ if c.isGeneratedSourcePath then " genclk" else ""

end ClockInfo

end PathIdentity
