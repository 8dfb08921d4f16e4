import PathIdentity.Clock.Info

/-!
# Equality and order of clock contexts

Clock contexts are compared under a search context, which says whether clock paths count and how
they compare. All times count at the resolution of ticks. `ClockInfo.equal` and `ClockInfo.compare`
look at the same keys; the order takes them one after the other.

Both refuse, as a `CrprMismatch`, a clock context that was made under the other setting of
pessimism removal.
-/

namespace PathIdentity

/-- A clock context was made under the other setting of pessimism removal. -/
structure CrprMismatch where
  /-- The setting under which the clock context was made. -/
  hashed : Bool
  /-- The setting of the comparison. -/
  active : Bool
deriving DecidableEq

/-- The text of a mismatch. -/
def CrprMismatch.message (m : CrprMismatch) : String :=
  "assertion `left == right` failed: ClkInfo hashed under a different CRPR setting than the " ++
    "comparison context\n  left: " ++ toString m.hashed ++ "\n right: " ++ toString m.active

namespace ClockInfo

/-- Refuses a clock context made under the other setting of pessimism removal. -/
def checkCrpr (c : ClockInfo) (ctx : SearchContext) : Except CrprMismatch Unit :=
  if c.crprHashed = ctx.crprActive then .ok () else .error ⟨c.crprHashed, ctx.crprActive⟩

/-- Whether all keys agree. -/
def agrees (a b : ClockInfo) (ctx : SearchContext) : Bool :=
  a.edge == b.edge && a.analysisPoint == b.analysisPoint && a.source == b.source &&
  a.generatedSource == b.generatedSource &&
  (!ctx.crprActive || ctx.pathEqual a.crprPath b.crprPath) &&
  a.uncertaintyTicks == b.uncertaintyTicks &&
  quantize a.insertion == quantize b.insertion && quantize a.latency == quantize b.latency &&
  a.isPropagated == b.isPropagated && a.isGeneratedSourcePath == b.isGeneratedSourcePath &&
  a.isPulse == b.isPulse && a.pulseIndex == b.pulseIndex

/-- The order by all keys: the clock edge, with no clock first, the analysis point, the source pin,
the source pin of a generated clock, the clock path if it counts, uncertainties, insertion, latency,
and then the three flags and the sense of a pulse. -/
def ordering (a b : ClockInfo) (ctx : SearchContext) : Ordering :=
  (Ord.compare a.edge b.edge).then <|
  (Ord.compare a.analysisPoint b.analysisPoint).then <|
  (Ord.compare a.source b.source).then <|
  (Ord.compare a.generatedSource b.generatedSource).then <|
  (if ctx.crprActive then ctx.pathCompare a.crprPath b.crprPath else .eq).then <|
  (Ord.compare a.uncertaintyTicks b.uncertaintyTicks).then <|
  (Ord.compare (quantize a.insertion) (quantize b.insertion)).then <|
  (Ord.compare (quantize a.latency) (quantize b.latency)).then <|
  (Ord.compare a.isPropagated b.isPropagated).then <|
  (Ord.compare a.isGeneratedSourcePath b.isGeneratedSourcePath).then <|
  (Ord.compare a.isPulse b.isPulse).then <|
  Ord.compare a.pulseIndex b.pulseIndex

/-- Equality under a search context. -/
def equal (a b : ClockInfo) (ctx : SearchContext) : Except CrprMismatch Bool := do
  a.checkCrpr ctx
  b.checkCrpr ctx
  return a.agrees b ctx

/-- Order under a search context. -/
def compare (a b : ClockInfo) (ctx : SearchContext) : Except CrprMismatch Ordering := do
  a.checkCrpr ctx
  b.checkCrpr ctx
  return a.ordering b ctx

/-- Numbered clock contexts in ascending order; those that compare equal keep their places. A single
one is not compared, so its setting of pessimism removal does not matter. -/
def sort {κ : Type} (infos : List (κ × ClockInfo)) (ctx : SearchContext) :
    Except CrprMismatch (List (κ × ClockInfo)) := do
  if 1 < infos.length then infos.forM fun c => c.2.checkCrpr ctx
  return infos.mergeSort fun a b => (a.2.ordering b.2 ctx).isLE

end ClockInfo

end PathIdentity
