import PathIdentity.Proofs.Clock.Hash

/-!
# What is switched off stays out of identity

A clock context is made from parts under a search context, and three things about the parts cannot
be told from it by its hash or by any comparison: the clock path, unless the clock is propagated and
pessimism removal is active; the uncertainties, unless the search context has them; and what a time
is below the resolution of ticks. `ClockParts.AlikeUnder` relates parts that differ in no more.

Clock contexts of such parts are `ClockInfo.Indistinct`: they agree on the keys of the hash, on the
setting of pessimism removal, and on whole clock paths if it is active. A comparison checks that
setting before it asks about clock paths, so it cannot tell them apart, whatever the search context
of the comparison says about paths (`ClockInfo.Indistinct.equal_congr`, `compare_congr`).
-/

namespace PathIdentity

/-- Parts that differ at most in what a search context switches off, and below ticks. -/
structure ClockParts.AlikeUnder (ctx : SearchContext) (p q : ClockParts) : Prop where
  edge : p.edge = q.edge
  source : p.source = q.source
  isPropagated : p.isPropagated = q.isPropagated
  generatedSource : p.generatedSource = q.generatedSource
  isGeneratedSourcePath : p.isGeneratedSourcePath = q.isGeneratedSourcePath
  pulse : p.pulse = q.pulse
  insertion : quantize p.insertion = quantize q.insertion
  latency : quantize p.latency = quantize q.latency
  /-- Uncertainties are present in both or absent in both, and so is each of the two. -/
  uncertainties : ctx.uncertaintyEnabled = true →
    p.uncertainties.map ClockUncertainties.ticks = q.uncertainties.map ClockUncertainties.ticks
  analysisPoint : p.analysisPoint = q.analysisPoint
  crprPath : p.isPropagated = true → ctx.crprActive = true → p.crprPath = q.crprPath

namespace ClockInfo

/-! ## Indistinct clock contexts -/

/-- Agreement on all that the hash and the comparisons read. -/
structure Indistinct (a b : ClockInfo) : Prop where
  keys : a.SameKeys b
  crprHashed : a.crprHashed = b.crprHashed
  crprPath : a.crprHashed = true → a.crprPath = b.crprPath

theorem Indistinct.refl (a : ClockInfo) : a.Indistinct a :=
  ⟨⟨rfl, rfl, rfl, fun _ => rfl, rfl, rfl, rfl, rfl, rfl, rfl, rfl, rfl⟩, rfl, fun _ => rfl⟩

/-- What is switched off is left out when the clock context is made, except for the clock path of a
propagated clock, which only counts while pessimism removal is active. -/
theorem indistinct_ofParts {ctx : SearchContext} {p q : ClockParts} (h : p.AlikeUnder ctx q) :
    (ofParts p ctx).Indistinct (ofParts q ctx) := by
  have hpath : ctx.crprActive = true → (ofParts p ctx).crprPath = (ofParts q ctx).crprPath := by
    intro hactive
    simp only [ofParts, ← h.isPropagated]
    split_ifs with hpropagated
    · exact h.crprPath hpropagated hactive
    · rfl
  have hticks : (ofParts p ctx).uncertaintyTicks = (ofParts q ctx).uncertaintyTicks := by
    simp only [uncertaintyTicks, ofParts]
    split_ifs with henabled
    · exact h.uncertainties henabled
    · rfl
  refine ⟨⟨h.edge, h.source, h.generatedSource, fun hactive => ?_, hticks, h.latency, h.insertion,
    h.isPropagated, h.isGeneratedSourcePath, ?_, ?_, h.analysisPoint⟩, rfl, hpath⟩
  · exact congrArg (Option.map PathRef.vertex) (hpath hactive)
  · exact congrArg Option.isSome h.pulse
  · exact congrArg (fun pulse => (pulse.map Transition.index).getD 0) h.pulse

theorem Indistinct.hash_eq {a b : ClockInfo} (h : a.Indistinct b) : a.hash = b.hash := by
  unfold hash mix
  rw [h.keys.words_eq h.crprHashed]

/-! ## Comparisons -/

section Congruence

variable {a a' b b' : ClockInfo} {ctx : SearchContext}

/-- Where both clock contexts pass the checks, they can be exchanged for indistinct ones. -/
theorem Indistinct.congr (ha : a.Indistinct a') (hb : b.Indistinct b')
    (hacrpr : a.crprHashed = ctx.crprActive) (hbcrpr : b.crprHashed = ctx.crprActive) :
    a.agrees b ctx = a'.agrees b' ctx ∧ a.ordering b ctx = a'.ordering b' ctx := by
  have hpaths : ctx.crprActive = true → a.crprPath = a'.crprPath ∧ b.crprPath = b'.crprPath :=
    fun hactive => ⟨ha.crprPath (hacrpr.trans hactive), hb.crprPath (hbcrpr.trans hactive)⟩
  have hequal : (!ctx.crprActive || ctx.pathEqual a.crprPath b.crprPath) =
      (!ctx.crprActive || ctx.pathEqual a'.crprPath b'.crprPath) := by
    cases hactive : ctx.crprActive with
    | false => rfl
    | true => rw [(hpaths hactive).1, (hpaths hactive).2]
  have hcompare : (if ctx.crprActive then ctx.pathCompare a.crprPath b.crprPath else .eq) =
      if ctx.crprActive then ctx.pathCompare a'.crprPath b'.crprPath else .eq := by
    split_ifs with hactive
    · rw [(hpaths hactive).1, (hpaths hactive).2]
    · rfl
  simp only [agrees, ordering, hequal, hcompare, ha.keys.edge, ha.keys.analysisPoint,
    ha.keys.source, ha.keys.generatedSource, ha.keys.uncertainties, ha.keys.insertion,
    ha.keys.latency, ha.keys.isPropagated, ha.keys.isGeneratedSourcePath, ha.keys.isPulse,
    ha.keys.pulseIndex, hb.keys.edge, hb.keys.analysisPoint, hb.keys.source,
    hb.keys.generatedSource, hb.keys.uncertainties, hb.keys.insertion, hb.keys.latency,
    hb.keys.isPropagated, hb.keys.isGeneratedSourcePath, hb.keys.isPulse, hb.keys.pulseIndex,
    and_self]

/-- Both checks come before a result, and give the same refusals for the same settings. -/
theorem check_congr {α : Type} {x y : α} (ha : a.crprHashed = a'.crprHashed)
    (hb : b.crprHashed = b'.crprHashed)
    (hxy : a.crprHashed = ctx.crprActive → b.crprHashed = ctx.crprActive → x = y) :
    (do a.checkCrpr ctx; b.checkCrpr ctx; return x : Except CrprMismatch α) =
      (do a'.checkCrpr ctx; b'.checkCrpr ctx; return y) := by
  simp only [checkCrpr, ← ha, ← hb]
  split_ifs with hacrpr hbcrpr
  · rw [hxy hacrpr hbcrpr]
  · rfl
  · rfl
  · rfl

theorem Indistinct.equal_congr (ha : a.Indistinct a') (hb : b.Indistinct b') :
    a.equal b ctx = a'.equal b' ctx :=
  check_congr ha.crprHashed hb.crprHashed fun hacrpr hbcrpr => (ha.congr hb hacrpr hbcrpr).1

theorem Indistinct.compare_congr (ha : a.Indistinct a') (hb : b.Indistinct b') :
    a.compare b ctx = a'.compare b' ctx :=
  check_congr ha.crprHashed hb.crprHashed fun hacrpr hbcrpr => (ha.congr hb hacrpr hbcrpr).2

end Congruence

/-! ## Noninterference -/

/-- Clock contexts made under one search context from parts that differ only in what it switches
off, and below ticks, have the same hash. Against any third clock context, made under any search
context, and under any search context of the comparison, whatever it says about paths, both
comparisons have the same outcome for them on either side: the same answer, or the same refusal. -/
theorem switchedOff_unobservable {A : SearchContext} {p q : ClockParts} (h : p.AlikeUnder A q) :
    (ofParts p A).hash = (ofParts q A).hash ∧
      ∀ (c : ClockInfo) (C : SearchContext),
        (ofParts p A).equal c C = (ofParts q A).equal c C ∧
        c.equal (ofParts p A) C = c.equal (ofParts q A) C ∧
        (ofParts p A).compare c C = (ofParts q A).compare c C ∧
        c.compare (ofParts p A) C = c.compare (ofParts q A) C := by
  have hinfos := indistinct_ofParts h
  refine ⟨hinfos.hash_eq, fun c C => ⟨?_, ?_, ?_, ?_⟩⟩
  · exact hinfos.equal_congr (.refl c)
  · exact (Indistinct.refl c).equal_congr hinfos
  · exact hinfos.compare_congr (.refl c)
  · exact (Indistinct.refl c).compare_congr hinfos

/-- A search context without uncertainties, where clock paths count. -/
def certain : SearchContext :=
  { contextOf (fun u v => u == v) with uncertaintyEnabled := false }

/-- An ideal clock with a clock path, uncertainties, and times that are almost none. -/
def noisyParts : ClockParts where
  crprPath := some ⟨⟨7⟩, 2⟩
  uncertainties := some ⟨some ⟨0x3ff0000000000000⟩, none⟩
  insertion := ⟨0x3cd203af9ee75616⟩
  latency := ⟨0x7ff8000000000000⟩

/-- The ideal clock with nothing at all is the same to every comparison, also one that refuses. -/
theorem switchedOff_unobservable_noisy :
    noisyParts.AlikeUnder certain {} ∧ (ofParts noisyParts certain).hash =
        (ofParts {} certain).hash ∧
      (ofParts noisyParts certain).equal (ofParts {} certain) certain =
        (ofParts {} certain).equal (ofParts {} certain) certain ∧
      (ofParts noisyParts certain).compare (ofParts (pathParts none) certain)
          { certain with crprActive := false } = .error ⟨true, false⟩ := by
  have halike : noisyParts.AlikeUnder certain {} := by
    refine ⟨rfl, rfl, rfl, rfl, rfl, rfl, ?_, ?_, fun h => ?_, rfl, fun h => ?_⟩
    · decide +kernel
    · decide +kernel
    · cases h
    · cases h
  obtain ⟨hhash, hsame⟩ := switchedOff_unobservable halike
  exact ⟨halike, hhash, (hsame _ certain).1, (hsame _ _).2.2.1⟩

end ClockInfo

end PathIdentity
