import PathIdentity.Clock.Order
import PathIdentity.Proofs.Mix

/-!
# Equal clock contexts and their hashes

Equality and hash of clock contexts read the same keys (`ClockInfo.SameKeys`), with one exception:
while pessimism removal is active, equality asks the search context about whole clock paths, and the
hash takes their vertices. So equal clock contexts have the same hash if the search context relates
only paths with the same vertex, and otherwise some do not.

For the second part two clock contexts are made which differ in their clock paths alone. If both
have one, their words differ at one place. If one has none, the words have different lengths, and
the hashes could only meet at a word that is no vertex, since it does not fit in 32 bits.
-/

namespace PathIdentity

namespace ClockInfo

/-! ## Keys -/

/-- Agreement on all that the hash reads. -/
structure SameKeys (a b : ClockInfo) : Prop where
  edge : a.edge = b.edge
  source : a.source = b.source
  generatedSource : a.generatedSource = b.generatedSource
  vertex : a.crprHashed = true → a.crprVertex = b.crprVertex
  uncertainties : a.uncertaintyTicks = b.uncertaintyTicks
  latency : quantize a.latency = quantize b.latency
  insertion : quantize a.insertion = quantize b.insertion
  isPropagated : a.isPropagated = b.isPropagated
  isGeneratedSourcePath : a.isGeneratedSourcePath = b.isGeneratedSourcePath
  isPulse : a.isPulse = b.isPulse
  pulseIndex : a.pulseIndex = b.pulseIndex
  analysisPoint : a.analysisPoint = b.analysisPoint

theorem words_optionDouble (x : Option Double) : words x = words (x.map quantize) := by
  cases x <;> rfl

theorem words_uncertainties (u : ClockUncertainties) :
    words u = words u.ticks.min ++ words u.ticks.max := by
  show words u.min ++ words u.max = _
  rw [words_optionDouble, words_optionDouble]
  rfl

/-- The words of a clock context in terms of its ticks. -/
theorem words_eq_of_ticks (c : ClockInfo) :
    words c = words c.edge ++ words c.source ++ words c.generatedSource ++
      (if c.crprHashed then words c.crprVertex else []) ++
      (c.uncertaintyTicks.map fun t => words t.min ++ words t.max).getD [] ++
      words (quantize c.latency) ++ words (quantize c.insertion) ++ words c.isPropagated ++
      words c.isGeneratedSourcePath ++ words c.isPulse ++ words c.pulseIndex ++
      words c.analysisPoint := by
  obtain ⟨⟨edge, source, isPropagated, generatedSource, isGeneratedSourcePath, pulse, insertion,
    latency, uncertainties, analysisPoint, crprPath⟩, crprHashed⟩ := c
  cases uncertainties with
  | none => rfl
  | some u =>
    have hu := words_uncertainties u
    simp only [uncertaintyTicks, Option.map_some, Option.getD_some, ← hu]
    rfl

theorem SameKeys.words_eq {a b : ClockInfo} (h : a.SameKeys b)
    (hcrpr : a.crprHashed = b.crprHashed) : words a = words b := by
  have hvertex : (if a.crprHashed then words a.crprVertex else []) =
      if b.crprHashed then words b.crprVertex else [] := by
    rw [← hcrpr]
    split_ifs with hhashed
    · rw [h.vertex hhashed]
    · rfl
  rw [words_eq_of_ticks, words_eq_of_ticks, hvertex, h.edge, h.source, h.generatedSource,
    h.uncertainties, h.latency, h.insertion, h.isPropagated, h.isGeneratedSourcePath, h.isPulse,
    h.pulseIndex, h.analysisPoint]

/-! ## Equality -/

/-- Clock contexts are equal if both were made under the setting of the comparison, and agree. -/
theorem equal_eq_ok_true_iff {a b : ClockInfo} {ctx : SearchContext} :
    a.equal b ctx = .ok true ↔
      a.crprHashed = ctx.crprActive ∧ b.crprHashed = ctx.crprActive ∧ a.agrees b ctx = true := by
  unfold equal checkCrpr
  by_cases ha : a.crprHashed = ctx.crprActive <;> by_cases hb : b.crprHashed = ctx.crprActive <;>
    simp [ha, hb, bind, Except.bind, pure, Except.pure]

/-- Agreement is agreement on all keys, but for the clock path, about which the search context is
asked. -/
theorem sameKeys_of_agrees {a b : ClockInfo} {ctx : SearchContext} (h : a.agrees b ctx = true)
    (hpath : ctx.crprActive = true → ctx.pathEqual a.crprPath b.crprPath = true →
      a.crprVertex = b.crprVertex)
    (hcrpr : a.crprHashed = ctx.crprActive) : a.SameKeys b := by
  simp only [agrees, Bool.and_eq_true, beq_iff_eq, Bool.or_eq_true, Bool.not_eq_true'] at h
  obtain ⟨⟨⟨⟨⟨⟨⟨⟨⟨⟨⟨hedge, hpoint⟩, hsource⟩, hgenerated⟩, hcrprPath⟩, hticks⟩, hinsertion⟩,
    hlatency⟩, hpropagated⟩, hsourcePath⟩, hpulse⟩, hindex⟩ := h
  refine ⟨hedge, hsource, hgenerated, fun hhashed => ?_, hticks, hlatency, hinsertion, hpropagated,
    hsourcePath, hpulse, hindex, hpoint⟩
  have hactive : ctx.crprActive = true := hcrpr ▸ hhashed
  refine hpath hactive (hcrprPath.resolve_left ?_)
  rw [hactive]
  exact Bool.noConfusion

/-! ## Clock paths alone -/

/-- The parts of a propagated clock with nothing but a clock path. -/
def pathParts (path : Option PathRef) : ClockParts := { isPropagated := true, crprPath := path }

theorem equal_pathParts {ctx : SearchContext} {u v : Option PathRef}
    (h : ctx.pathEqual u v = true) :
    (ofParts (pathParts u) ctx).equal (ofParts (pathParts v) ctx) ctx = .ok true := by
  refine equal_eq_ok_true_iff.2 ⟨rfl, rfl, ?_⟩
  simp [agrees, ofParts, pathParts, h, isPulse, pulseIndex, uncertaintyTicks]

/-- Three absent fields come before the clock path. -/
theorem words_pathParts {ctx : SearchContext} (hactive : ctx.crprActive = true) :
    ∃ rest, ∀ path : Option PathRef, words (ofParts (pathParts path) ctx) =
      [0, 0, 0] ++ words (path.map (·.vertex)) ++ rest := by
  refine ⟨words Double.zero ++ words Double.zero ++ words true ++ words false ++ words false ++
    words (0 : UInt8) ++ words (⟨0⟩ : PathApIndex), fun path => ?_⟩
  have hticks : (ofParts (pathParts path) ctx).uncertaintyTicks = none := by
    simp [ofParts, pathParts, uncertaintyTicks]
  rw [words_eq_of_ticks, hticks]
  simp only [ofParts, hactive, List.append_assoc]
  rfl

/-- The running hash before the clock path. -/
def beforePath : UInt64 := mixAll hashStart [0, 0, 0]

/-- The hash of no vertex is met by one word only, which needs more than 32 bits. -/
theorem mixAll_none_ne_mixAll_some (v : VertexId) :
    mixAll beforePath (words (none : Option VertexId)) ≠ mixAll beforePath (words (some v)) := by
  intro h
  have h : mixWord beforePath 0 = mixWord (mixWord beforePath 1) v.number.toUInt64 := h
  have hmeet : swapHalves v.number.toUInt64 =
      swapHalves 0 ^^^ keyOfSeed beforePath ^^^ keyOfSeed (mixWord beforePath 1) := by
    have hkeys : swapHalves 0 ^^^ keyOfSeed beforePath =
        swapHalves v.number.toUInt64 ^^^ keyOfSeed (mixWord beforePath 1) := finishMix_injective h
    rw [hkeys, UInt64.xor_assoc, UInt64.xor_self, UInt64.xor_zero]
  have hword := congrArg UInt64.toNat (congrArg swapHalves hmeet)
  rw [swapHalves_involutive] at hword
  have hsmall : v.number.toUInt64.toNat < 2 ^ 32 := v.number.toNat_lt
  have hlarge : 2 ^ 32 ≤ (swapHalves (swapHalves 0 ^^^ keyOfSeed beforePath ^^^
      keyOfSeed (mixWord beforePath 1))).toNat := by
    decide
  omega

/-- Different vertices, one of them possibly absent, make different hashes. -/
theorem mixAll_vertex_injective {u v : Option VertexId}
    (h : mixAll beforePath (words u) = mixAll beforePath (words v)) : u = v := by
  cases u with
  | none =>
    cases v with
    | none => rfl
    | some v => exact absurd h (mixAll_none_ne_mixAll_some v)
  | some u =>
    cases v with
    | none => exact absurd h.symm (mixAll_none_ne_mixAll_some u)
    | some v =>
      have h : mixAll beforePath ([1] ++ u.number.toUInt64 :: []) =
          mixAll beforePath ([1] ++ v.number.toUInt64 :: []) := h
      have hnumber := congrArg UInt64.toNat ((mixAll_inj_at [1] []).1 h)
      obtain ⟨m⟩ := u
      obtain ⟨n⟩ := v
      rw [show m = n from UInt32.toNat_inj.1 hnumber]

theorem hash_pathParts_ne {ctx : SearchContext} (hactive : ctx.crprActive = true)
    {u v : Option PathRef} (h : u.map (·.vertex) ≠ v.map (·.vertex)) :
    (ofParts (pathParts u) ctx).hash ≠ (ofParts (pathParts v) ctx).hash := by
  obtain ⟨rest, hwords⟩ := words_pathParts hactive
  intro heq
  unfold hash mix at heq
  rw [hwords, hwords, mixAll_append, mixAll_append, mixAll_append, mixAll_append] at heq
  exact h (mixAll_vertex_injective (mixAll_injective_hash rest heq))

/-! ## Equality and hash -/

/-- (1) Clock contexts made under any search contexts have the same hash where a search context says
that they are equal, if it relates only clock paths with the same vertex, or pessimism removal is
off. (2) The condition is needed: where it fails, there are clock contexts that are equal and have
different hashes. -/
theorem hash_eq_of_equal :
    (∀ (A B C : SearchContext) (p q : ClockParts),
      (C.crprActive = true → ∀ u v, C.pathEqual u v = true → u.map (·.vertex) = v.map (·.vertex)) →
      (ofParts p A).equal (ofParts q B) C = .ok true →
        (ofParts p A).hash = (ofParts q B).hash) ∧
    ∀ C : SearchContext, C.crprActive = true → ∀ u v, C.pathEqual u v = true →
      u.map (·.vertex) ≠ v.map (·.vertex) →
        ∃ p q, (ofParts p C).equal (ofParts q C) C = .ok true ∧
          (ofParts p C).hash ≠ (ofParts q C).hash := by
  constructor
  · intro A B C p q hpath hequal
    obtain ⟨ha, hb, hagrees⟩ := equal_eq_ok_true_iff.1 hequal
    have hkeys := sameKeys_of_agrees hagrees (fun hactive => hpath hactive _ _) ha
    unfold hash mix
    rw [hkeys.words_eq (ha.trans hb.symm)]
  · intro C hactive u v hrelated hvertices
    exact ⟨pathParts u, pathParts v, equal_pathParts hrelated, hash_pathParts_ne hactive hvertices⟩

/-- A search context that relates the paths for which `related` holds. -/
def contextOf (related : Option PathRef → Option PathRef → Bool) : SearchContext where
  crprActive := true
  pathCompare := Ord.compare
  pathEqual := related
  mode _ := .min
  edgeName _ := ""
  pinName _ := ""
  pathPin path := ⟨path.vertex.number⟩

/-- Two paths on one vertex, with a latency that is not a number and one of zero, are equal and have
the same hash if vertices decide; if all paths are related, some are equal with different hashes. -/
theorem hash_eq_of_equal_one_vertex :
    (ofParts { pathParts (some ⟨⟨1⟩, 0⟩) with latency := ⟨0x7ff8000000000000⟩ }
        (contextOf fun u v => u.map (·.vertex) = v.map (·.vertex))).hash =
      (ofParts (pathParts (some ⟨⟨1⟩, 5⟩))
        (contextOf fun u v => u.map (·.vertex) = v.map (·.vertex))).hash ∧
    ∃ p q, (ofParts p (contextOf fun _ _ => true)).equal (ofParts q (contextOf fun _ _ => true))
        (contextOf fun _ _ => true) = .ok true ∧
      (ofParts p (contextOf fun _ _ => true)).hash ≠
        (ofParts q (contextOf fun _ _ => true)).hash := by
  constructor
  · refine hash_eq_of_equal.1 _ _ (contextOf fun u v => u.map (·.vertex) = v.map (·.vertex)) _ _
      (fun _ u v huv => of_decide_eq_true huv) (equal_eq_ok_true_iff.2 ⟨rfl, rfl, ?_⟩)
    decide +kernel
  · exact hash_eq_of_equal.2 _ rfl none (some ⟨⟨1⟩, 0⟩) rfl (by decide)

end ClockInfo

end PathIdentity
