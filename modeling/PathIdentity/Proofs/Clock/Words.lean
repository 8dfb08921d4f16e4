import PathIdentity.Proofs.Clock.Hash

/-!
# The words of a clock context determine its keys

The words of a clock context stand in one list without delimiters, and its fields take different
numbers of words: an option one or more, absent uncertainties none. Still the list determines all
keys (`ClockInfo.words_eq_iff_sameKeys`). The words of most fields can be read off the front of a
list (`PrefixCode`), up to the clock path. What follows the uncertainties has a fixed length
(`ClockInfo.length_lastWords`), so the length of the rest tells whether there are any, and then they
can be read off too.
-/

namespace PathIdentity

/-! ## Reading words off the front -/

/-- Types whose values can be read off the front of a list of words. -/
class PrefixCode (α : Type) [Words α] : Prop where
  split {a b : α} {xs ys : List UInt64} (h : words a ++ xs = words b ++ ys) : a = b ∧ xs = ys

namespace PrefixCode

theorem of_word {α : Type} [Words α] {word : α → UInt64} (hwords : ∀ a, words a = [word a])
    (hword : Function.Injective word) : PrefixCode α where
  split {a b xs ys} h := by
    rw [hwords, hwords, List.singleton_append, List.singleton_append, List.cons.injEq] at h
    exact ⟨hword h.1, h.2⟩

instance : PrefixCode Bool := by
  refine of_word (fun _ => rfl) fun a b h => ?_
  cases a <;> cases b <;> first | rfl | cases h

instance : PrefixCode UInt8 :=
  of_word (fun _ => rfl) fun _ _ h => UInt8.toNat_inj.1 (congrArg UInt64.toNat h)

instance : PrefixCode UInt32 :=
  of_word (fun _ => rfl) fun _ _ h => UInt32.toNat_inj.1 (congrArg UInt64.toNat h)

instance : PrefixCode Int64 :=
  of_word (fun _ => rfl) fun _ _ h => Int64.toBitVec.inj (congrArg UInt64.toBitVec h)

instance {kind : IdKind} : PrefixCode (Id kind) where
  split {a b xs ys} h := by
    obtain ⟨m⟩ := a
    obtain ⟨n⟩ := b
    obtain ⟨hnumber, hrest⟩ : m = n ∧ xs = ys := split h
    exact ⟨congrArg Id.mk hnumber, hrest⟩

/-- The presence word comes first, and what follows it is read only if there is a value. -/
instance {α : Type} [Words α] [PrefixCode α] : PrefixCode (Option α) where
  split {a b xs ys} h := by
    cases a with
    | none =>
      cases b with
      | none => exact ⟨rfl, (List.cons.inj h).2⟩
      | some b => exact absurd (List.cons.inj h).1 (by decide)
    | some a =>
      cases b with
      | none => exact absurd (List.cons.inj h).1 (by decide)
      | some b =>
        obtain ⟨rfl, hrest⟩ := split (List.cons.inj h).2
        exact ⟨rfl, hrest⟩

end PrefixCode

namespace ClockInfo

/-! ## Three parts of the words -/

/-- The words up to the clock path. -/
def firstWords (c : ClockInfo) : List UInt64 :=
  words c.edge ++ words c.source ++ words c.generatedSource ++
    if c.crprHashed then words c.crprVertex else []

/-- The words of the uncertainties. -/
def uncertaintyWords (c : ClockInfo) : List UInt64 :=
  (c.uncertaintyTicks.map fun t => words t.min ++ words t.max).getD []

/-- The words after the uncertainties. -/
def lastWords (c : ClockInfo) : List UInt64 :=
  words (quantize c.latency) ++ words (quantize c.insertion) ++ words c.isPropagated ++
    words c.isGeneratedSourcePath ++ words c.isPulse ++ words c.pulseIndex ++ words c.analysisPoint

theorem words_eq_append (c : ClockInfo) :
    words c = c.firstWords ++ (c.uncertaintyWords ++ c.lastWords) := by
  rw [words_eq_of_ticks]
  simp only [firstWords, uncertaintyWords, lastWords, List.append_assoc]

@[simp] theorem length_lastWords (c : ClockInfo) : c.lastWords.length = 7 := rfl

theorem firstWords_split {a b : ClockInfo} (hcrpr : a.crprHashed = b.crprHashed)
    {xs ys : List UInt64} (h : a.firstWords ++ xs = b.firstWords ++ ys) :
    a.edge = b.edge ∧ a.source = b.source ∧ a.generatedSource = b.generatedSource ∧
      (a.crprHashed = true → a.crprVertex = b.crprVertex) ∧ xs = ys := by
  simp only [firstWords, List.append_assoc] at h
  obtain ⟨hedge, h⟩ := PrefixCode.split h
  obtain ⟨hsource, h⟩ := PrefixCode.split h
  obtain ⟨hgenerated, h⟩ := PrefixCode.split h
  refine ⟨hedge, hsource, hgenerated, ?_⟩
  rw [← hcrpr] at h
  split_ifs at h with hhashed
  · obtain ⟨hvertex, h⟩ := PrefixCode.split h
    exact ⟨fun _ => hvertex, h⟩
  · exact ⟨fun hactive => absurd hactive hhashed, h⟩

theorem lastWords_inj {a b : ClockInfo} (h : a.lastWords = b.lastWords) :
    quantize a.latency = quantize b.latency ∧ quantize a.insertion = quantize b.insertion ∧
      a.isPropagated = b.isPropagated ∧ a.isGeneratedSourcePath = b.isGeneratedSourcePath ∧
      a.isPulse = b.isPulse ∧ a.pulseIndex = b.pulseIndex ∧ a.analysisPoint = b.analysisPoint := by
  rw [← List.append_nil a.lastWords, ← List.append_nil b.lastWords] at h
  simp only [lastWords, List.append_assoc] at h
  obtain ⟨hlatency, h⟩ := PrefixCode.split h
  obtain ⟨hinsertion, h⟩ := PrefixCode.split h
  obtain ⟨hpropagated, h⟩ := PrefixCode.split h
  obtain ⟨hsourcePath, h⟩ := PrefixCode.split h
  obtain ⟨hpulse, h⟩ := PrefixCode.split h
  obtain ⟨hindex, h⟩ := PrefixCode.split h
  exact ⟨hlatency, hinsertion, hpropagated, hsourcePath, hpulse, hindex, (PrefixCode.split h).1⟩

theorem uncertaintyWords_eq_nil_iff {c : ClockInfo} :
    c.uncertaintyWords = [] ↔ c.uncertaintyTicks = none := by
  unfold uncertaintyWords
  cases c.uncertaintyTicks with
  | none => simp
  | some t =>
    obtain ⟨min, max⟩ := t
    cases min <;> simp [words]

/-- As the last words have one length, the rest is as long as the words of the uncertainties, of
which absent ones have none; those of present ones are read off the front. -/
theorem uncertaintyWords_split {a b : ClockInfo}
    (h : a.uncertaintyWords ++ a.lastWords = b.uncertaintyWords ++ b.lastWords) :
    a.uncertaintyTicks = b.uncertaintyTicks ∧ a.lastWords = b.lastWords := by
  have hlength : a.uncertaintyWords.length = b.uncertaintyWords.length := by
    have := congrArg List.length h
    simp only [List.length_append, length_lastWords] at this
    omega
  have hnone : a.uncertaintyTicks = none ↔ b.uncertaintyTicks = none := by
    rw [← uncertaintyWords_eq_nil_iff, ← uncertaintyWords_eq_nil_iff, ← List.length_eq_zero_iff,
      hlength, List.length_eq_zero_iff]
  refine ⟨?_, (List.append_inj h hlength).2⟩
  cases ha : a.uncertaintyTicks with
  | none => exact (hnone.1 ha).symm
  | some t =>
    cases hb : b.uncertaintyTicks with
    | none => exact absurd (hnone.2 hb) (by rw [ha]; exact Option.some_ne_none t)
    | some u =>
      simp only [uncertaintyWords, ha, hb, Option.map_some, Option.getD_some,
        List.append_assoc] at h
      obtain ⟨hmin, h⟩ := PrefixCode.split h
      obtain ⟨hmax, -⟩ := PrefixCode.split h
      obtain ⟨min, max⟩ := t
      obtain ⟨min', max'⟩ := u
      rw [show min = min' from hmin, show max = max' from hmax]

theorem sameKeys_of_words_eq {a b : ClockInfo} (hcrpr : a.crprHashed = b.crprHashed)
    (h : words a = words b) : a.SameKeys b := by
  rw [words_eq_append, words_eq_append] at h
  obtain ⟨hedge, hsource, hgenerated, hvertex, h⟩ := firstWords_split hcrpr h
  obtain ⟨huncertainty, h⟩ := uncertaintyWords_split h
  obtain ⟨hlatency, hinsertion, hpropagated, hsourcePath, hpulse, hindex, hpoint⟩ := lastWords_inj h
  exact ⟨hedge, hsource, hgenerated, hvertex, huncertainty, hlatency, hinsertion, hpropagated,
    hsourcePath, hpulse, hindex, hpoint⟩

/-! ## Words and equality -/

/-- Agreement follows from the keys that the hash reads, if vertices decide about clock paths. -/
theorem SameKeys.agrees {a b : ClockInfo} {ctx : SearchContext} (h : a.SameKeys b)
    (hcrpr : a.crprHashed = ctx.crprActive)
    (hpath : ∀ u v, u.map PathRef.vertex = v.map PathRef.vertex → ctx.pathEqual u v = true) :
    a.agrees b ctx = true := by
  simp only [ClockInfo.agrees, Bool.and_eq_true, beq_iff_eq, Bool.or_eq_true, Bool.not_eq_true']
  refine ⟨⟨⟨⟨⟨⟨⟨⟨⟨⟨⟨h.edge, h.analysisPoint⟩, h.source⟩, h.generatedSource⟩, ?_⟩, h.uncertainties⟩,
    h.insertion⟩, h.latency⟩, h.isPropagated⟩, h.isGeneratedSourcePath⟩, h.isPulse⟩, h.pulseIndex⟩
  cases hactive : ctx.crprActive with
  | false => exact Or.inl rfl
  | true => exact Or.inr (hpath _ _ (h.vertex (hcrpr.trans hactive)))

/-- The hash of a clock context is the mixer folded over its words. Clock contexts that were made
under one setting of pessimism removal have the same words exactly if they agree on all that the
hash reads; and where a search context of that setting relates just the paths with the same vertex,
exactly if they are equal. -/
theorem words_eq_iff_sameKeys {a b : ClockInfo} (hcrpr : a.crprHashed = b.crprHashed) :
    (a.hash = (words a).foldl mixWord hashStart ∧ b.hash = (words b).foldl mixWord hashStart) ∧
    (words a = words b ↔ a.SameKeys b) ∧
    ∀ ctx : SearchContext, a.crprHashed = ctx.crprActive →
      (∀ u v, ctx.pathEqual u v = true ↔ u.map PathRef.vertex = v.map PathRef.vertex) →
        (a.equal b ctx = .ok true ↔ words a = words b) := by
  have hiff : words a = words b ↔ a.SameKeys b :=
    ⟨sameKeys_of_words_eq hcrpr, fun h => h.words_eq hcrpr⟩
  refine ⟨⟨rfl, rfl⟩, hiff, fun ctx hctx hpath => ?_⟩
  rw [hiff, equal_eq_ok_true_iff]
  constructor
  · rintro ⟨-, -, hagrees⟩
    exact sameKeys_of_agrees hagrees (fun _ hrelated => (hpath _ _).1 hrelated) hctx
  · intro hkeys
    exact ⟨hctx, hcrpr.symm.trans hctx, hkeys.agrees hctx fun u v => (hpath u v).2⟩

/-- The clock context of a path on vertex 1 with uncertainties, where vertices decide. -/
def uncertain (tagIndex : UInt32) (uncertainties : Option ClockUncertainties) : ClockInfo :=
  ofParts { pathParts (some ⟨⟨1⟩, tagIndex⟩) with uncertainties }
    (contextOf fun u v => u.map PathRef.vertex = v.map PathRef.vertex)

/-- Uncertainties of zero and of a thousandth of a tick give the same words, no uncertainties and
two absent ones do not. -/
theorem words_eq_iff_sameKeys_uncertain :
    words (uncertain 0 (some ⟨some .zero, none⟩)) =
        words (uncertain 5 (some ⟨some ⟨0x3cd203af9ee75616⟩, none⟩)) ∧
      words (uncertain 0 none) ≠ words (uncertain 0 (some ⟨none, none⟩)) := by
  have hcrpr (m n : UInt32) (u v : Option ClockUncertainties) :
      (uncertain m u).crprHashed = (uncertain n v).crprHashed := rfl
  constructor
  · have hequal : (uncertain 0 (some ⟨some .zero, none⟩)).equal
        (uncertain 5 (some ⟨some ⟨0x3cd203af9ee75616⟩, none⟩))
        (contextOf fun u v => u.map PathRef.vertex = v.map PathRef.vertex) = .ok true :=
      equal_eq_ok_true_iff.2 ⟨rfl, rfl, by decide +kernel⟩
    exact ((words_eq_iff_sameKeys (hcrpr _ _ _ _)).2.2 _ rfl fun _ _ => decide_eq_true_iff).1 hequal
  · intro h
    have hkeys := (words_eq_iff_sameKeys (hcrpr _ _ _ _)).2.1.1 h
    exact absurd hkeys.uncertainties (Option.some_ne_none _).symm

end ClockInfo

end PathIdentity
