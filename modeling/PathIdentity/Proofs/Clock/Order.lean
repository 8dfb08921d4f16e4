import PathIdentity.Proofs.Clock.Hash

/-!
# The order of clock contexts

`ClockInfo.ordering` goes through twelve keys, one of which belongs to the search context: while
pessimism removal is active, clock paths compare as `SearchContext.comparePaths` says. Written as
one lexicographic comparison of keys (`ClockInfo.ordering_eq_compareLex`), it is a total preorder as
soon as that key is one, since all others are total orders; times are compared by their ticks, so a
time that is not a number is like any other. It says `.eq` exactly where all keys agree, so equality
is the equivalence that belongs to the preorder.

`equal` and `compare` refuse the same pairs: those with a clock context that was made under the
other setting (`ClockInfo.check_eq_error_iff`).
-/

namespace PathIdentity

open Std (TransCmp TransOrd LawfulEqOrd)

/-! ## Keys -/

namespace Id

variable {kind : IdKind}

instance : TransOrd (Id kind) := inferInstanceAs (TransCmp (compareOn Id.number))

instance : LawfulEqOrd (Id kind) where
  compare_self {a} := (Std.ReflCmp.compare_self : compare a.number a.number = .eq)
  eq_of_compare {a b} h := by
    have hnumber : a.number = b.number := Std.LawfulEqOrd.eq_of_compare h
    cases a
    cases b
    cases hnumber
    rfl

end Id

namespace UncertaintyTicks

theorem compare_eq_compareLex : (compare : UncertaintyTicks → UncertaintyTicks → Ordering) =
    compareLex (compareOn (·.min)) (compareOn (·.max)) := rfl

instance : TransOrd UncertaintyTicks := by
  rw [TransOrd, compare_eq_compareLex]
  infer_instance

instance : LawfulEqOrd UncertaintyTicks where
  compare_self := Std.ReflCmp.compare_self
  eq_of_compare {a b} h := by
    rw [compare_eq_compareLex, compareLex_eq_eq] at h
    obtain ⟨hmin, hmax⟩ := h
    have hmin : a.min = b.min := LawfulEqOrd.eq_of_compare hmin
    have hmax : a.max = b.max := LawfulEqOrd.eq_of_compare hmax
    cases a
    cases b
    cases hmin
    cases hmax
    rfl

end UncertaintyTicks

instance : TransOrd PathRef :=
  inferInstanceAs (TransCmp (compareLex (compareOn PathRef.vertex) (compareOn PathRef.tagIndex)))

instance : LawfulEqOrd PathRef where
  compare_self := Std.ReflCmp.compare_self
  eq_of_compare {a b} h := by
    obtain ⟨hvertex, htag⟩ := Ordering.then_eq_eq.1 h
    have hvertex : a.vertex = b.vertex := LawfulEqOrd.eq_of_compare hvertex
    have htag : a.tagIndex = b.tagIndex := LawfulEqOrd.eq_of_compare htag
    cases a
    cases b
    cases hvertex
    cases htag
    rfl

namespace SearchContext

/-- The order of clock paths as far as they count. -/
def comparePaths (ctx : SearchContext) (u v : Option PathRef) : Ordering :=
  if ctx.crprActive then ctx.pathCompare u v else .eq

theorem transCmp_comparePaths {ctx : SearchContext}
    (h : ctx.crprActive = true → TransCmp ctx.pathCompare) : TransCmp ctx.comparePaths := by
  cases hactive : ctx.crprActive with
  | true =>
    have heq : ctx.comparePaths = ctx.pathCompare := by
      funext u v
      simp [comparePaths, hactive]
    rw [heq]
    exact h hactive
  | false =>
    have heq : ctx.comparePaths = fun _ _ => .eq := by
      funext u v
      simp [comparePaths, hactive]
    rw [heq]
    exact { eq_swap := rfl, isLE_trans := fun _ _ => rfl }

theorem comparePaths_eq_iff {ctx : SearchContext}
    (h : ctx.crprActive = true → ∀ u v, ctx.pathEqual u v = true ↔ ctx.pathCompare u v = .eq)
    (u v : Option PathRef) :
    ctx.comparePaths u v = .eq ↔ (!ctx.crprActive || ctx.pathEqual u v) = true := by
  unfold comparePaths
  cases hactive : ctx.crprActive with
  | true => simp [h hactive]
  | false => simp

end SearchContext

namespace ClockInfo

/-! ## The order of agreeing keys -/

/-- The order of clock contexts as one lexicographic comparison. -/
theorem ordering_eq_compareLex (ctx : SearchContext) : (fun a b => ordering a b ctx) =
    compareLex (compareOn fun c : ClockInfo => c.edge) (
    compareLex (compareOn fun c => c.analysisPoint) (
    compareLex (compareOn fun c => c.source) (
    compareLex (compareOn fun c => c.generatedSource) (
    compareLex (fun a b => ctx.comparePaths a.crprPath b.crprPath) (
    compareLex (compareOn fun c => c.uncertaintyTicks) (
    compareLex (compareOn fun c => quantize c.insertion) (
    compareLex (compareOn fun c => quantize c.latency) (
    compareLex (compareOn fun c => c.isPropagated) (
    compareLex (compareOn fun c => c.isGeneratedSourcePath) (
    compareLex (compareOn fun c => c.isPulse) (compareOn fun c => c.pulseIndex))))))))))) := rfl

theorem transCmp_ordering {ctx : SearchContext}
    (h : ctx.crprActive = true → TransCmp ctx.pathCompare) :
    TransCmp fun a b => ordering a b ctx := by
  have hpaths := SearchContext.transCmp_comparePaths h
  have : TransCmp fun a b : ClockInfo => ctx.comparePaths a.crprPath b.crprPath :=
    { eq_swap := hpaths.eq_swap, isLE_trans := hpaths.isLE_trans }
  rw [ordering_eq_compareLex]
  infer_instance

theorem ordering_eq_iff_agrees {ctx : SearchContext}
    (h : ctx.crprActive = true → ∀ u v, ctx.pathEqual u v = true ↔ ctx.pathCompare u v = .eq)
    (a b : ClockInfo) : a.ordering b ctx = .eq ↔ a.agrees b ctx = true := by
  have hlex : a.ordering b ctx = _ := congrFun (congrFun (ordering_eq_compareLex ctx) a) b
  rw [hlex]
  simp only [compareLex_eq_eq, compareOn, Std.compare_eq_iff_eq, ctx.comparePaths_eq_iff h, agrees,
    Bool.and_eq_true, beq_iff_eq, and_assoc]

/-! ## Refusals -/

/-- Both checks before a result are passed exactly by clock contexts of the right setting. -/
theorem check_eq_ok {α : Type} {a b : ClockInfo} {ctx : SearchContext} (x : α)
    (ha : a.crprHashed = ctx.crprActive) (hb : b.crprHashed = ctx.crprActive) :
    (do a.checkCrpr ctx; b.checkCrpr ctx; return x : Except CrprMismatch α) = .ok x := by
  rw [checkCrpr, if_pos ha, checkCrpr, if_pos hb]
  rfl

theorem check_eq_error_iff {α : Type} (a b : ClockInfo) (ctx : SearchContext) (x : α) :
    (∃ m, (do a.checkCrpr ctx; b.checkCrpr ctx; return x : Except CrprMismatch α) = .error m) ↔
      a.crprHashed ≠ ctx.crprActive ∨ b.crprHashed ≠ ctx.crprActive := by
  by_cases ha : a.crprHashed = ctx.crprActive
  · by_cases hb : b.crprHashed = ctx.crprActive
    · rw [check_eq_ok x ha hb]
      simp [ha, hb]
    · simp [checkCrpr, ha, hb, bind, Except.bind]
  · simp [checkCrpr, ha, bind, Except.bind]

theorem compare_eq_ok {a b : ClockInfo} {ctx : SearchContext}
    (ha : a.crprHashed = ctx.crprActive) (hb : b.crprHashed = ctx.crprActive) :
    a.compare b ctx = .ok (a.ordering b ctx) :=
  check_eq_ok _ ha hb

theorem equal_eq_ok {a b : ClockInfo} {ctx : SearchContext}
    (ha : a.crprHashed = ctx.crprActive) (hb : b.crprHashed = ctx.crprActive) :
    a.equal b ctx = .ok (a.agrees b ctx) :=
  check_eq_ok _ ha hb

/-! ## The preorder -/

/-- Let the paths of a search context have a total preorder, if they count. Then clock contexts
made under its setting have one: `compare` gives an answer, which is `.eq` for a clock context with
itself and reverses with its arguments, "not greater" is transitive, and clock contexts that compare
equal compare alike with all others. If the search context relates the paths that it orders equal,
clock contexts are equal exactly if they compare equal, and this is an equivalence. Both refuse
exactly the pairs with a clock context made under the other setting. -/
theorem compare_totalPreorder (ctx : SearchContext) :
    ((ctx.crprActive = true → TransCmp ctx.pathCompare) →
      (∀ a b c : ClockInfo, a.crprHashed = ctx.crprActive → b.crprHashed = ctx.crprActive →
        c.crprHashed = ctx.crprActive →
          (∃ o, a.compare b ctx = .ok o) ∧
          a.compare a ctx = .ok .eq ∧
          b.compare a ctx = (a.compare b ctx).map Ordering.swap ∧
          (a.compare b ctx ≠ .ok .gt → b.compare c ctx ≠ .ok .gt → a.compare c ctx ≠ .ok .gt) ∧
          (a.compare b ctx = .ok .eq → a.compare c ctx = b.compare c ctx)) ∧
      ((∀ u v, ctx.pathEqual u v = true ↔ ctx.pathCompare u v = .eq) →
        (∀ a b : ClockInfo, a.crprHashed = ctx.crprActive → b.crprHashed = ctx.crprActive →
          (a.equal b ctx = .ok true ↔ a.compare b ctx = .ok .eq)) ∧
        Equivalence fun a b : { c : ClockInfo // c.crprHashed = ctx.crprActive } =>
          a.1.equal b.1 ctx = .ok true)) ∧
    ∀ a b : ClockInfo,
      ((∃ m, a.equal b ctx = .error m) ↔
        a.crprHashed ≠ ctx.crprActive ∨ b.crprHashed ≠ ctx.crprActive) ∧
      ((∃ m, a.compare b ctx = .error m) ↔
        a.crprHashed ≠ ctx.crprActive ∨ b.crprHashed ≠ ctx.crprActive) := by
  refine ⟨fun hpaths => ?_, fun a b => ⟨check_eq_error_iff a b ctx _, check_eq_error_iff a b ctx _⟩⟩
  have hpreorder := transCmp_ordering hpaths
  have hself (a : ClockInfo) : a.ordering a ctx = .eq :=
    @Std.ReflCmp.compare_self _ (fun a b => ordering a b ctx) _ a
  have hnot (o : Ordering) :
      (Except.ok o : Except CrprMismatch Ordering) ≠ .ok .gt ↔ o.isLE = true := by
    cases o <;> simp
  refine ⟨fun a b c ha hb hc => ?_, fun hequal => ?_⟩
  · rw [compare_eq_ok ha hb, compare_eq_ok ha ha, compare_eq_ok hb ha, compare_eq_ok hb hc,
      compare_eq_ok ha hc, hnot, hnot, hnot]
    refine ⟨⟨_, rfl⟩, ?_, ?_, hpreorder.isLE_trans, fun heq => ?_⟩
    · exact congrArg Except.ok (hself a)
    · exact congrArg Except.ok hpreorder.eq_swap
    · have heq : a.ordering b ctx = .eq := Except.ok.inj heq
      exact congrArg Except.ok (@TransCmp.congr_left _ (fun a b => ordering a b ctx) _ _ _ _ heq)
  · have hiff (a b : ClockInfo) (ha : a.crprHashed = ctx.crprActive)
        (hb : b.crprHashed = ctx.crprActive) :
        a.equal b ctx = .ok true ↔ a.ordering b ctx = .eq := by
      rw [equal_eq_ok ha hb, Except.ok.injEq, ordering_eq_iff_agrees fun _ => hequal]
    refine ⟨fun a b ha hb => ?_, fun a => ?_, fun {a b} hab => ?_, fun {a b c} hab hbc => ?_⟩
    · rw [hiff a b ha hb, compare_eq_ok ha hb, Except.ok.injEq]
    · exact (hiff _ _ a.2 a.2).2 (hself a)
    · have heq := (hiff _ _ a.2 b.2).1 hab
      exact (hiff _ _ b.2 a.2).2
        (@Std.OrientedCmp.eq_symm _ (fun a b => ordering a b ctx) _ _ _ heq)
    · have heq := (hiff _ _ a.2 b.2).1 hab
      have heq' := (hiff _ _ b.2 c.2).1 hbc
      exact (hiff _ _ a.2 c.2).2
        (@TransCmp.eq_trans _ (fun a b => ordering a b ctx) _ _ _ _ heq heq')

/-- The clock context of a path with a latency, where paths count and have their natural order. -/
def delayed (latency : Double) (path : Option PathRef) : ClockInfo :=
  ofParts { pathParts path with latency } (contextOf fun u v => Ord.compare u v == .eq)

/-- A latency that is not a number is equal to none at all, and compares like it with one that is
infinite. -/
theorem compare_totalPreorder_nan :
    TransCmp (contextOf fun u v => Ord.compare u v == .eq).pathCompare ∧
      (delayed ⟨0x7ff8000000000000⟩ (some ⟨⟨1⟩, 0⟩)).equal (delayed .zero (some ⟨⟨1⟩, 0⟩))
        (contextOf fun u v => Ord.compare u v == .eq) = .ok true ∧
      (delayed ⟨0x7ff8000000000000⟩ (some ⟨⟨1⟩, 0⟩)).compare
          (delayed ⟨0x7ff0000000000000⟩ (some ⟨⟨1⟩, 0⟩))
          (contextOf fun u v => Ord.compare u v == .eq) =
        (delayed .zero (some ⟨⟨1⟩, 0⟩)).compare (delayed ⟨0x7ff0000000000000⟩ (some ⟨⟨1⟩, 0⟩))
          (contextOf fun u v => Ord.compare u v == .eq) := by
  have hpaths : TransCmp (contextOf fun u v => Ord.compare u v == .eq).pathCompare :=
    inferInstanceAs (TransCmp (Ord.compare : Option PathRef → Option PathRef → Ordering))
  have heq : (delayed ⟨0x7ff8000000000000⟩ (some ⟨⟨1⟩, 0⟩)).compare
      (delayed .zero (some ⟨⟨1⟩, 0⟩)) (contextOf fun u v => Ord.compare u v == .eq) = .ok .eq := by
    rw [compare_eq_ok rfl rfl]
    exact congrArg Except.ok (by decide +kernel)
  obtain ⟨hlaws, hequal⟩ := (compare_totalPreorder _).1 fun _ => hpaths
  refine ⟨hpaths, ((hequal fun u v => ?_).1 _ _ rfl rfl).2 heq, ?_⟩
  · simp [contextOf]
  · exact (hlaws _ _ _ rfl rfl rfl).2.2.2.2 heq

end ClockInfo

end PathIdentity
