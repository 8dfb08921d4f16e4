import PathIdentity.Proofs.Clock.Order
import PathIdentity.Proofs.Ticks

/-!
# Ticks and the order of times

Ticks are found in three steps, and each of them is monotone. The product and the whole number are
odd functions of the key of a double (`Double.key_mulNat`, `Double.roundAway_eq`), and clamping is
monotone. An infinite time needs no case of its own: the units that belong to the rank of infinity
are so many that the product is infinite and the whole number is clamped. So a time that is less or
equal has ticks that are less or equal (`Double.Le.quantize_le`). Ticks are one key of the order of
clock contexts, and a clock context with a lesser time does not come after one with a greater.
-/

namespace PathIdentity

theorem roundToRank_mono {num num' : ℕ} (den : ℕ) (h : num ≤ num') :
    roundToRank num den ≤ roundToRank num' den := by
  rw [roundToRank_eq_min, roundToRank_eq_min]
  exact min_le_min_right _ (nearestRank_mono (Nat.mul_le_mul_right _ h))

theorem divHalfUp_mono {num num' : ℕ} (den : ℕ) (h : num ≤ num') :
    divHalfUp num den ≤ divHalfUp num' den :=
  Nat.div_le_div_right (by omega)

theorem toInt_ofIntClamp_mono {m n : ℤ} (h : m ≤ n) :
    (Int64.ofIntClamp m).toInt ≤ (Int64.ofIntClamp n).toInt := by
  rw [toInt_ofIntClamp, toInt_ofIntClamp]
  omega

/-- The rank of the ticks of the double of a rank, before they are rounded to a whole number. -/
def productRank (rank : ℕ) : ℕ := roundToRank (unitsOfRank rank * ticksPerSecond) unitsPerOne

/-- The whole number nearest to the double of a rank. -/
def wholeOfRank (rank : ℕ) : ℕ := divHalfUp (unitsOfRank rank) unitsPerOne

theorem monotone_productRank : Monotone productRank := fun _ _ h =>
  roundToRank_mono _ (Nat.mul_le_mul_right _ (strictMono_unitsOfRank.monotone h))

theorem monotone_wholeOfRank : Monotone wholeOfRank := fun _ _ h =>
  divHalfUp_mono _ (strictMono_unitsOfRank.monotone h)

theorem productRank_zero : productRank 0 = 0 := by decide +kernel

theorem wholeOfRank_zero : wholeOfRank 0 = 0 := by decide +kernel

theorem productRank_infiniteRank : productRank infiniteRank = infiniteRank := by decide +kernel

theorem le_wholeOfRank_infiniteRank : 2 ^ 63 ≤ wholeOfRank infiniteRank := by decide +kernel

namespace Double

variable {x y : Double}

theorem isFinite_or_rank_eq (h : ¬x.IsNaN) : x.IsFinite ∨ x.rank = infiniteRank :=
  (not_lt.1 h).lt_or_eq

theorem key_mulNat (h : ¬x.IsNaN) :
    (x.mulNat ticksPerSecond).key = oddExtension productRank x.key := by
  rw [oddExtension_key productRank_zero]
  rcases isFinite_or_rank_eq h with hfinite | hinfinite
  · rw [hfinite.mulNat_eq, key, isNegative_ofRatio, rank_ofRatio]
    rfl
  · rw [mulNat_of_rank_eq hinfinite, key, hinfinite, productRank_infiniteRank]

theorem isNaN_mulNat_iff (k : ℕ) : (x.mulNat k).IsNaN ↔ x.IsNaN := by
  by_cases h : x.IsNaN
  · rw [h.mulNat_eq]
  · rcases isFinite_or_rank_eq h with hfinite | hinfinite
    · rw [hfinite.mulNat_eq]
      exact iff_of_false not_isNaN_ofRatio h
    · rw [mulNat_of_rank_eq hinfinite]

theorem roundAway_eq (h : ¬x.IsNaN) :
    x.roundAway = Int64.ofIntClamp (oddExtension wholeOfRank x.key) := by
  rw [oddExtension_key wholeOfRank_zero]
  rcases isFinite_or_rank_eq h with hfinite | hinfinite
  · rw [roundAway, hfinite.magnitude_eq]
    rfl
  · have hlarge := le_wholeOfRank_infiniteRank
    have hmin := Int64.toInt_minValue
    have hmax := Int64.toInt_maxValue
    rw [roundAway, magnitude_of_rank_eq hinfinite, hinfinite, ← Int64.toInt_inj, toInt_ofIntClamp]
    cases x.isNegative <;> simp only [if_true, if_false, Bool.false_eq_true] <;> omega

theorem quantize_eq (h : ¬x.IsNaN) :
    quantize x = Int64.ofIntClamp (oddExtension wholeOfRank (oddExtension productRank x.key)) := by
  rw [quantize, roundAway_eq (mt (isNaN_mulNat_iff _).1 h), key_mulNat h]

theorem Le.quantize_le (h : x.Le y) : quantize x ≤ quantize y := by
  rw [quantize_eq h.1, quantize_eq h.2.1, Int64.le_iff_toInt_le]
  refine toInt_ofIntClamp_mono ?_
  refine monotone_oddExtension wholeOfRank_zero monotone_wholeOfRank ?_
  exact monotone_oddExtension productRank_zero monotone_productRank h.key_le

/-! ## Times of the other sign -/

theorem saturates_of_rank_eq (h : x.rank = infiniteRank) : x.Saturates := by
  have hnan : ¬x.IsNaN := h.not_gt
  have hinfinite : ¬x.IsFinite := h.not_lt
  rw [Saturates, mulNat_of_rank_eq h]
  exact ⟨hnan, fun hfinite => absurd hfinite hinfinite⟩

theorem IsNaN.quantize_eq (h : x.IsNaN) : quantize x = 0 := by
  rw [quantize, h.mulNat_eq, roundAway, h.magnitude_eq]

theorem toInt_quantize_neg (hx : ¬x.Saturates) (hneg : ¬x.neg.Saturates) :
    (quantize x.neg).toInt = -(quantize x).toInt := by
  by_cases hnan : x.IsNaN
  · have hnan' : x.neg.IsNaN := by rwa [IsNaN, rank_neg]
    rw [hnan.quantize_eq, hnan'.quantize_eq]
    rfl
  · have hfinite := (isFinite_or_rank_eq hnan).resolve_right (mt saturates_of_rank_eq hx)
    have hfinite' : x.neg.IsFinite := by rwa [IsFinite, rank_neg]
    rw [hfinite.toInt_quantize hx, hfinite'.toInt_quantize hneg, hfinite.mulNat_neg, value_neg,
      roundHalfAway_neg]

end Double

/-! ## Clock contexts that differ in their times -/

namespace ClockInfo

section Times

variable {ctx : SearchContext} (hpaths : ∀ u, ctx.pathCompare u u = .eq)
include hpaths

/-- Clock contexts of the same parts but for the two times are ordered by the ticks of these. -/
theorem ordering_times (parts : ClockParts) (x x' y y' : Double) :
    (ofParts { parts with insertion := x, latency := x' } ctx).ordering
        (ofParts { parts with insertion := y, latency := y' } ctx) ctx =
      (Ord.compare (quantize x) (quantize y)).then (Ord.compare (quantize x') (quantize y')) := by
  simp only [ordering, ofParts, uncertaintyTicks, isPulse, pulseIndex, hpaths, ite_self,
    Std.ReflCmp.compare_self, Ordering.eq_then, Ordering.then_eq]

theorem ordering_insertion (parts : ClockParts) (x y : Double) :
    (ofParts { parts with insertion := x } ctx).ordering
        (ofParts { parts with insertion := y } ctx) ctx =
      Ord.compare (quantize x) (quantize y) := by
  have htimes := ordering_times hpaths parts x parts.latency y parts.latency
  rwa [(Std.ReflCmp.compare_self : Ord.compare (quantize parts.latency) _ = .eq),
    Ordering.then_eq] at htimes

theorem ordering_latency (parts : ClockParts) (x y : Double) :
    (ofParts { parts with latency := x } ctx).ordering
        (ofParts { parts with latency := y } ctx) ctx =
      Ord.compare (quantize x) (quantize y) := by
  have htimes := ordering_times hpaths parts parts.insertion x parts.insertion y
  rwa [(Std.ReflCmp.compare_self : Ord.compare (quantize parts.insertion) _ = .eq),
    Ordering.eq_then] at htimes

end Times

/-- Clock contexts that are ordered by the ticks of times are not compared against their order. -/
theorem compare_of_ordering_eq {a b : ClockInfo} {ctx : SearchContext} {x y : Double}
    (ha : a.crprHashed = ctx.crprActive) (hb : b.crprHashed = ctx.crprActive) (h : x.Le y)
    (hab : a.ordering b ctx = Ord.compare (quantize x) (quantize y))
    (hba : b.ordering a ctx = Ord.compare (quantize y) (quantize x)) :
    ∃ o, o ≠ .gt ∧ a.compare b ctx = .ok o ∧ b.compare a ctx = .ok o.swap := by
  have hle : (Ord.compare (quantize x) (quantize y)).isLE = true :=
    Std.isLE_compare.2 h.quantize_le
  refine ⟨_, Ordering.isLE_iff_ne_gt.1 hle, ?_, ?_⟩
  · rw [compare_eq_ok ha hb, hab]
  · rw [compare_eq_ok hb ha, hba, Std.OrientedOrd.eq_swap (a := quantize y)]

/-- (1) The ticks of times, of which none is a NaN, are in the order of the times. (2) The time of
the other sign has the ticks of the other sign, unless one of them is clamped. (3) Clock contexts
of the same parts, but for the insertion or the latency, do not compare against the order of these
times, either way round, if the search context compares a path equal to itself. -/
theorem compare_of_times :
    (∀ x y : Double, x.Le y → quantize x ≤ quantize y) ∧
    (∀ x : Double, ¬x.Saturates → ¬x.neg.Saturates →
      (quantize x.neg).toInt = -(quantize x).toInt) ∧
    ∀ ctx : SearchContext, (∀ u, ctx.pathCompare u u = .eq) →
      ∀ (parts : ClockParts) (x y : Double), x.Le y →
        (∃ o, o ≠ .gt ∧
          (ofParts { parts with insertion := x } ctx).compare
            (ofParts { parts with insertion := y } ctx) ctx = .ok o ∧
          (ofParts { parts with insertion := y } ctx).compare
            (ofParts { parts with insertion := x } ctx) ctx = .ok o.swap) ∧
        ∃ o, o ≠ .gt ∧
          (ofParts { parts with latency := x } ctx).compare
            (ofParts { parts with latency := y } ctx) ctx = .ok o ∧
          (ofParts { parts with latency := y } ctx).compare
            (ofParts { parts with latency := x } ctx) ctx = .ok o.swap := by
  refine ⟨fun x y h => h.quantize_le, fun x => Double.toInt_quantize_neg,
    fun ctx hpaths parts x y h => ?_⟩
  exact ⟨compare_of_ordering_eq rfl rfl h (ordering_insertion hpaths parts x y)
      (ordering_insertion hpaths parts y x),
    compare_of_ordering_eq rfl rfl h (ordering_latency hpaths parts x y)
      (ordering_latency hpaths parts y x)⟩

/-- Zeros of both signs have the same ticks, the least positive time is below the infinite one, and
a time of half a tick is rounded away from zero with either sign. A clock context of minus infinity
comes before one of the least negative time. -/
theorem compare_of_times_signs :
    (quantize ⟨0x8000000000000000⟩ ≤ quantize ⟨0⟩ ∧ quantize ⟨0⟩ ≤ quantize ⟨0x8000000000000000⟩ ∧
      quantize ⟨1⟩ ≤ quantize (.infinity false)) ∧
    (quantize (⟨0x3d619799812dea11⟩ : Double).neg).toInt = -1 ∧
    ∃ o, o ≠ .gt ∧
      (delayed (.infinity true) none).compare (delayed ⟨0x8000000000000001⟩ none)
        (contextOf fun u v => Ord.compare u v == .eq) = .ok o := by
  obtain ⟨hmono, hneg, hcompare⟩ := compare_of_times
  refine ⟨⟨hmono _ _ (by decide +kernel), hmono _ _ (by decide +kernel),
    hmono _ _ (by decide +kernel)⟩,
    (hneg _ (by decide +kernel) (by decide +kernel)).trans (by decide +kernel), ?_⟩
  have hpaths : ∀ u, (contextOf fun u v => Ord.compare u v == .eq).pathCompare u u = .eq :=
    fun u => (Std.ReflCmp.compare_self : Ord.compare u u = .eq)
  obtain ⟨o, hle, heq, -⟩ := (hcompare _ hpaths (pathParts none) (.infinity true)
    ⟨0x8000000000000001⟩ (by decide +kernel)).2
  exact ⟨o, hle, heq⟩

end ClockInfo

end PathIdentity
