import PathIdentity.Ticks
import PathIdentity.Proofs.Number.Value
import Mathlib.Algebra.Order.Round
import Mathlib.Data.Rat.Floor

/-!
# Ticks of times near whole ticks

The ticks of a finite time are those of three steps: the product with `10 ^ 12` is rounded to the
nearest double, the double to the nearest whole number (`roundHalfAway`), and that is clamped to 64
bits, which changes it only if the time `Saturates`. The first step has an error of one part in
`2 ^ 53` and the second one of a half, so below `2 ^ 51` ticks a time within a quarter of a whole
tick has that tick. The double nearest to a whole tick is as near as that.
-/

namespace PathIdentity

/-! ## Whole numbers -/

/-- The whole number nearest to a rational number, halves going away from zero. -/
def roundHalfAway (q : ℚ) : ℤ := if 0 ≤ q then round q else -round (-q)

theorem roundHalfAway_withSign (negative : Bool) {q : ℚ} (hq : 0 ≤ q) :
    roundHalfAway (withSign negative q) = if negative then -round q else round q := by
  cases negative with
  | false => exact if_pos hq
  | true =>
    rcases hq.eq_or_lt with rfl | hpos
    · simp [roundHalfAway, withSign]
    · have hneg : ¬0 ≤ -q := by linarith
      simp [roundHalfAway, withSign, hneg]

theorem roundHalfAway_neg (q : ℚ) : roundHalfAway (-q) = -roundHalfAway q := by
  rcases le_total 0 q with hq | hq
  · exact (roundHalfAway_withSign true hq).trans (congrArg Neg.neg (if_pos hq).symm)
  · have hneg : 0 ≤ -q := neg_nonneg.2 hq
    have hq : roundHalfAway q = -round (-q) := by
      have := roundHalfAway_withSign true hneg
      rwa [withSign, if_pos rfl, neg_neg, if_pos rfl] at this
    rw [hq, neg_neg]
    exact if_pos hneg

theorem abs_roundHalfAway_sub_le (q : ℚ) : |(roundHalfAway q : ℚ) - q| ≤ 1 / 2 := by
  unfold roundHalfAway
  split
  · rw [abs_sub_comm]
    exact abs_sub_round q
  · have hround := abs_sub_round (-q)
    have hswap : ((-round (-q) : ℤ) : ℚ) - q = -q - round (-q) := by
      push_cast
      ring
    rwa [hswap]

/-- A number within a half of a whole number is rounded to it. -/
theorem roundHalfAway_eq {q : ℚ} {n : ℤ} (h : |q - n| < 1 / 2) : roundHalfAway q = n := by
  have hround := abs_roundHalfAway_sub_le q
  have htriangle := abs_sub_le (roundHalfAway q : ℚ) q n
  have hlt : |(roundHalfAway q : ℚ) - n| < 1 := by linarith
  have hlt : |roundHalfAway q - n| < 1 := by exact_mod_cast hlt
  exact sub_eq_zero.1 (Int.abs_lt_one_iff.1 hlt)

theorem natCast_divHalfUp (num : ℕ) {den : ℕ} (hden : 0 < den) :
    (divHalfUp num den : ℤ) = round (num / den : ℚ) := by
  have hden : (den : ℚ) ≠ 0 := by exact_mod_cast hden.ne'
  have hsum : (num / den + 1 / 2 : ℚ) = ((2 * num + den : ℕ) : ℚ) / (2 * den : ℕ) := by
    push_cast
    field_simp
  rw [round_eq, hsum, Rat.floor_natCast_div_natCast, divHalfUp]
  rfl

theorem toInt_ofIntClamp (n : ℤ) :
    (Int64.ofIntClamp n).toInt = max (-2 ^ 63) (min n (2 ^ 63 - 1)) := by
  have hmin := Int64.toInt_minValue
  have hmax := Int64.toInt_maxValue
  unfold Int64.ofIntClamp
  split
  · split
    · rw [Int64.toInt_ofIntLE]
      omega
    · omega
  · omega

theorem toInt_ofIntClamp_of_mem {n : ℤ} (hlow : -2 ^ 63 ≤ n) (hhigh : n < 2 ^ 63) :
    (Int64.ofIntClamp n).toInt = n := by
  rw [toInt_ofIntClamp]
  omega

namespace Double

variable {x y : Double}

theorem IsFinite.roundAway_eq (h : x.IsFinite) :
    x.roundAway = Int64.ofIntClamp (roundHalfAway x.value) := by
  rw [roundAway, h.magnitude_eq, value, roundHalfAway_withSign _ (by positivity),
    ← natCast_divHalfUp _ unitsPerOne_pos]

/-! ## Ticks -/

/-- The ticks of a time are clamped: its product with the number of ticks in a second is infinite,
or is rounded to a whole number that does not fit in 64 bits. -/
def Saturates (x : Double) : Prop :=
  ¬(x.mulNat ticksPerSecond).IsNaN ∧
    ((x.mulNat ticksPerSecond).IsFinite →
      ¬(-2 ^ 63 ≤ roundHalfAway (x.mulNat ticksPerSecond).value ∧
        roundHalfAway (x.mulNat ticksPerSecond).value < 2 ^ 63))

instance (x : Double) : Decidable x.Saturates := inferInstanceAs (Decidable (_ ∧ _))

theorem cast_ticksPerSecond : (ticksPerSecond : ℚ) = 10 ^ 12 := by norm_num [ticksPerSecond]

/-- The product of a time that does not saturate is finite and fits. -/
theorem IsFinite.of_not_saturates (h : x.IsFinite) (hx : ¬x.Saturates) :
    (x.mulNat ticksPerSecond).IsFinite ∧
      -2 ^ 63 ≤ roundHalfAway (x.mulNat ticksPerSecond).value ∧
      roundHalfAway (x.mulNat ticksPerSecond).value < 2 ^ 63 := by
  have hnan : ¬(x.mulNat ticksPerSecond).IsNaN := by
    rw [h.mulNat_eq]
    exact not_isNaN_ofRatio
  simp only [Saturates, hnan, not_false_eq_true, true_and, Classical.not_imp, not_not] at hx
  exact hx

theorem IsFinite.toInt_quantize (h : x.IsFinite) (hx : ¬x.Saturates) :
    (quantize x).toInt = roundHalfAway (x.mulNat ticksPerSecond).value := by
  obtain ⟨hproduct, hlow, hhigh⟩ := h.of_not_saturates hx
  rw [quantize, hproduct.roundAway_eq, toInt_ofIntClamp_of_mem hlow hhigh]

/-! ## Times near whole ticks -/

section Whole

variable {n : ℤ}

/-- The product of a time within a quarter of a whole tick is within a half of it. -/
theorem IsFinite.product_near_whole (h : x.IsFinite) (hn : |n| < 2 ^ 51)
    (hnear : |x.value * ticksPerSecond - n| ≤ 1 / 4) :
    (x.mulNat ticksPerSecond).IsFinite ∧ |(x.mulNat ticksPerSecond).value - n| < 1 / 2 := by
  have hcast : |(n : ℚ)| ≤ 2 ^ 51 - 1 := by
    have hle : |n| ≤ 2 ^ 51 - 1 := by omega
    exact_mod_cast hle
  have hsize : |x.value * ticksPerSecond| ≤ 2 ^ 51 - 3 / 4 := by
    have htriangle := abs_sub_abs_le_abs_sub (x.value * ticksPerSecond) (n : ℚ)
    linarith
  have hproduct : (x.mulNat ticksPerSecond).IsFinite :=
    h.isFinite_mulNat (hsize.trans_lt (by norm_num))
  have herror := h.abs_value_mulNat_sub_le hproduct
  have hlt : max ((1 / 2 : ℚ) / unitsPerOne) (|x.value * ticksPerSecond| / 2 ^ 53) < 1 / 4 := by
    refine max_lt ?_ ?_
    · have hone : (2 : ℚ) < unitsPerOne := by
        exact_mod_cast (by decide +kernel : 2 < unitsPerOne)
      rw [div_lt_iff₀ cast_unitsPerOne_pos]
      linarith
    · rw [div_lt_iff₀ (by positivity)]
      linarith
  refine ⟨hproduct, ?_⟩
  have htriangle := abs_sub_le (x.mulNat ticksPerSecond).value (x.value * ticksPerSecond) n
  linarith

theorem IsFinite.toInt_quantize_eq (h : x.IsFinite) (hn : |n| < 2 ^ 51)
    (hnear : |x.value * ticksPerSecond - n| ≤ 1 / 4) : (quantize x).toInt = n := by
  obtain ⟨hproduct, hlt⟩ := h.product_near_whole hn hnear
  have hbounds := abs_lt.1 hn
  rw [quantize, hproduct.roundAway_eq, roundHalfAway_eq hlt]
  exact toInt_ofIntClamp_of_mem (by omega) (by omega)

/-- The double that a whole number of ticks is rounded to. -/
def ofTicks (n : ℤ) : Double := ofRatio (n < 0) n.natAbs ticksPerSecond

theorem withSign_natAbs (n : ℤ) (d : ℚ) : withSign (n < 0) (n.natAbs / d) = n / d := by
  rw [withSign, Nat.cast_natAbs]
  split
  · rename_i hneg
    rw [abs_of_neg (of_decide_eq_true hneg), Int.cast_neg, neg_div, neg_neg]
  · rename_i hnonneg
    rw [abs_of_nonneg (by simpa using hnonneg)]

theorem isFinite_ofTicks (hn : |n| < 2 ^ 51) : (ofTicks n).IsFinite := by
  have hbounds := abs_lt.1 hn
  have hsmall : n.natAbs < ticksPerSecond * 2 ^ 64 := by
    rw [show ticksPerSecond = 1000000000000 from rfl]
    omega
  exact isFinite_ofRatio (by decide) hsmall

theorem isNearest_ofTicks (hn : |n| < 2 ^ 51) : (ofTicks n).IsNearest (n / ticksPerSecond) := by
  rw [← withSign_natAbs]
  exact isNearest_ofRatio (by decide) (isFinite_ofTicks hn)

/-- A double nearest to a whole number of ticks is within a quarter of a tick of it. -/
theorem IsNearest.abs_sub_le (h : x.IsNearest (n / ticksPerSecond)) (hn : |n| < 2 ^ 51) :
    |x.value * ticksPerSecond - n| ≤ 1 / 4 := by
  have hpos : (0 : ℚ) < ticksPerSecond := by exact_mod_cast (by decide : 0 < ticksPerSecond)
  have hcast : |(n : ℚ)| ≤ 2 ^ 51 := by exact_mod_cast hn.le
  have herror := abs_value_ofRatio_sub_le (by decide) (isFinite_ofTicks hn)
  rw [withSign_natAbs, Nat.cast_natAbs, Int.cast_abs] at herror
  have hscale : |x.value * ticksPerSecond - n| =
      |x.value - n / ticksPerSecond| * ticksPerSecond := by
    rw [← abs_of_pos hpos, ← abs_mul, abs_of_pos hpos, sub_mul, div_mul_cancel₀ _ hpos.ne']
  rw [hscale, ← le_div_iff₀ hpos]
  refine ((h.2 (ofTicks n) (isFinite_ofTicks hn)).trans herror).trans (max_le ?_ ?_)
  · have hone : (2 * ticksPerSecond : ℚ) ≤ unitsPerOne := by
      exact_mod_cast (by decide +kernel : 2 * ticksPerSecond ≤ unitsPerOne)
    rw [div_le_div_iff₀ cast_unitsPerOne_pos hpos]
    linarith
  · rw [div_right_comm]
    refine div_le_div_of_nonneg_right ?_ hpos.le
    rw [div_le_iff₀ (by positivity)]
    linarith

end Whole

/-- Two roundings have an error of a half and one part in `2 ^ 53`. -/
theorem IsFinite.abs_toInt_quantize_sub_le (h : x.IsFinite) (hx : ¬x.Saturates) :
    |((quantize x).toInt : ℚ) - x.value * ticksPerSecond| ≤
      1 / 2 + 1 / 2 ^ 53 * |x.value * ticksPerSecond| := by
  have hproduct := (h.of_not_saturates hx).1
  have herror := h.abs_value_mulNat_sub_le hproduct
  have hround := abs_roundHalfAway_sub_le (x.mulNat ticksPerSecond).value
  rw [h.toInt_quantize hx]
  rcases le_total ((1 / 2 : ℚ) / unitsPerOne) (|x.value * ticksPerSecond| / 2 ^ 53) with hle | hle
  · rw [max_eq_right hle] at herror
    have htriangle := abs_sub_le (roundHalfAway (x.mulNat ticksPerSecond).value : ℚ)
      (x.mulNat ticksPerSecond).value (x.value * ticksPerSecond)
    linarith
  · -- A product that is rounded to whole units is far below a half.
    rw [max_eq_left hle] at herror
    have hone : (2 ^ 64 : ℚ) ≤ unitsPerOne := by
      exact_mod_cast (by decide +kernel : 2 ^ 64 ≤ unitsPerOne)
    have hunit : (1 / 2 : ℚ) / unitsPerOne ≤ 1 / 2 ^ 65 := by
      rw [div_le_div_iff₀ cast_unitsPerOne_pos (by positivity)]
      linarith
    have hsmall : |x.value * ticksPerSecond| ≤ 1 / 4 := by
      rw [div_le_iff₀ (by positivity)] at hle
      linarith
    have hzero : |(x.mulNat ticksPerSecond).value - (0 : ℤ)| < 1 / 2 := by
      have htriangle := abs_sub_le (x.mulNat ticksPerSecond).value (x.value * ticksPerSecond) 0
      rw [sub_zero (x.value * ticksPerSecond)] at htriangle
      rw [Int.cast_zero]
      linarith
    have hnonneg : 0 ≤ 1 / 2 ^ 53 * |x.value * ticksPerSecond| := by positivity
    rw [roundHalfAway_eq hzero, Int.cast_zero, zero_sub, abs_neg]
    linarith

end Double

open Double

/-- (1) A time within a quarter of a whole number of ticks has that number of ticks, below `2 ^ 51`.
(2) The double nearest to a whole number of ticks has that number, and (3) so different whole
numbers never share their ticks. (4) Unless they are clamped, ticks are off by no more than a half
and one part in `2 ^ 53`. -/
theorem quantize_of_near_whole :
    (∀ (n : ℤ) (x : Double), |n| < 2 ^ 51 → x.IsFinite → |x.value * 10 ^ 12 - n| ≤ 1 / 4 →
      (quantize x).toInt = n) ∧
    (∀ n : ℤ, |n| < 2 ^ 51 → (ofRatio (n < 0) n.natAbs (10 ^ 12)).IsNearest (n / 10 ^ 12) ∧
      ∀ x : Double, x.IsNearest (n / 10 ^ 12) → (quantize x).toInt = n) ∧
    (∀ (m n : ℤ) (x y : Double), |m| < 2 ^ 51 → |n| < 2 ^ 51 → x.IsNearest (m / 10 ^ 12) →
      y.IsNearest (n / 10 ^ 12) → quantize x = quantize y → m = n) ∧
    ∀ x : Double, x.IsFinite → ¬x.Saturates →
      |((quantize x).toInt : ℚ) - x.value * 10 ^ 12| ≤
        1 / 2 + 1 / 2 ^ 53 * |x.value * 10 ^ 12| := by
  simp only [← cast_ticksPerSecond]
  have hwhole (n : ℤ) (x : Double) (hn : |n| < 2 ^ 51) (hx : x.IsNearest (n / ticksPerSecond)) :
      (quantize x).toInt = n := hx.1.toInt_quantize_eq hn (hx.abs_sub_le hn)
  refine ⟨fun n x hn hx => hx.toInt_quantize_eq hn, fun n hn => ⟨isNearest_ofTicks hn, ?_⟩,
    fun m n x y hm hn hx hy heq => ?_, fun x hx => hx.abs_toInt_quantize_sub_le⟩
  · exact fun x => hwhole n x hn
  · rw [← hwhole m x hm hx, ← hwhole n y hn hy, heq]

/-- The first time is almost a quarter of a tick below a whole one, and its product with `10 ^ 12`
is rounded to a quarter. The doubles of the last two whole ticks below `2 ^ 51` have different
ticks. The last time is one of eight million seconds, whose ticks are off by more than a half. -/
theorem quantize_of_near_whole_margin :
    (6 / 25 < |(⟨0x40a19799812de61d⟩ : Double).value * 10 ^ 12 - (2251799813684788 : ℤ)| ∧
      (quantize ⟨0x40a19799812de61d⟩).toInt = 2251799813684788) ∧
    ((quantize (ofRatio false 2251799813685246 (10 ^ 12))).toInt = 2251799813685246 ∧
      quantize (ofRatio false 2251799813685246 (10 ^ 12)) ≠
        quantize (ofRatio false 2251799813685247 (10 ^ 12))) ∧
    ∃ x : Double, 1 / 2 < |((quantize x).toInt : ℚ) - x.value * 10 ^ 12| ∧
      |((quantize x).toInt : ℚ) - x.value * 10 ^ 12| ≤
        1 / 2 + 1 / 2 ^ 53 * |x.value * 10 ^ 12| := by
  obtain ⟨hnear, hnearest, hdistinct, herror⟩ := quantize_of_near_whole
  have hlast := hnearest 2251799813685246 (by decide)
  have hnext := hnearest 2251799813685247 (by decide)
  refine ⟨⟨by decide +kernel, hnear _ _ (by decide) (by decide) (by decide +kernel)⟩,
    ⟨hlast.2 _ hlast.1, fun heq => ?_⟩,
    ⟨0x415e8ec498786a52⟩, by decide +kernel, herror _ (by decide) (by decide +kernel)⟩
  exact absurd (hdistinct _ _ _ _ (by decide) (by decide) hlast.1 hnext.1 heq) (by decide)

end PathIdentity
