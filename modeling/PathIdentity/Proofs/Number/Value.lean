import PathIdentity.Proofs.Number.Rounding
import Mathlib.Algebra.Order.Group.Abs
import Mathlib.Data.Int.ConditionallyCompleteOrder
import Mathlib.Order.Monotone.Odd

/-!
# Values and order of doubles

The value of a finite double is the rational number that its bits stand for (`Double.value`). The
order of doubles (`Double.Le`) is that of their values, with an infinity at each end; it has zeros
of both signs in one place and no place for a NaN. Both are read off the `Double.key`, which is the
rank with the sign: the units of a double are the odd extension of `unitsOfRank` at its key.

`Double.ofRatio` gives a double nearest to a quotient, if it gives a finite one
(`Double.isNearest_ofRatio`), and so a product with a whole number has a relative error of at most
`2 ^ -53`, or an absolute one of half a unit (`Double.IsFinite.abs_value_mulNat_sub_le`).
-/

namespace PathIdentity

/-! ## Odd extensions -/

/-- A function of natural numbers, carried over to negative ones with the sign. -/
def oddExtension (f : ℕ → ℕ) (z : ℤ) : ℤ := z.sign * f z.natAbs

theorem oddExtension_neg (f : ℕ → ℕ) (z : ℤ) : oddExtension f (-z) = -oddExtension f z := by
  rw [oddExtension, Int.sign_neg, Int.natAbs_neg, Int.neg_mul, oddExtension]

theorem oddExtension_natCast {f : ℕ → ℕ} (hzero : f 0 = 0) (n : ℕ) : oddExtension f n = f n := by
  rcases Nat.eq_zero_or_pos n with rfl | hpos
  · rw [oddExtension, Int.natCast_zero, Int.sign_zero, Int.zero_mul, hzero, Int.natCast_zero]
  · rw [oddExtension, Int.sign_natCast_of_ne_zero hpos.ne', Int.natAbs_natCast, Int.one_mul]

theorem monotone_oddExtension {f : ℕ → ℕ} (hzero : f 0 = 0) (hf : Monotone f) :
    Monotone (oddExtension f) := by
  refine monotone_of_odd_of_monotoneOn_nonneg (oddExtension_neg f) fun z hz w hw hzw => ?_
  obtain ⟨m, rfl⟩ := Int.eq_ofNat_of_zero_le hz
  obtain ⟨n, rfl⟩ := Int.eq_ofNat_of_zero_le hw
  rw [oddExtension_natCast hzero, oddExtension_natCast hzero]
  exact_mod_cast hf (by exact_mod_cast hzw)

theorem strictMono_oddExtension {f : ℕ → ℕ} (hzero : f 0 = 0) (hf : StrictMono f) :
    StrictMono (oddExtension f) := by
  refine strictMono_of_odd_strictMonoOn_nonneg (oddExtension_neg f) fun z hz w hw hzw => ?_
  obtain ⟨m, rfl⟩ := Int.eq_ofNat_of_zero_le hz
  obtain ⟨n, rfl⟩ := Int.eq_ofNat_of_zero_le hw
  rw [oddExtension_natCast hzero, oddExtension_natCast hzero]
  exact_mod_cast hf (by exact_mod_cast hzw)

theorem unitsPerOne_pos : 0 < unitsPerOne := by decide +kernel

theorem cast_unitsPerOne_pos : (0 : ℚ) < unitsPerOne := by exact_mod_cast unitsPerOne_pos

theorem infiniteRank_lt_signBit : infiniteRank < Double.signBit := by decide

/-! ## Signs -/

/-- A number with a sign. -/
def withSign (negative : Bool) (q : ℚ) : ℚ := if negative then -q else q

@[simp] theorem abs_withSign (negative : Bool) (q : ℚ) : |withSign negative q| = |q| := by
  cases negative
  · rfl
  · exact abs_neg q

theorem withSign_sub (negative : Bool) (p q : ℚ) :
    withSign negative p - withSign negative q = withSign negative (p - q) := by
  cases negative
  · rfl
  · exact (neg_sub' p q).symm

theorem withSign_mul (negative : Bool) (p q : ℚ) :
    withSign negative p * q = withSign negative (p * q) := by
  cases negative
  · rfl
  · exact neg_mul p q

theorem withSign_not (negative : Bool) (q : ℚ) : withSign (!negative) q = -withSign negative q := by
  cases negative
  · rfl
  · exact (neg_neg q).symm

theorem abs_div_sub {d : ℚ} (hd : 0 < d) (p q : ℚ) : |p / d - q| = |p - q * d| / d := by
  rw [div_sub' hd.ne', abs_div, abs_of_pos hd, mul_comm d q]

namespace Double

variable {x y : Double}

/-! ## Sign and rank -/

theorem rank_lt_signBit (x : Double) : x.rank < signBit := Nat.mod_lt _ (by decide)

@[simp] theorem rank_ofRank (negative : Bool) {rank : ℕ} (h : rank < signBit) :
    (ofRank negative rank).rank = rank := by
  have hsize : (if negative then signBit + rank else rank) < 2 ^ 64 := by
    have : signBit + signBit = 2 ^ 64 := by decide
    split <;> omega
  rw [ofRank, Double.rank, UInt64.toNat_ofNat_of_lt' hsize]
  split
  · rw [Nat.add_mod_left, Nat.mod_eq_of_lt h]
  · exact Nat.mod_eq_of_lt h

@[simp] theorem isNegative_ofRank (negative : Bool) {rank : ℕ} (h : rank < signBit) :
    (ofRank negative rank).isNegative = negative := by
  have hsize : (if negative then signBit + rank else rank) < 2 ^ 64 := by
    have : signBit + signBit = 2 ^ 64 := by decide
    split <;> omega
  rw [ofRank, isNegative, UInt64.toNat_ofNat_of_lt' hsize]
  cases negative with
  | false => simpa using h
  | true => simp

/-- A double is not a number. -/
def IsNaN (x : Double) : Prop := infiniteRank < x.rank

/-- A double is a number. -/
def IsFinite (x : Double) : Prop := x.rank < infiniteRank

instance (x : Double) : Decidable x.IsNaN := inferInstanceAs (Decidable (_ < _))

instance (x : Double) : Decidable x.IsFinite := inferInstanceAs (Decidable (_ < _))

theorem IsFinite.magnitude_eq (h : x.IsFinite) : x.magnitude = .finite (unitsOfRank x.rank) :=
  if_pos h

theorem magnitude_of_rank_eq (h : x.rank = infiniteRank) : x.magnitude = .infinite := by
  rw [magnitude, if_neg h.not_lt, if_pos h]

theorem IsNaN.magnitude_eq (h : x.IsNaN) : x.magnitude = .nan := by
  rw [magnitude, if_neg (Nat.lt_asymm h), if_neg (Nat.ne_of_gt h)]

/-- The double of the other sign. -/
def neg (x : Double) : Double := ofRank (!x.isNegative) x.rank

@[simp] theorem rank_neg (x : Double) : x.neg.rank = x.rank := rank_ofRank _ x.rank_lt_signBit

@[simp] theorem isNegative_neg (x : Double) : x.neg.isNegative = !x.isNegative :=
  isNegative_ofRank _ x.rank_lt_signBit

/-! ## Values -/

/-- The rational number that the bits of a finite double stand for. -/
def value (x : Double) : ℚ := withSign x.isNegative (unitsOfRank x.rank / unitsPerOne)

/-- The rank with its sign. -/
def key (x : Double) : ℤ := if x.isNegative then -(x.rank : ℤ) else x.rank

/-- The order of the doubles that are numbers or infinite. -/
def Le (x y : Double) : Prop :=
  ¬x.IsNaN ∧ ¬y.IsNaN ∧
    (x = infinity true ∨ y = infinity false ∨ x.IsFinite ∧ y.IsFinite ∧ x.value ≤ y.value)

instance (x y : Double) : Decidable (x.Le y) := inferInstanceAs (Decidable (_ ∧ _ ∧ _))

theorem oddExtension_key {f : ℕ → ℕ} (hzero : f 0 = 0) (x : Double) :
    oddExtension f x.key = if x.isNegative then -(f x.rank : ℤ) else f x.rank := by
  rw [key]
  split
  · rw [oddExtension_neg, oddExtension_natCast hzero]
  · exact oddExtension_natCast hzero _

theorem value_eq_oddExtension (x : Double) :
    x.value = oddExtension unitsOfRank x.key / unitsPerOne := by
  rw [value, oddExtension_key unitsOfRank_zero, withSign]
  split
  · rw [Int.cast_neg, Int.cast_natCast, neg_div]
  · rw [Int.cast_natCast]

theorem value_le_value_iff : x.value ≤ y.value ↔ x.key ≤ y.key := by
  rw [value_eq_oddExtension, value_eq_oddExtension,
    div_le_div_iff_of_pos_right cast_unitsPerOne_pos, Int.cast_le]
  exact (strictMono_oddExtension unitsOfRank_zero strictMono_unitsOfRank).le_iff_le

theorem Le.key_le (h : x.Le y) : x.key ≤ y.key := by
  obtain ⟨hx, hy, rfl | rfl | ⟨-, -, hle⟩⟩ := h
  · have hrank : y.rank ≤ infiniteRank := not_lt.1 hy
    have hkey : (infinity true).key = -(infiniteRank : ℤ) := by decide
    rw [hkey, key]
    split <;> omega
  · have hrank : x.rank ≤ infiniteRank := not_lt.1 hx
    have hkey : (infinity false).key = infiniteRank := by decide
    rw [hkey, key]
    split <;> omega
  · exact value_le_value_iff.1 hle

theorem abs_value (x : Double) : |x.value| = unitsOfRank x.rank / unitsPerOne := by
  rw [value, abs_withSign, abs_of_nonneg (by positivity)]

@[simp] theorem value_neg (x : Double) : x.neg.value = -x.value := by
  rw [value, isNegative_neg, rank_neg, withSign_not, value]

/-! ## Nearest doubles -/

/-- No finite double is nearer to a rational number. -/
def IsNearest (x : Double) (q : ℚ) : Prop :=
  x.IsFinite ∧ ∀ y : Double, y.IsFinite → |x.value - q| ≤ |y.value - q|

section Ratio

variable {negative : Bool} {num den : ℕ}

theorem roundToRank_lt_signBit (num den : ℕ) : roundToRank num den < signBit :=
  (min_le_right _ _).trans_lt infiniteRank_lt_signBit

@[simp] theorem rank_ofRatio : (ofRatio negative num den).rank = roundToRank num den :=
  rank_ofRank _ (roundToRank_lt_signBit _ _)

@[simp] theorem isNegative_ofRatio : (ofRatio negative num den).isNegative = negative :=
  isNegative_ofRank _ (roundToRank_lt_signBit _ _)

theorem not_isNaN_ofRatio : ¬(ofRatio negative num den).IsNaN := by
  rw [IsNaN, rank_ofRatio, not_lt]
  exact min_le_right _ _

theorem isFinite_ofRatio (hden : 0 < den) (h : num < den * 2 ^ 64) :
    (ofRatio negative num den).IsFinite := by
  have hone : 2 ^ 64 * unitsPerOne ≤ 2 ^ (2044 + 53) := by decide +kernel
  have hinfinite : (2044 + 2) * binade < infiniteRank := by decide
  have hquotient : num * unitsPerOne / den < 2 ^ (2044 + 53) := by
    refine lt_of_lt_of_le ?_ hone
    rw [Nat.div_lt_iff_lt_mul hden, Nat.mul_right_comm, Nat.mul_comm (2 ^ 64)]
    exact Nat.mul_lt_mul_of_pos_right h unitsPerOne_pos
  rw [IsFinite, rank_ofRatio, roundToRank_eq_min]
  exact (min_le_left _ _).trans_lt ((nearestRank_le hquotient).trans_lt hinfinite)

/-- The error of a quotient is that of its rank. -/
theorem abs_value_ofRatio_sub (h : (ofRatio negative num den).IsFinite) :
    |(ofRatio negative num den).value - withSign negative (num / den)| =
      |(unitsOfRank (nearestRank (num * unitsPerOne) den) : ℚ) - (num * unitsPerOne : ℕ) / den| /
        unitsPerOne := by
  have hrank : roundToRank num den = nearestRank (num * unitsPerOne) den := by
    rw [IsFinite, rank_ofRatio, roundToRank_eq_min, min_lt_iff, or_iff_left (lt_irrefl _)] at h
    rw [roundToRank_eq_min, min_eq_left h.le]
  rw [value, isNegative_ofRatio, rank_ofRatio, hrank, withSign_sub, abs_withSign,
    abs_div_sub cast_unitsPerOne_pos, Nat.cast_mul, mul_div_right_comm]

theorem isNearest_ofRatio (hden : 0 < den) (h : (ofRatio negative num den).IsFinite) :
    (ofRatio negative num den).IsNearest (withSign negative (num / den)) := by
  refine ⟨h, fun y _ => ?_⟩
  rw [abs_value_ofRatio_sub h]
  calc |(unitsOfRank (nearestRank (num * unitsPerOne) den) : ℚ) - (num * unitsPerOne : ℕ) / den| /
        unitsPerOne
      ≤ |(unitsOfRank y.rank : ℚ) - (num * unitsPerOne : ℕ) / den| / unitsPerOne :=
        div_le_div_of_nonneg_right (abs_unitsOfRank_nearestRank_sub_le hden _)
          cast_unitsPerOne_pos.le
    _ = |(|y.value|) - num / den| := by
        rw [abs_value, abs_div_sub cast_unitsPerOne_pos, Nat.cast_mul, mul_div_right_comm]
    _ = |(|y.value|) - (|withSign negative (num / den)|)| := by
        rw [abs_withSign, abs_of_nonneg (by positivity : (0 : ℚ) ≤ num / den)]
    _ ≤ |y.value - withSign negative (num / den)| := abs_abs_sub_abs_le _ _

theorem abs_value_ofRatio_sub_le (hden : 0 < den) (h : (ofRatio negative num den).IsFinite) :
    |(ofRatio negative num den).value - withSign negative (num / den)| ≤
      max ((1 / 2 : ℚ) / unitsPerOne) ((num / den : ℚ) / 2 ^ 53) := by
  have hone := cast_unitsPerOne_pos
  have herror := abs_unitsOfRank_nearestRank_sub_le_max (num * unitsPerOne) hden
  rw [Nat.cast_mul, mul_div_right_comm, mul_div_right_comm] at herror
  rw [abs_value_ofRatio_sub h, div_le_iff₀ hone, max_mul_of_nonneg _ _ hone.le,
    div_mul_cancel₀ _ hone.ne', Nat.cast_mul, mul_div_right_comm]
  exact herror

end Ratio

/-! ## Products -/

section Products

variable {k : ℕ}

theorem IsFinite.mulNat_eq (h : x.IsFinite) (k : ℕ) :
    x.mulNat k = ofRatio x.isNegative (unitsOfRank x.rank * k) unitsPerOne := by
  rw [mulNat, h.magnitude_eq]

theorem mulNat_of_rank_eq (h : x.rank = infiniteRank) (k : ℕ) : x.mulNat k = x := by
  rw [mulNat, magnitude_of_rank_eq h]

theorem IsNaN.mulNat_eq (h : x.IsNaN) (k : ℕ) : x.mulNat k = x := by
  rw [mulNat, h.magnitude_eq]

theorem value_mul_eq (x : Double) (k : ℕ) :
    x.value * k = withSign x.isNegative ((unitsOfRank x.rank * k : ℕ) / unitsPerOne) := by
  rw [value, withSign_mul]
  push_cast
  rw [div_mul_eq_mul_div]

theorem abs_value_mul (x : Double) (k : ℕ) :
    |x.value * k| = (unitsOfRank x.rank * k : ℕ) / unitsPerOne := by
  rw [value_mul_eq, abs_withSign, abs_of_nonneg (by positivity)]

theorem IsFinite.isFinite_mulNat (h : x.IsFinite) (hsmall : |x.value * k| < 2 ^ 64) :
    (x.mulNat k).IsFinite := by
  rw [h.mulNat_eq]
  refine isFinite_ofRatio unitsPerOne_pos ?_
  rw [abs_value_mul, div_lt_iff₀ cast_unitsPerOne_pos, mul_comm (2 ^ 64)] at hsmall
  -- As a number `unitsPerOne` would be computed.
  generalize unitsPerOne = one at hsmall ⊢
  exact_mod_cast hsmall

/-- A product is rounded once. -/
theorem IsFinite.abs_value_mulNat_sub_le (h : x.IsFinite) (hk : (x.mulNat k).IsFinite) :
    |(x.mulNat k).value - x.value * k| ≤
      max ((1 / 2 : ℚ) / unitsPerOne) (|x.value * k| / 2 ^ 53) := by
  rw [h.mulNat_eq] at hk ⊢
  rw [abs_value_mul, value_mul_eq]
  exact abs_value_ofRatio_sub_le unitsPerOne_pos hk

theorem IsFinite.mulNat_neg (h : x.IsFinite) (k : ℕ) : x.neg.mulNat k = (x.mulNat k).neg := by
  have hneg : x.neg.IsFinite := by rwa [IsFinite, rank_neg]
  rw [hneg.mulNat_eq, h.mulNat_eq, isNegative_neg, rank_neg, neg, isNegative_ofRatio, rank_ofRatio,
    ofRatio]

end Products

end Double

end PathIdentity
