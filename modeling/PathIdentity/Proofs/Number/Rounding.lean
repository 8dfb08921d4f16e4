import PathIdentity.Number.Double
import Mathlib.Data.Rat.Cast.Order
import Mathlib.Tactic.FieldSimp
import Mathlib.Tactic.Linarith
import Mathlib.Tactic.Positivity
import Mathlib.Tactic.Ring

/-!
# Rounding to ranks

A rank is a number of binades with a significand, `exponent * binade + significand`, and stands for
`significand * 2 ^ exponent` units (`unitsOfRank_mul_add`). So units grow strictly with the rank,
and the units of a rank are a multiple of `2 ^ exponent` or below `binade * 2 ^ exponent`.

`nearestRank num den` is the rank that `roundToRank` rounds a quotient in units to, before it is
bounded by infinity. It grows with the numerator (`nearestRank_mono`), no rank is nearer to the
quotient (`abs_unitsOfRank_nearestRank_sub_le`), and it misses the quotient by half a unit or by one
part in `2 ^ 53` at most (`abs_unitsOfRank_nearestRank_sub_le_max`).
-/

namespace PathIdentity

/-! ## Ranks and their units -/

theorem binade_eq : binade = 2 ^ 52 := rfl

theorem binade_pos : 0 < binade := by decide

/-- A significand below a binade stands alone, as a single unit is the least step. -/
theorem unitsOfRank_mul_add {exponent significand : ℕ}
    (hnormal : exponent = 0 ∨ binade ≤ significand) (hle : significand ≤ 2 * binade) :
    unitsOfRank (exponent * binade + significand) = significand * 2 ^ exponent := by
  have hpos := binade_pos
  rw [unitsOfRank]
  by_cases hlt : significand < binade
  · obtain rfl : exponent = 0 := by omega
    rw [Nat.zero_mul, Nat.zero_add, if_pos hlt, pow_zero, Nat.mul_one]
  · have hrank : ¬ exponent * binade + significand < binade := by
      have := Nat.zero_le (exponent * binade)
      omega
    rw [if_neg hrank, Nat.pow_eq]
    rcases Nat.lt_or_ge significand (2 * binade) with hlt2 | hge2
    · obtain ⟨fraction, rfl⟩ := Nat.exists_eq_add_of_le (not_lt.1 hlt)
      have hfraction : fraction < binade := by omega
      have hsum : exponent * binade + (binade + fraction) = fraction + (exponent + 1) * binade := by
        ring
      rw [hsum, Nat.add_mul_mod_self_right, Nat.mod_eq_of_lt hfraction,
        Nat.add_mul_div_right _ _ hpos, Nat.div_eq_of_lt hfraction, Nat.zero_add,
        Nat.add_sub_cancel, Nat.add_comm]
    · obtain rfl : significand = 2 * binade := le_antisymm hle hge2
      have hsum : exponent * binade + 2 * binade = (exponent + 2) * binade := by ring
      rw [hsum, Nat.mul_mod_left, Nat.mul_div_cancel _ hpos, Nat.zero_add,
        show exponent + 2 - 1 = exponent + 1 from rfl, pow_succ]
      ring

theorem exists_eq_mul_add (rank : ℕ) : ∃ exponent significand,
    rank = exponent * binade + significand ∧ (exponent = 0 ∨ binade ≤ significand) ∧
      significand < 2 * binade := by
  have hmod := Nat.mod_lt rank binade_pos
  have hdiv := Nat.div_add_mod' rank binade
  rcases Nat.eq_zero_or_pos (rank / binade) with hzero | hpos
  · refine ⟨0, rank, by simp, Or.inl rfl, ?_⟩
    rw [hzero, Nat.zero_mul, Nat.zero_add] at hdiv
    omega
  · refine ⟨rank / binade - 1, rank % binade + binade, ?_, Or.inr (by omega), by omega⟩
    obtain ⟨exponent, hexponent⟩ := Nat.exists_eq_add_of_lt hpos
    rw [Nat.zero_add] at hexponent
    rw [hexponent, Nat.add_mul, Nat.one_mul] at hdiv
    rw [hexponent, Nat.add_sub_cancel]
    omega

theorem strictMono_unitsOfRank : StrictMono unitsOfRank := by
  refine strictMono_nat_of_lt_succ fun rank => ?_
  obtain ⟨exponent, significand, rfl, hnormal, hlt⟩ := exists_eq_mul_add rank
  rw [Nat.add_assoc, unitsOfRank_mul_add hnormal hlt.le,
    unitsOfRank_mul_add (hnormal.imp_right fun h => by omega) hlt]
  exact Nat.mul_lt_mul_of_pos_right (Nat.lt_succ_self _) (Nat.two_pow_pos _)

@[simp] theorem unitsOfRank_zero : unitsOfRank 0 = 0 := rfl

/-- The units of a rank lie on the grid of an exponent, or below the first binade of that grid. -/
theorem dvd_unitsOfRank_or_lt (exponent rank : ℕ) :
    2 ^ exponent ∣ unitsOfRank rank ∨
      0 < exponent ∧ unitsOfRank rank < binade * 2 ^ exponent := by
  obtain ⟨own, significand, rfl, hnormal, hlt⟩ := exists_eq_mul_add rank
  rw [unitsOfRank_mul_add hnormal hlt.le]
  rcases Nat.lt_or_ge own exponent with hexp | hexp
  · right
    refine ⟨by omega, ?_⟩
    calc significand * 2 ^ own
        < 2 * binade * 2 ^ own := Nat.mul_lt_mul_of_pos_right hlt (Nat.two_pow_pos _)
      _ = binade * 2 ^ (own + 1) := by rw [pow_succ]; ring
      _ ≤ binade * 2 ^ exponent :=
        Nat.mul_le_mul_left _ (Nat.pow_le_pow_right Nat.two_pos hexp)
  · exact Or.inl (Dvd.dvd.mul_left (pow_dvd_pow 2 hexp) significand)

/-! ## Whole quotients -/

section Quotients

variable {num num' den : ℕ}

theorem div_le_divHalfEven (num den : ℕ) : num / den ≤ divHalfEven num den := by
  unfold divHalfEven
  dsimp only
  split <;> omega

theorem divHalfEven_le_div_add_one (num den : ℕ) : divHalfEven num den ≤ num / den + 1 := by
  unfold divHalfEven
  dsimp only
  split <;> omega

theorem divHalfEven_mono (h : num ≤ num') : divHalfEven num den ≤ divHalfEven num' den := by
  have hdiv : num / den ≤ num' / den := Nat.div_le_div_right h
  rcases hdiv.lt_or_eq with hlt | heq
  · have := divHalfEven_le_div_add_one num den
    have := div_le_divHalfEven num' den
    omega
  · have hmod := Nat.div_add_mod num den
    have hmod' := Nat.div_add_mod num' den
    rw [← heq] at hmod'
    unfold divHalfEven
    dsimp only
    rw [← heq]
    split <;> split <;> omega

/-- A whole quotient is within a half of the quotient. -/
theorem abs_divHalfEven_sub_le (num : ℕ) (hden : 0 < den) :
    |(divHalfEven num den : ℚ) - num / den| ≤ 1 / 2 := by
  have hpos : (0 : ℚ) < den := by exact_mod_cast hden
  have hmod := Nat.div_add_mod num den
  have hlt := Nat.mod_lt num hden
  have hlow : 2 * num ≤ 2 * (den * divHalfEven num den) + den := by
    unfold divHalfEven
    dsimp only
    split
    · omega
    · rw [Nat.mul_add]
      omega
  have hhigh : 2 * (den * divHalfEven num den) ≤ 2 * num + den := by
    unfold divHalfEven
    dsimp only
    split
    · omega
    · rw [Nat.mul_add]
      omega
  have hlow : (2 * num : ℚ) ≤ 2 * (den * divHalfEven num den) + den := by exact_mod_cast hlow
  have hhigh : (2 * (den * divHalfEven num den) : ℚ) ≤ 2 * num + den := by exact_mod_cast hhigh
  rw [abs_le]
  constructor
  · rw [le_sub_iff_add_le, ← sub_eq_neg_add, sub_le_iff_le_add, div_le_iff₀ hpos]
    linarith
  · rw [sub_le_iff_le_add, ← sub_le_iff_le_add', le_div_iff₀ hpos]
    linarith

/-- No whole number is nearer to a number than one within a half of it. -/
theorem abs_sub_le_abs_sub_of_le_half {m n : ℤ} {q : ℚ} (h : |(m : ℚ) - q| ≤ 1 / 2) :
    |(m : ℚ) - q| ≤ |(n : ℚ) - q| := by
  by_cases hmn : m = n
  · rw [hmn]
  · have hone : (1 : ℚ) ≤ |(m : ℚ) - n| := by
      exact_mod_cast Int.one_le_abs (sub_ne_zero.2 hmn)
    have htriangle : |(m : ℚ) - n| ≤ |(m : ℚ) - q| + |(n : ℚ) - q| := by
      rw [abs_sub_comm (n : ℚ) q]
      exact abs_sub_le _ _ _
    linarith

end Quotients

/-! ## The nearest rank -/

/-- The exponent of the grid that a quotient in units is rounded on. -/
def roundingExponent (num den : ℕ) : ℕ := (num / den).log2 - 52

/-- The rank nearest to a quotient in units, as if ranks had no end. -/
def nearestRank (num den : ℕ) : ℕ :=
  roundingExponent num den * binade + divHalfEven num (den * 2 ^ roundingExponent num den)

theorem roundToRank_eq_min (num den : ℕ) :
    roundToRank num den = min (nearestRank (num * unitsPerOne) den) infiniteRank := rfl

section Nearest

variable {num num' den : ℕ}

/-- A quotient has at most 53 bits above its grid. -/
theorem div_lt_of_roundingExponent (num den : ℕ) :
    num / (den * 2 ^ roundingExponent num den) < 2 * binade := by
  rw [← Nat.div_div_eq_div_mul, Nat.div_lt_iff_lt_mul (Nat.two_pow_pos _)]
  calc num / den
      < 2 ^ ((num / den).log2 + 1) := Nat.lt_log2_self
    _ ≤ 2 ^ (53 + roundingExponent num den) :=
      Nat.pow_le_pow_right Nat.two_pos (by unfold roundingExponent; omega)
    _ = 2 * binade * 2 ^ roundingExponent num den := by rw [pow_add, binade_eq]; ring

/-- Above single units it has exactly 53 bits. -/
theorem roundingExponent_eq_zero_or_le (num den : ℕ) : roundingExponent num den = 0 ∨
    binade ≤ num / (den * 2 ^ roundingExponent num den) := by
  rcases Nat.eq_zero_or_pos (roundingExponent num den) with hzero | hpos
  · exact Or.inl hzero
  · right
    have hlog : (num / den).log2 = 52 + roundingExponent num den := by
      unfold roundingExponent at hpos ⊢
      omega
    have hne : num / den ≠ 0 := by
      intro h
      rw [h, Nat.log2_zero] at hlog
      omega
    rw [← Nat.div_div_eq_div_mul, Nat.le_div_iff_mul_le (Nat.two_pow_pos _), binade_eq, ← pow_add,
      ← hlog]
    exact Nat.log2_self_le hne

theorem unitsOfRank_nearestRank (num den : ℕ) : unitsOfRank (nearestRank num den) =
    divHalfEven num (den * 2 ^ roundingExponent num den) * 2 ^ roundingExponent num den := by
  refine unitsOfRank_mul_add ((roundingExponent_eq_zero_or_le num den).imp_right fun h => ?_) ?_
  · exact h.trans (div_le_divHalfEven _ _)
  · have hle := divHalfEven_le_div_add_one num (den * 2 ^ roundingExponent num den)
    have hlt := div_lt_of_roundingExponent num den
    omega

theorem nearestRank_le {k : ℕ} (h : num / den < 2 ^ (k + 53)) :
    nearestRank num den ≤ (k + 2) * binade := by
  have hexponent : roundingExponent num den ≤ k := by
    unfold roundingExponent
    rcases Nat.eq_zero_or_pos (num / den) with hzero | hpos
    · rw [hzero, Nat.log2_zero]
      omega
    · have := (Nat.log2_lt hpos.ne').2 h
      omega
  have hle := divHalfEven_le_div_add_one num (den * 2 ^ roundingExponent num den)
  have hlt := div_lt_of_roundingExponent num den
  have hmul := Nat.mul_le_mul_right binade hexponent
  rw [Nat.add_mul, nearestRank]
  omega

/-- Rounding never changes the order. -/
theorem nearestRank_mono (h : num ≤ num') : nearestRank num den ≤ nearestRank num' den := by
  have hlog : (num / den).log2 ≤ (num' / den).log2 := by
    rcases Nat.eq_zero_or_pos (num / den) with hzero | hpos
    · rw [hzero, Nat.log2_zero]
      exact Nat.zero_le _
    · have hdiv : num / den ≤ num' / den := Nat.div_le_div_right h
      rw [Nat.le_log2 (by omega)]
      exact (Nat.log2_self_le hpos.ne').trans hdiv
  have hexponent : roundingExponent num den ≤ roundingExponent num' den := by
    unfold roundingExponent
    omega
  rcases hexponent.lt_or_eq with hlt | heq
  · -- The significand stays below two binades, and that of the larger exponent has one at least.
    have hlow := divHalfEven_le_div_add_one num (den * 2 ^ roundingExponent num den)
    have hhigh := div_le_divHalfEven num' (den * 2 ^ roundingExponent num' den)
    have hbound := div_lt_of_roundingExponent num den
    have hnormal := (roundingExponent_eq_zero_or_le num' den).resolve_left (by omega)
    have hmul := Nat.mul_le_mul_right binade hlt
    rw [Nat.succ_mul] at hmul
    unfold nearestRank
    omega
  · unfold nearestRank
    rw [heq]
    exact Nat.add_le_add_left (divHalfEven_mono h) _

/-- Half a step of the grid bounds the error. -/
theorem abs_unitsOfRank_nearestRank_sub_le_half (num : ℕ) (hden : 0 < den) :
    |(unitsOfRank (nearestRank num den) : ℚ) - num / den| ≤
      2 ^ roundingExponent num den * (1 / 2) := by
  have hstep : (0 : ℚ) < 2 ^ roundingExponent num den := by positivity
  have herror := abs_divHalfEven_sub_le num
    (Nat.mul_pos hden (Nat.two_pow_pos (roundingExponent num den)))
  have hquotient : (unitsOfRank (nearestRank num den) : ℚ) - num / den =
      2 ^ roundingExponent num den *
        ((divHalfEven num (den * 2 ^ roundingExponent num den) : ℚ) -
          num / (den * 2 ^ roundingExponent num den : ℕ)) := by
    rw [unitsOfRank_nearestRank]
    push_cast
    field_simp
  rw [hquotient, abs_mul, abs_of_pos hstep]
  exact mul_le_mul_of_nonneg_left herror hstep.le

/-- Above single units, a binade of steps is at most the quotient. -/
theorem two_pow_mul_binade_le (hden : 0 < den) (hpos : 0 < roundingExponent num den) :
    (binade * 2 ^ roundingExponent num den : ℚ) ≤ num / den := by
  have hnormal := (roundingExponent_eq_zero_or_le num den).resolve_left hpos.ne'
  rw [Nat.le_div_iff_mul_le (Nat.mul_pos hden (Nat.two_pow_pos _))] at hnormal
  have hcast : (binade * (den * 2 ^ roundingExponent num den) : ℚ) ≤ num := by
    exact_mod_cast hnormal
  rw [le_div_iff₀ (by exact_mod_cast hden)]
  linarith

/-- No rank is nearer to the quotient. -/
theorem abs_unitsOfRank_nearestRank_sub_le (hden : 0 < den) (rank : ℕ) :
    |(unitsOfRank (nearestRank num den) : ℚ) - num / den| ≤
      |(unitsOfRank rank : ℚ) - num / den| := by
  have hstep : (0 : ℚ) < 2 ^ roundingExponent num den := by positivity
  -- Rounding on the grid is rounding to whole numbers of steps.
  have hgrid (k : ℕ) : |(unitsOfRank (nearestRank num den) : ℚ) - num / den| ≤
      |(k * 2 ^ roundingExponent num den : ℚ) - num / den| := by
    have herror := abs_divHalfEven_sub_le num
      (Nat.mul_pos hden (Nat.two_pow_pos (roundingExponent num den)))
    have hscale (m : ℕ) : |(m * 2 ^ roundingExponent num den : ℚ) - num / den| =
        2 ^ roundingExponent num den *
          |((m : ℤ) : ℚ) - num / (den * 2 ^ roundingExponent num den : ℕ)| := by
      rw [← abs_of_pos hstep, ← abs_mul, abs_of_pos hstep]
      congr 1
      push_cast
      field_simp
    rw [unitsOfRank_nearestRank]
    push_cast
    rw [hscale, hscale]
    exact mul_le_mul_of_nonneg_left (abs_sub_le_abs_sub_of_le_half herror) hstep.le
  rcases dvd_unitsOfRank_or_lt (roundingExponent num den) rank with ⟨k, hk⟩ | ⟨hpos, hlt⟩
  · have hcast : (unitsOfRank rank : ℚ) = k * 2 ^ roundingExponent num den := by
      rw [hk, Nat.mul_comm]
      push_cast
      rfl
    rw [hcast]
    exact hgrid k
  · have hbelow : (unitsOfRank rank : ℚ) ≤ binade * 2 ^ roundingExponent num den := by
      exact_mod_cast hlt.le
    have habove := two_pow_mul_binade_le hden hpos
    refine (hgrid binade).trans ?_
    rw [abs_of_nonpos (by linarith), abs_of_nonpos (by linarith)]
    linarith

/-- The error is half a unit or one part in `2 ^ 53` of the quotient at most. -/
theorem abs_unitsOfRank_nearestRank_sub_le_max (num : ℕ) (hden : 0 < den) :
    |(unitsOfRank (nearestRank num den) : ℚ) - num / den| ≤
      max (1 / 2) ((num / den : ℚ) / 2 ^ 53) := by
  have herror := abs_unitsOfRank_nearestRank_sub_le_half num hden
  rcases Nat.eq_zero_or_pos (roundingExponent num den) with hzero | hpos
  · rw [hzero, pow_zero, one_mul] at herror
    exact herror.trans (le_max_left _ _)
  · refine herror.trans ((?_ : _ ≤ _).trans (le_max_right _ _))
    have hbinade := two_pow_mul_binade_le hden hpos
    have hcast : (binade : ℚ) = 2 ^ 52 := by exact_mod_cast binade_eq
    rw [hcast] at hbinade
    rw [le_div_iff₀ (by positivity)]
    linarith

end Nearest

end PathIdentity
