import PathIdentity.Mix
import Mathlib.Algebra.Group.Fin.Basic
import Mathlib.Algebra.Ring.Nat
import Mathlib.Data.FinEnum
import Mathlib.Logic.Function.Basic

/-!
# The mixer loses nothing

Each stage of `mixWord` is injective, so `mixWord` is injective in the word and in the running hash,
and `mixAll` determines every single word from the others and from the hash (`mixAll_inj_at`). There
are finitely many words, so nothing is missed either: all these maps are bijections
(`mixing_bijective`).

* `swapHalves`, `foldSeed` and `mixLength` are their own inverses; `mixHigh` changes no bit without
  changing a higher one.
* Multiplication by `multiplier` is undone by its inverse modulo `2 ^ 64`.
* `mixRotations` adds to each bit two others at fixed distances (`spread`). Done twice it adds those
  at twice the distances (`spread_spread`), and eight times the distances 49 and 24 are 8 and 0
  modulo 64, where it is a rotation.
-/

namespace PathIdentity

open Function

/-! ## Halves and bytes -/

theorem toNat_swapHalves (w : UInt64) :
    (swapHalves w).toNat = w.toNat % 2 ^ 32 * 2 ^ 32 + w.toNat / 2 ^ 32 := by
  have hw := w.toNat_lt
  have hright : (w >>> 32).toNat = w.toNat / 2 ^ 32 := by
    simp [Nat.shiftRight_eq_div_pow]
  have hleft : (w <<< 32).toNat = w.toNat * 2 ^ 32 % 2 ^ 64 := by
    simp [Nat.shiftLeft_eq]
  rw [swapHalves, UInt64.toNat_add, hright, hleft]
  omega

theorem swapHalves_involutive : Involutive swapHalves := by
  intro w
  apply UInt64.toNat_inj.1
  have hw := w.toNat_lt
  rw [toNat_swapHalves, toNat_swapHalves]
  omega

/-- Words with the same low half have the same low bytes. -/
theorem byte_congr {a b : UInt64} (h : a.toNat % 2 ^ 32 = b.toNat % 2 ^ 32) :
    a &&& 0xff = b &&& 0xff ∧ (a >>> 8) &&& (0xff : UInt64) = (b >>> 8) &&& 0xff ∧
      (a >>> 16) &&& (0xff : UInt64) = (b >>> 16) &&& 0xff ∧
      (a >>> 24) &&& (0xff : UInt64) = (b >>> 24) &&& 0xff := by
  have hbyte (v : UInt64) : (v &&& 0xff).toNat = v.toNat % 2 ^ 8 :=
    Nat.and_two_pow_sub_one_eq_mod v.toNat 8
  refine ⟨?_, ?_, ?_, ?_⟩ <;> apply UInt64.toNat_inj.1 <;> rw [hbyte, hbyte] <;>
    simp [Nat.shiftRight_eq_div_pow] <;> omega

/-- What is laid over the high half leaves the low one alone. -/
theorem toNat_xor_shiftLeft_mod (a x : UInt64) :
    (a ^^^ (x <<< 32)).toNat % 2 ^ 32 = a.toNat % 2 ^ 32 := by
  have hx : (x <<< 32).toNat % 2 ^ 32 = 0 := by
    simp [Nat.shiftLeft_eq]
  rw [UInt64.toNat_xor, Nat.xor_mod_two_pow, hx, Nat.xor_zero]

theorem foldSeed_involutive : Involutive foldSeed := by
  intro seed
  have hbytes : swapLowBytes (foldSeed seed) = swapLowBytes seed := by
    obtain ⟨h0, h8, h16, h24⟩ :=
      byte_congr (toNat_xor_shiftLeft_mod seed (swapLowBytes seed))
    simp only [swapLowBytes, foldSeed] at h0 h8 h16 h24 ⊢
    rw [h0, h8, h16, h24]
  rw [foldSeed, hbytes, foldSeed, UInt64.xor_assoc, UInt64.xor_self, UInt64.xor_zero]

theorem keyOfSeed_injective : Injective keyOfSeed := by
  intro a b h
  unfold keyOfSeed at h
  apply foldSeed_involutive.injective
  simpa using h

/-! ## Rotations -/

/-- The bit of a word at a place. -/
def bit (w : UInt64) (i : Fin 64) : Bool := w.toBitVec.getLsbD i

theorem bit_injective : Injective bit := by
  intro a b h
  apply UInt64.toBitVec_inj.1
  apply BitVec.eq_of_getLsbD_eq
  intro i hi
  exact congrFun h ⟨i, hi⟩

theorem bit_xor (a b : UInt64) (i : Fin 64) : bit (a ^^^ b) i = (bit a i ^^ bit b i) := by
  simp [bit]

/-- A rotation moves each bit up, and the places wrap around. -/
theorem bit_rotateUp (w n : UInt64) (hpos : 0 < n.toNat) (hn : n.toNat < 64) (i : Fin 64) :
    bit (rotateUp w n) i = bit w (i - Fin.ofNat 64 n.toNat) := by
  have hi := i.isLt
  have hback : (64 - n).toNat = 64 - n.toNat := by
    apply UInt64.toNat_sub_of_le
    rw [UInt64.le_iff_toNat_le]
    exact hn.le
  have hleft : (w <<< n).toBitVec = w.toBitVec <<< n.toNat := by
    simp [Nat.mod_eq_of_lt hn]
  have hright (m : UInt64) (hm : m.toNat < 64) : (w >>> m).toBitVec = w.toBitVec >>> m.toNat := by
    simp [Nat.mod_eq_of_lt hm]
  have hplace : (i - Fin.ofNat 64 n.toNat).val = (64 - n.toNat + i.val) % 64 := by
    simp [Fin.sub_def, Nat.mod_eq_of_lt hn]
  rw [bit, rotateUp, UInt64.toBitVec_or, hleft, hright _ (by omega), hback, bit, hplace,
    BitVec.getLsbD_or, BitVec.getLsbD_shiftLeft, BitVec.getLsbD_ushiftRight]
  by_cases h : i.val < n.toNat
  · simp [h, Nat.mod_eq_of_lt (show 64 - n.toNat + i.val < 64 by omega)]
  · have hmod : (64 - n.toNat + i.val) % 64 = i.val - n.toNat := by omega
    have hout : w.toBitVec.getLsbD (64 - n.toNat + i.val) = false :=
      BitVec.getLsbD_of_ge _ _ (by omega)
    simp [h, hmod, hout, hi]

/-- Adds to each bit the ones at the distances `a` and `b` below it, cyclically. -/
def spread (a b : Fin 64) (f : Fin 64 → Bool) (i : Fin 64) : Bool :=
  f i ^^ (f (i - a) ^^ f (i - b))

theorem bit_mixRotations (w : UInt64) : bit (mixRotations w) = spread 49 24 (bit w) := by
  funext i
  rw [mixRotations, bit_xor, bit_xor, bit_rotateUp w 49 (by decide) (by decide),
    bit_rotateUp w 24 (by decide) (by decide)]
  rfl

/-- The mixed terms cancel. -/
theorem spread_spread (a b : Fin 64) (f : Fin 64 → Bool) :
    spread a b (spread a b f) = spread (a + a) (b + b) f := by
  funext i
  simp only [spread, sub_sub, add_comm b a]
  cases f i <;> cases f (i - a) <;> cases f (i - b) <;> simp

theorem spread_injective_of_double {a b : Fin 64} (h : Injective (spread (a + a) (b + b))) :
    Injective (spread a b) := by
  have htwice : spread (a + a) (b + b) = spread a b ∘ spread a b :=
    funext fun f => (spread_spread a b f).symm
  rw [htwice] at h
  exact h.of_comp

/-- With a distance of zero only a rotation is left. -/
theorem spread_zero_injective (a : Fin 64) : Injective (spread a 0) := by
  have hrotation (f : Fin 64 → Bool) (i : Fin 64) : spread a 0 f i = f (i - a) := by
    rw [spread, sub_zero]
    cases f i <;> cases f (i - a) <;> rfl
  intro f g h
  funext i
  have hi := congrFun h (i + a)
  rwa [hrotation, hrotation, add_sub_cancel_right] at hi

theorem mixRotations_injective : Injective mixRotations := by
  have hspread : Injective (spread 49 24) := by
    apply spread_injective_of_double
    apply spread_injective_of_double
    apply spread_injective_of_double
    exact spread_zero_injective 8
  intro a b h
  apply bit_injective
  apply hspread
  rw [← bit_mixRotations, ← bit_mixRotations, h]

/-! ## Multiplications and shifts -/

theorem mul_multiplier_injective : Injective (· * multiplier) := by
  have hunit : multiplier * 0x2ab9c720d1024ad = 1 := by decide
  intro a b h
  have h : a * multiplier = b * multiplier := h
  calc a = a * multiplier * 0x2ab9c720d1024ad := by
          rw [UInt64.mul_assoc, hunit, UInt64.mul_one]
    _ = b := by rw [h, UInt64.mul_assoc, hunit, UInt64.mul_one]

theorem mixLength_involutive : Involutive mixLength := by
  intro w
  have hw := w.toNat_lt
  have hzero : ((w >>> 35) + 8) >>> 35 = 0 := by
    apply UInt64.toNat_inj.1
    simp [Nat.shiftRight_eq_div_pow]
    omega
  have hhigh : mixLength w >>> 35 = w >>> 35 := by
    rw [mixLength, UInt64.shiftRight_xor, hzero, UInt64.xor_zero]
  rw [mixLength, hhigh, mixLength, UInt64.xor_assoc, UInt64.xor_self, UInt64.xor_zero]

/-- The difference of words with the same image is its own high part, so it is zero. -/
theorem mixHigh_injective : Injective mixHigh := by
  intro a b h
  have h : a ^^^ a >>> 28 = b ^^^ b >>> 28 := h
  have hshift : (a ^^^ b) ^^^ (a ^^^ b) >>> 28 = 0 := by
    calc (a ^^^ b) ^^^ (a ^^^ b) >>> 28
        = (a ^^^ a >>> 28) ^^^ (b ^^^ b >>> 28) := by
          rw [UInt64.shiftRight_xor]
          ac_rfl
      _ = 0 := by rw [h, UInt64.xor_self]
  have hnat := congrArg UInt64.toNat (UInt64.xor_eq_zero_iff.1 hshift)
  rw [UInt64.toNat_shiftRight, Nat.shiftRight_eq_div_pow] at hnat
  have hzero : (a ^^^ b).toNat = 0 := by
    have hdiv : (a ^^^ b).toNat = (a ^^^ b).toNat / 2 ^ 28 := hnat
    omega
  exact UInt64.xor_eq_zero_iff.1 (UInt64.toNat_inj.1 hzero)

/-! ## The mixer -/

theorem finishMix_injective : Injective finishMix := by
  intro a b h
  apply mixRotations_injective
  apply mul_multiplier_injective
  apply mixLength_involutive.injective
  apply mul_multiplier_injective
  exact mixHigh_injective h

/-- Under one running hash different words give different hashes. -/
theorem mixWord_injective_word (hash : UInt64) : Injective (mixWord hash) := by
  intro v w h
  apply swapHalves_involutive.injective
  simpa using finishMix_injective h

/-- Different running hashes stay different. -/
theorem mixWord_injective_hash (word : UInt64) : Injective fun hash => mixWord hash word := by
  intro g h heq
  apply keyOfSeed_injective
  simpa using finishMix_injective heq

theorem mixAll_injective_hash (words : List UInt64) : Injective fun hash => mixAll hash words := by
  induction words with
  | nil => exact injective_id
  | cons word words ih =>
    intro g h heq
    exact mixWord_injective_hash word (ih heq)

/-- A single word is determined by the hash and the other words. -/
theorem mixAll_inj_at {hash v w : UInt64} (before after : List UInt64) :
    mixAll hash (before ++ v :: after) = mixAll hash (before ++ w :: after) ↔ v = w := by
  constructor
  · intro h
    rw [mixAll_append, mixAll_append] at h
    exact mixWord_injective_word _ (mixAll_injective_hash after h)
  · rintro rfl
    rfl

/-! ## Bijections -/

theorem mixWord_bijective_word (hash : UInt64) : Bijective (mixWord hash) :=
  Finite.injective_iff_bijective.1 (mixWord_injective_word hash)

theorem mixWord_bijective_hash (word : UInt64) : Bijective fun hash => mixWord hash word :=
  Finite.injective_iff_bijective.1 (mixWord_injective_hash word)

/-- Going back word by word, every hash comes from one start value. -/
theorem mixAll_bijective_hash (words : List UInt64) : Bijective fun hash => mixAll hash words := by
  induction words with
  | nil => exact bijective_id
  | cons word words ih => exact ih.comp (mixWord_bijective_hash word)

/-- Mixing loses nothing. Under each word the running hash is mixed by a bijection, and under each
running hash the word is. So in a list of words at any start value, exchanging one word for another
changes the hash; and the hash after a list of words has exactly one start value. -/
theorem mixing_bijective :
    (∀ word, Bijective fun hash => mixWord hash word) ∧ (∀ hash, Bijective (mixWord hash)) ∧
    (∀ (hash : UInt64) (before after : List UInt64) (v w : UInt64),
      mixAll hash (before ++ v :: after) = mixAll hash (before ++ w :: after) ↔ v = w) ∧
    ∀ words, Bijective fun hash => mixAll hash words := by
  refine ⟨mixWord_bijective_hash, mixWord_bijective_word, fun hash before after v w => ?_,
    mixAll_bijective_hash⟩
  exact mixAll_inj_at before after

example : mixWord 5381 0 = 0x3cc3e5a94b75821c := by decide

end PathIdentity
