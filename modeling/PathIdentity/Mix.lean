/-!
# Mixing words into a hash

An identity is hashed as a list of 64-bit words: `mixAll start words` folds `mixWord` over the
words from a start value, so each running hash is the seed under which the next word is mixed.

`mixWord` is the 64-bit XXH3 hash of eight little-endian bytes under a seed. It is written as a
chain of stages, each a function of one word: the seed is folded (`foldSeed`) and keyed
(`keyOfSeed`), the word has its halves exchanged (`swapHalves`), the two meet in an exclusive or,
and the result passes `mixRotations`, two multiplications by `multiplier` around `mixLength`, and
`mixHigh`.
-/

namespace PathIdentity

/-! ## Stages -/

/-- The word with its bits moved up by `n` places, those moved out coming back at the bottom. -/
def rotateUp (w : UInt64) (n : UInt64) : UInt64 := (w <<< n) ||| (w >>> (64 - n))

/-- The word with its low and high halves exchanged. -/
def swapHalves (w : UInt64) : UInt64 := (w >>> 32) + (w <<< 32)

/-- The low four bytes of a word in reverse order, as a 32-bit number. -/
def swapLowBytes (w : UInt64) : UInt64 :=
  let byte : UInt64 := 0xff
  ((w &&& byte) <<< 24) ||| ((w >>> 8 &&& byte) <<< 16) |||
    ((w >>> 16 &&& byte) <<< 8) ||| (w >>> 24 &&& byte)

/-- The seed with its low half, byte-reversed, laid over its high half. -/
def foldSeed (seed : UInt64) : UInt64 := seed ^^^ (swapLowBytes seed <<< 32)

/-- The key that a folded seed gives: a fixed secret less the seed. -/
def keyOfSeed (seed : UInt64) : UInt64 :=
  (0x1cad21f72c81017c ^^^ 0xdb979083e96dd4de) - foldSeed seed

/-- Each bit meets two others, 49 and 24 places below it, cyclically. -/
def mixRotations (w : UInt64) : UInt64 := w ^^^ (rotateUp w 49 ^^^ rotateUp w 24)

/-- The odd multiplier of the mixer. -/
def multiplier : UInt64 := 0x9fb21c651e98df25

/-- The high 29 bits and the length, eight bytes, meet the low bits. -/
def mixLength (w : UInt64) : UInt64 := w ^^^ ((w >>> 35) + 8)

/-- The high 36 bits meet the low ones. -/
def mixHigh (w : UInt64) : UInt64 := w ^^^ (w >>> 28)

/-- The stages after word and key have met. -/
def finishMix (w : UInt64) : UInt64 :=
  mixHigh (mixLength (mixRotations w * multiplier) * multiplier)

/-! ## The mixer -/

/-- The running hash after one more word. -/
def mixWord (hash word : UInt64) : UInt64 :=
  finishMix (swapHalves word ^^^ keyOfSeed hash)

/-- The start value of every identity hash. -/
def hashStart : UInt64 := 5381

/-- The running hash after a list of words. -/
def mixAll (hash : UInt64) (words : List UInt64) : UInt64 := words.foldl mixWord hash

@[simp] theorem mixAll_nil (hash : UInt64) : mixAll hash [] = hash := rfl

@[simp] theorem mixAll_cons (hash word : UInt64) (words : List UInt64) :
    mixAll hash (word :: words) = mixAll (mixWord hash word) words := rfl

theorem mixAll_append (hash : UInt64) (xs ys : List UInt64) :
    mixAll hash (xs ++ ys) = mixAll (mixAll hash xs) ys := List.foldl_append

end PathIdentity
