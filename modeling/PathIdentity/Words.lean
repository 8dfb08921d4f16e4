import PathIdentity.Mix
import PathIdentity.Ticks

/-!
# The words of a value

`Words.words` gives the words under which a value is hashed. Integers are one word, negative ones
in two's complement; a time is the word of its ticks, so times of equal ticks are indistinguishable
in any hash. An option is a presence word, followed by the words of the value where there is one.
-/

namespace PathIdentity

/-- Types whose values are hashed as a list of words. -/
class Words (α : Type) where
  words : α → List UInt64

export Words (words)

/-- The running hash after a value. -/
def mix {α : Type} [Words α] (hash : UInt64) (a : α) : UInt64 := mixAll hash (words a)

instance : Words UInt8 := ⟨fun n => [n.toUInt64]⟩
instance : Words UInt16 := ⟨fun n => [n.toUInt64]⟩
instance : Words UInt32 := ⟨fun n => [n.toUInt64]⟩
instance : Words UInt64 := ⟨fun n => [n]⟩
instance : Words Int32 := ⟨fun n => [n.toInt64.toUInt64]⟩
instance : Words Int64 := ⟨fun n => [n.toUInt64]⟩
instance : Words Bool := ⟨fun b => [b.toUInt64]⟩
instance : Words Double := ⟨fun seconds => words (quantize seconds)⟩

instance {α : Type} [Words α] : Words (Option α) where
  words
    | none => words false
    | some a => words true ++ words a

end PathIdentity
