import PathIdentity.Decoding
import Mathlib.Logic.Basic

/-!
# When decoding succeeds

Decoders are chains of parts, any of which may fail. The lemmas take a chain that succeeds apart
into the values that its parts give.
-/

namespace PathIdentity

namespace Decoded

variable {α β : Type} {x : Decoded α} {b : β}

theorem bind_eq_ok_iff {f : α → Decoded β} : x >>= f = .ok b ↔ ∃ a, x = .ok a ∧ f a = .ok b := by
  cases x with
  | ok a => simp [bind, Except.bind]
  | error e => simp [bind, Except.bind]

theorem map_eq_ok_iff {f : α → β} : f <$> x = .ok b ↔ ∃ a, x = .ok a ∧ f a = b := by
  cases x with
  | ok a => simp [Functor.map, Except.map]
  | error e => simp [Functor.map, Except.map]

theorem pure_eq_ok_iff {a : β} : (pure a : Decoded β) = .ok b ↔ a = b := by
  simp [pure, Except.pure]

end Decoded

end PathIdentity
