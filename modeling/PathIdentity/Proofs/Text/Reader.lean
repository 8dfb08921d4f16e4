import PathIdentity.Text.Reader
import Mathlib.Logic.Basic

/-!
# What readers yield

`Reader.Yields r P` says that whatever `r` takes off a text satisfies `P`. There is a rule for each
way to put readers together.
-/

namespace PathIdentity.Reader

variable {α β : Type} {P : α → Prop} {Q : β → Prop}

/-- Whatever the reader takes off a text satisfies `P`. -/
def Yields (r : Reader α) (P : α → Prop) : Prop := ∀ cs a rest, r cs = some (a, rest) → P a

theorem Yields.bind {r : Reader α} {f : α → Reader β} (hr : Yields r P)
    (hf : ∀ a, P a → Yields (f a) Q) : Yields (r >>= f) Q := by
  intro cs b rest h
  obtain ⟨⟨a, mid⟩, ha, hb⟩ := Option.bind_eq_some_iff.1 h
  exact hf a (hr cs a mid ha) mid b rest hb

/-- The rule for a reader of which nothing needs to be known. -/
theorem Yields.after (r : Reader α) {f : α → Reader β} (hf : ∀ a, Yields (f a) Q) :
    Yields (r >>= f) Q :=
  Yields.bind (P := fun _ => True) (fun _ _ _ _ => trivial) fun a _ => hf a

theorem yields_pure {a : α} (h : P a) : Yields (pure a) P := by
  intro cs b rest hb
  cases hb
  exact h

theorem yields_failure : Yields failure P := nofun

theorem Yields.map {r : Reader α} {f : α → β} (hr : Yields r P) (hf : ∀ a, P a → Q (f a)) :
    Yields (f <$> r) Q := by
  intro cs b rest h
  obtain ⟨⟨a, mid⟩, ha, hb⟩ := Option.bind_eq_some_iff.1 h
  cases hb
  exact hf a (hr cs a _ ha)

/-- The rule for a function whose values satisfy `Q` anyway. -/
theorem yields_map (r : Reader α) {f : α → β} (hf : ∀ a, Q (f a)) : Yields (f <$> r) Q :=
  Yields.map (P := fun _ => True) (fun _ _ _ _ => trivial) fun a _ => hf a

theorem Yields.orElse {r r' : Reader α} (hr : Yields r P) (hr' : Yields r' P) :
    Yields (r <|> r') P := by
  intro cs a rest h
  change ((r cs).orElse fun _ => r' cs) = some (a, rest) at h
  cases hcs : r cs with
  | none => exact hr' cs a rest (by simpa [hcs] using h)
  | some found => exact hr cs a rest (by simpa [hcs] using h)

theorem manyWithin_yields {item : Reader α} (h : Yields item P) (fuel : List Char)
    {found : List α} (hfound : ∀ a ∈ found, P a) (cs : List Char) :
    ∀ a ∈ (manyWithin item fuel found cs).1, P a := by
  induction fuel generalizing found cs with
  | nil => simpa [manyWithin] using hfound
  | cons _ fuel ih =>
    rw [manyWithin]
    cases hitem : item cs with
    | none => simpa using hfound
    | some taken =>
      obtain ⟨a, rest⟩ := taken
      exact ih (List.forall_mem_cons.2 ⟨h cs a rest hitem, hfound⟩) rest

theorem Yields.many {item : Reader α} (h : Yields item P) :
    Yields (many item) fun found => ∀ a ∈ found, P a := by
  intro cs found rest hmany
  have hfound : (manyWithin item cs [] cs).1 = found := congrArg Prod.fst (Option.some.inj hmany)
  exact hfound ▸ manyWithin_yields h cs (by simp) cs

theorem commaItemsWithin_yields {blank : Reader Unit} {item : Reader α} {closing : Char}
    {trailing : Bool} (h : Yields item P) (fuel : List Char) :
    Yields (commaItemsWithin blank item closing trailing fuel) fun found => ∀ a ∈ found, P a := by
  induction fuel with
  | nil => exact yields_failure
  | cons _ fuel ih =>
    refine h.bind fun a ha => .after _ fun _ => .after _ fun next => ?_
    have hone : ∀ b ∈ [a], P b := by simpa using ha
    split
    · refine .after _ fun _ => .after _ fun _ => .after _ fun _ => ?_
      split
      · exact .after _ fun _ => yields_pure hone
      · exact ih.bind fun found hfound => yields_pure (List.forall_mem_cons.2 ⟨ha, hfound⟩)
    · exact .after _ fun _ => yields_pure hone

theorem Yields.commaItems {blank : Reader Unit} {item : Reader α} {closing : Char} {trailing : Bool}
    (h : Yields item P) :
    Yields (commaItems blank item closing trailing) fun found => ∀ a ∈ found, P a := by
  refine .after _ fun _ => .after _ fun _ => ?_
  split
  · exact .after _ fun _ => yields_pure (by simp)
  · exact fun cs => commaItemsWithin_yields h cs cs

end PathIdentity.Reader
