import PathIdentity.Proofs.Clock.Words
import PathIdentity.Proofs.Pool.Comparison

/-!
# Near misses

The mixer determines every word from the others and the hash, so lists of words that differ at one
place have different hashes (`OneApart.mixAll_ne`). Two kinds of identity come that close.

* Matcher states that differ in one field have words that differ at one place. For sets of them that
  differ in one state, and there in one field, the hashes of the states differ at one place.
* Clock contexts that differ in one value that takes part in the hash have words that differ at one
  place (`ClockInfo.OneChange.oneApart_words`), as long as the value is present in both.

So none of them collide (`near_misses_hash_apart`).
-/

namespace PathIdentity

/-! ## Lists that differ at one place -/

/-- The lists have the same length and differ at one place, where `r` relates what they hold. -/
def OneApart {α : Type} (r : α → α → Prop) (l m : List α) : Prop :=
  ∃ before x y after, l = before ++ x :: after ∧ m = before ++ y :: after ∧ r x y

namespace OneApart

variable {α β : Type} {r : α → α → Prop} {l m : List α}

theorem append_left (h : OneApart r l m) (xs : List α) : OneApart r (xs ++ l) (xs ++ m) := by
  obtain ⟨before, x, y, after, rfl, rfl, hxy⟩ := h
  exact ⟨xs ++ before, x, y, after, (List.append_assoc ..).symm, (List.append_assoc ..).symm, hxy⟩

theorem append_right (h : OneApart r l m) (xs : List α) : OneApart r (l ++ xs) (m ++ xs) := by
  obtain ⟨before, x, y, after, rfl, rfl, hxy⟩ := h
  exact ⟨before, x, y, after ++ xs, List.append_assoc .., List.append_assoc .., hxy⟩

theorem map {q : β → β → Prop} {f : α → β} (h : OneApart r l m)
    (hf : ∀ x y, r x y → q (f x) (f y)) : OneApart q (l.map f) (m.map f) := by
  obtain ⟨before, x, y, after, rfl, rfl, hxy⟩ := h
  exact ⟨before.map f, f x, f y, after.map f, by simp, by simp, hf x y hxy⟩

theorem left_ne_nil (h : OneApart r l m) : l ≠ [] := by
  obtain ⟨before, x, y, after, rfl, -⟩ := h
  exact List.append_ne_nil_of_right_ne_nil before (List.cons_ne_nil x after)

theorem right_ne_nil (h : OneApart r l m) : m ≠ [] := by
  obtain ⟨before, x, y, after, -, rfl, -⟩ := h
  exact List.append_ne_nil_of_right_ne_nil before (List.cons_ne_nil y after)

/-- Lists of words that differ at one place leave different hashes. -/
theorem mixAll_ne {l m : List UInt64} (h : OneApart (· ≠ ·) l m) (hash : UInt64) :
    mixAll hash l ≠ mixAll hash m := by
  obtain ⟨before, x, y, after, rfl, rfl, hxy⟩ := h
  exact mt (mixAll_inj_at before after).1 hxy

end OneApart

/-- Different values of one word have words that differ at one place. -/
theorem oneApart_of_ne {α : Type} [Words α] [PrefixCode α]
    (hlength : ∀ a : α, (words a).length = 1) {a b : α} (h : a ≠ b) :
    OneApart (· ≠ ·) (words a) (words b) := by
  obtain ⟨x, hx⟩ := List.length_eq_one_iff.1 (hlength a)
  obtain ⟨y, hy⟩ := List.length_eq_one_iff.1 (hlength b)
  refine ⟨[], x, y, [], hx, hy, fun hxy => h ?_⟩
  have hwords : words a ++ [] = words b ++ [] := by rw [hx, hy, hxy]
  exact (PrefixCode.split hwords).1

theorem oneApart_some_of_ne {α : Type} [Words α] [PrefixCode α]
    (hlength : ∀ a : α, (words a).length = 1) {a b : α} (h : a ≠ b) :
    OneApart (· ≠ ·) (words (some a)) (words (some b)) :=
  (oneApart_of_ne hlength h).append_left (words true)

/-! ## Matcher states -/

namespace MatcherState

/-- One field has another value. -/
inductive OneChange (a : MatcherState) : MatcherState → Prop
  | exception {exception : ExceptionId} (h : a.exception ≠ exception) :
    OneChange a { a with exception }
  | kind {kind : ExceptionKind} (h : a.kind ≠ kind) : OneChange a { a with kind }
  | index {index : UInt32} (h : a.index ≠ index) : OneChange a { a with index }

theorem OneChange.oneApart_words {a b : MatcherState} (h : a.OneChange b) :
    OneApart (· ≠ ·) (words a) (words b) := by
  cases h with
  | exception h =>
    exact ((oneApart_of_ne (fun _ => rfl) h).append_right _).append_right _
  | kind h =>
    have hordinal : a.kind.ordinal ≠ _ := fun heq => h (ordinal_injective heq)
    exact (OneApart.append_left ⟨[], _, _, [], rfl, rfl, hordinal⟩ _).append_right _
  | index h => exact (oneApart_of_ne (fun _ => rfl) h).append_left _

theorem OneChange.stateHash_ne {a b : MatcherState} (h : a.OneChange b) :
    stateHash a ≠ stateHash b :=
  h.oneApart_words.mixAll_ne hashStart

theorem setHash_ne_of_oneApart {l m : List MatcherState} (h : OneApart OneChange l m) :
    setHash l ≠ setHash m :=
  (h.map fun _ _ => OneChange.stateHash_ne).mixAll_ne hashStart

end MatcherState

/-! ## Clock contexts -/

namespace ClockInfo

/-- One value that takes part in the hash is another one; if it may be absent, it is present in
both. -/
inductive OneChange (c : ClockInfo) : ClockInfo → Prop
  | edge {x y : ClockEdgeId} (hc : c.edge = some x) (h : x ≠ y) :
    OneChange c { c with edge := some y }
  | source {x y : PinId} (hc : c.source = some x) (h : x ≠ y) :
    OneChange c { c with source := some y }
  | generatedSource {x y : PinId} (hc : c.generatedSource = some x) (h : x ≠ y) :
    OneChange c { c with generatedSource := some y }
  | vertex {x y : PathRef} (hhashed : c.crprHashed = true) (hc : c.crprPath = some x)
    (h : x.vertex ≠ y.vertex) : OneChange c { c with crprPath := some y }
  | minUncertainty {x y : Double} {max : Option Double} (hc : c.uncertainties = some ⟨some x, max⟩)
    (h : quantize x ≠ quantize y) : OneChange c { c with uncertainties := some ⟨some y, max⟩ }
  | maxUncertainty {x y : Double} {min : Option Double} (hc : c.uncertainties = some ⟨min, some x⟩)
    (h : quantize x ≠ quantize y) : OneChange c { c with uncertainties := some ⟨min, some y⟩ }
  | latency {x : Double} (h : quantize c.latency ≠ quantize x) : OneChange c { c with latency := x }
  | insertion {x : Double} (h : quantize c.insertion ≠ quantize x) :
    OneChange c { c with insertion := x }
  | analysisPoint {x : PathApIndex} (h : c.analysisPoint ≠ x) :
    OneChange c { c with analysisPoint := x }

theorem OneChange.oneApart_words {c d : ClockInfo} (h : c.OneChange d) :
    OneApart (· ≠ ·) (words c) (words d) := by
  rw [words_eq_append, words_eq_append]
  cases h with
  | edge hc h =>
    refine .append_right ?_ _
    simp only [firstWords, List.append_assoc, hc]
    exact (oneApart_some_of_ne (fun _ => rfl) h).append_right _
  | source hc h =>
    refine .append_right ?_ _
    simp only [firstWords, List.append_assoc, hc]
    exact ((oneApart_some_of_ne (fun _ => rfl) h).append_right _).append_left _
  | generatedSource hc h =>
    refine .append_right ?_ _
    simp only [firstWords, hc]
    exact ((oneApart_some_of_ne (fun _ => rfl) h).append_left _).append_right _
  | vertex hhashed hc h =>
    refine .append_right ?_ _
    simp only [firstWords, crprVertex, hhashed, if_true, hc, Option.map_some]
    exact (oneApart_some_of_ne (fun _ => rfl) h).append_left _
  | minUncertainty hc h =>
    refine .append_left (.append_right ?_ _) _
    simp only [uncertaintyWords, uncertaintyTicks, hc, Option.map_some, Option.getD_some]
    exact (oneApart_some_of_ne (fun _ => rfl) h).append_right _
  | maxUncertainty hc h =>
    refine .append_left (.append_right ?_ _) _
    simp only [uncertaintyWords, uncertaintyTicks, hc, Option.map_some, Option.getD_some]
    exact (oneApart_some_of_ne (fun _ => rfl) h).append_left _
  | latency h =>
    refine .append_left (.append_left ?_ _) _
    simp only [lastWords, List.append_assoc]
    exact (oneApart_of_ne (fun _ => rfl) h).append_right _
  | insertion h =>
    refine .append_left (.append_left ?_ _) _
    simp only [lastWords, List.append_assoc]
    exact ((oneApart_of_ne (fun _ => rfl) h).append_right _).append_left _
  | analysisPoint h =>
    refine .append_left (.append_left ?_ _) _
    exact (oneApart_of_ne (fun _ => rfl) h).append_left _

theorem OneChange.crprHashed_eq {c d : ClockInfo} (h : c.OneChange d) :
    d.crprHashed = c.crprHashed := by
  cases h <;> rfl

/-- The contexts `a` and `b` differ in one value that takes part in the hash: `c`, which is `b` but
for that value, agrees with `a` on all that the hash reads. -/
theorem oneApart_words_of_sameKeys {a b c : ClockInfo} (hcrpr : a.crprHashed = b.crprHashed)
    (hkeys : a.SameKeys c) (h : c.OneChange b) : OneApart (· ≠ ·) (words a) (words b) := by
  rw [hkeys.words_eq (hcrpr.trans h.crprHashed_eq)]
  exact h.oneApart_words

end ClockInfo

/-! ## Hashes -/

/-- Near misses do not collide. (1) Matcher states that differ in one field have different hashes.
(2) Handles of any reachable sessions whose members differ at one place, by matcher states that
differ in one field, have different hashes. (3) Clock contexts made under one setting of pessimism
removal have different hashes if their words differ at one place, and that is so if they agree on
all that the hash reads but one present value. -/
theorem near_misses_hash_apart :
    (∀ a b : MatcherState, a.OneChange b → stateHash a ≠ stateHash b) ∧
    (∀ {s t : Session MatcherState}, s.Reachable → t.Reachable →
      ∀ h ∈ s.handles.values, ∀ k ∈ t.handles.values,
        OneApart MatcherState.OneChange (s.store.members h) (t.store.members k) →
          s.store.hashOf h ≠ t.store.hashOf k) ∧
    ∀ a b : ClockInfo, a.crprHashed = b.crprHashed →
      (OneApart (· ≠ ·) (words a) (words b) → a.hash ≠ b.hash) ∧
      ∀ c : ClockInfo, a.SameKeys c → c.OneChange b →
        OneApart (· ≠ ·) (words a) (words b) ∧ a.hash ≠ b.hash := by
  refine ⟨fun a b h => h.stateHash_ne, fun {s t} hs ht h hh k hk hapart => ?_,
    fun a b hcrpr => ⟨fun h => h.mixAll_ne hashStart, fun c hkeys h => ?_⟩⟩
  · rw [(hs.store.shows_members hh).hashOf_eq_setHash hapart.left_ne_nil,
      (ht.store.shows_members hk).hashOf_eq_setHash hapart.right_ne_nil]
    exact MatcherState.setHash_ne_of_oneApart hapart
  · have hapart := ClockInfo.oneApart_words_of_sameKeys hcrpr hkeys h
    exact ⟨hapart, hapart.mixAll_ne hashStart⟩

/-! ## Near misses of a set and of a clock context -/

namespace Session

/-- Two sets of two states; one of the states has reached another position in the second. -/
def straying : List (Operation MatcherState) :=
  [.newPool "p" 0, .intern "p" [⟨⟨1⟩, .filter, 3⟩, ⟨⟨2⟩, .loop, 0⟩] "a",
    .intern "p" [⟨⟨2⟩, .loop, 0⟩, ⟨⟨1⟩, .filter, 4⟩] "b"]

theorem isSome_run_straying : (run {} straying).isSome = true := by
  decide +kernel

/-- The session that `straying` leads to. -/
def strayed : Session MatcherState := ((run {} straying).get isSome_run_straying).1

/-- The handles of the two sets have different hashes, and so have clock contexts a tick of latency
apart, whatever the tags of their clock paths. -/
theorem near_misses_hash_apart_strayed :
    strayed.Reachable ∧
      strayed.store.hashOf (.entry ⟨⟨0⟩, 0⟩) ≠ strayed.store.hashOf (.entry ⟨⟨0⟩, 1⟩) ∧
      (ClockInfo.uncertain 5 none).hash ≠
        { ClockInfo.uncertain 0 none with latency := ⟨0x3d719799812dea11⟩ }.hash := by
  have hreachable : strayed.Reachable :=
    ⟨straying, _, (Option.some_get isSome_run_straying).symm⟩
  have ha : Handle.entry ⟨⟨0⟩, 0⟩ ∈ strayed.handles.values := by decide +kernel
  have hb : Handle.entry ⟨⟨0⟩, 1⟩ ∈ strayed.handles.values := by decide +kernel
  have hapart : OneApart MatcherState.OneChange (strayed.store.members (.entry ⟨⟨0⟩, 0⟩))
      (strayed.store.members (.entry ⟨⟨0⟩, 1⟩)) := by
    have hmembers : strayed.store.members (.entry ⟨⟨0⟩, 0⟩) =
        [⟨⟨1⟩, .filter, 3⟩, ⟨⟨2⟩, .loop, 0⟩] := by decide +kernel
    have hmembers' : strayed.store.members (.entry ⟨⟨0⟩, 1⟩) =
        [⟨⟨1⟩, .filter, 4⟩, ⟨⟨2⟩, .loop, 0⟩] := by decide +kernel
    rw [hmembers, hmembers']
    exact ⟨[], _, _, _, rfl, rfl, .index (by decide)⟩
  have hkeys : (ClockInfo.uncertain 5 none).SameKeys (ClockInfo.uncertain 0 none) :=
    ⟨rfl, rfl, rfl, fun _ => rfl, rfl, rfl, rfl, rfl, rfl, rfl, rfl, rfl⟩
  have htick : quantize (ClockInfo.uncertain 0 none).latency ≠ quantize ⟨0x3d719799812dea11⟩ := by
    decide +kernel
  have hclock := (near_misses_hash_apart.2.2 (ClockInfo.uncertain 5 none)
    { ClockInfo.uncertain 0 none with latency := ⟨0x3d719799812dea11⟩ } rfl).2
  exact ⟨hreachable, near_misses_hash_apart.2.1 hreachable hreachable _ ha _ hb hapart,
    (hclock _ hkeys (.latency htick)).2⟩

end Session

end PathIdentity
