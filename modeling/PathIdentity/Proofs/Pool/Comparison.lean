import PathIdentity.Proofs.Mix
import PathIdentity.Proofs.Pool.Identity
import PathIdentity.Proofs.Pool.Order

/-!
# Content against order

`Store.contentEq` and `Store.compare` both look across pools. The order looks at the states alone,
and `contentEq` also at the hashes of the entries, which come from the states that were inserted
first. So handles have the same content exactly if they compare equal and have the same hash
(`Store.Consistent.contentEq_iff_compare`).

A total order of the states says nothing about their hashes. The two comparisons agree on all live
handles exactly if equal states have the same hash (`Session.comparisons_agree_iff`). Without that
law two handles may hold equal states in the same places and not have the same content, even in one
pool.
-/

namespace PathIdentity

variable {σ : Type} [ExceptionState σ]

namespace Store

variable [Std.TransOrd σ] {s : Store σ} {live : List Handle} {x y : Handle}

/-- Live handles have the same content exactly if they compare equal and have the same hash. -/
theorem Consistent.contentEq_iff_compare (h : s.Consistent live) (hx : x ∈ live) (hy : y ∈ live) :
    s.contentEq x y = true ↔ s.compare x y = .eq ∧ s.hashOf x = s.hashOf y := by
  rw [contentEq_iff, h.compare_eq_iff_sameStates hx hy]
  exact and_comm

/-- If equal states have the same hash, live handles that compare equal have the same hash. -/
theorem Consistent.hashOf_eq_of_compare
    (hhash : ∀ a b : σ, Ord.compare a b = .eq → stateHash a = stateHash b)
    (h : s.Consistent live) (hx : x ∈ live) (hy : y ∈ live) (heq : s.compare x y = .eq) :
    s.hashOf x = s.hashOf y := by
  have hsame := (h.compare_eq_iff_sameStates hx hy).1 heq
  exact ((h.shows_members hx).congr_of_stateHash hhash hsame).hashOf_eq (h.shows_members hy)

end Store

/-! ## Sets of one state -/

theorem stateHash_eq_of_setHash_singleton {a b : σ} (h : setHash [a] = setHash [b]) :
    stateHash a = stateHash b :=
  mixWord_injective_word hashStart h

namespace Session

variable [Std.TransOrd σ]

/-- Interning states in a pool that has a name gives a name to a handle that shows them. -/
theorem Consistent.exists_step_intern {s : Session σ} (hs : s.Consistent) {pool : String}
    {id : PoolId} (hpool : s.pools.get? pool = some id) (log : List σ) (name : String) :
    ∃ t h, s.step (.intern pool log name) = some t ∧ t.1.pools = s.pools ∧
      t.1.handles = s.handles.put name h ∧ t.1.store.Shows h (Staging.ofList log).members := by
  obtain ⟨p, hp⟩ := hs.exists_promotion hpool (.ofList log)
  obtain ⟨t, ht⟩ : ∃ t, s.promote id (.ofList log) name = some t :=
    ⟨_, promote_eq_some_iff.2 ⟨p, hp, rfl⟩⟩
  have hstep : s.step (.intern pool log name) = some t :=
    Option.bind_eq_some_iff.2 ⟨id, hpool, ht⟩
  have hshows := (hs.promote_shows hp ht).2
  obtain ⟨p', hp', rfl⟩ := promote_eq_some_iff.1 ht
  obtain rfl : p = p' := Option.some.inj (hp.symm.trans hp')
  exact ⟨_, p.handle, hstep, pools_putHandle _ _ _, handles_putHandle _ _ _, hshows⟩

/-- Any two states are shown, each alone, by live handles of some session. -/
theorem exists_shows_singletons (a b : σ) :
    ∃ s : Session σ, s.Reachable ∧ ∃ x ∈ s.handles.values, ∃ y ∈ s.handles.values,
      s.store.Shows x [a] ∧ s.store.Shows y [b] := by
  obtain ⟨s, hstep, hpool⟩ : ∃ s : Session σ × List Event,
      ({} : Session σ).step (.newPool "p" 0) = some s ∧ s.1.pools.get? "p" = some ⟨0⟩ :=
    ⟨_, rfl, rfl⟩
  have hs : s.1.Reachable := leads_of_step hstep
  obtain ⟨t, x, ht, hpools, hhandles, hx⟩ := hs.consistent.exists_step_intern hpool [a] "x"
  have htr : t.1.Reachable := Leads.trans hs (leads_of_step ht)
  rw [← hpools] at hpool
  obtain ⟨u, y, hu, -, hhandles', hy⟩ := htr.consistent.exists_step_intern hpool [b] "y"
  have hur : u.1.Reachable := Leads.trans htr (leads_of_step hu)
  have hxget : u.1.handles.get? "x" = some x := by
    rw [hhandles', NameMap.get?_put_of_ne (by decide), hhandles, NameMap.get?_put_self]
  have hxlive : x ∈ u.1.handles.values := NameMap.mem_values_of_get? hxget
  have hyget : u.1.handles.get? "y" = some y := by
    rw [hhandles', NameMap.get?_put_self]
  have hlater := (leads_of_step hu).later htr.consistent
  exact ⟨u.1, hur, x, hxlive, y, NameMap.mem_values_of_get? hyget,
    htr.store.shows_later hlater hur.store hxlive hx, hy⟩

/-! ## When the comparisons agree -/

/-- In every reachable session live handles have the same content exactly if they compare equal and
have the same hash, and within one pool exactly if they are the same handle. So order and content
agree on all live handles, and with identity on those of one pool, exactly if equal states have the
same hash; that the order of the states is total does not suffice. -/
theorem comparisons_agree_iff :
    (∀ {s : Session σ}, s.Reachable → ∀ x ∈ s.handles.values, ∀ y ∈ s.handles.values,
      (s.store.contentEq x y = true ↔
        s.store.compare x y = .eq ∧ s.store.hashOf x = s.store.hashOf y) ∧
      (x.samePool y = true → (s.store.contentEq x y = true ↔ x = y))) ∧
    ((∀ {s : Session σ}, s.Reachable → ∀ x ∈ s.handles.values, ∀ y ∈ s.handles.values,
        (s.store.contentEq x y = true ↔ s.store.compare x y = .eq) ∧
        (x.samePool y = true → (s.store.contentEq x y = true ↔ x = y) ∧
          (s.store.compare x y = .eq ↔ x = y))) ↔
      ∀ a b : σ, compare a b = .eq → stateHash a = stateHash b) := by
  refine ⟨fun {s} hs x hx y hy => ⟨?_, ?_⟩, fun hagree a b hab => ?_,
    fun hhash {s} hs x hx y hy => ?_⟩
  · exact hs.store.contentEq_iff_compare hx hy
  · exact hs.store.contentEq_iff_eq hx hy
  · -- The sets `{a}` and `{b}` compare equal, so their handles have the same content and hash.
    obtain ⟨s, hs, x, hx, y, hy, hshowsx, hshowsy⟩ := exists_shows_singletons a b
    have hsingle : sameStates [a] [b] = true := (sameStates_cons_cons a b [] []).2 ⟨hab, rfl⟩
    have hsame : sameStates (s.store.members x) (s.store.members y) = true :=
      sameStates_trans (sameStates_trans hshowsx.sameStates_members hsingle)
        (sameStates_symm hshowsy.sameStates_members)
    have heq := (hs.store.compare_eq_iff_sameStates hx hy).2 hsame
    obtain ⟨-, hhash⟩ := (hs.store.contentEq_iff_compare hx hy).1 ((hagree hs x hx y hy).1.2 heq)
    rw [hshowsx.hashOf_eq_setHash (List.cons_ne_nil a []),
      hshowsy.hashOf_eq_setHash (List.cons_ne_nil b [])] at hhash
    exact stateHash_eq_of_setHash_singleton hhash
  · have hiff : s.store.contentEq x y = true ↔ s.store.compare x y = .eq := by
      rw [hs.store.contentEq_iff_compare hx hy, and_iff_left_iff_imp]
      exact hs.store.hashOf_eq_of_compare hhash hx hy
    refine ⟨hiff, fun hpool => ?_⟩
    have hcontent := hs.store.contentEq_iff_eq hx hy hpool
    exact ⟨hcontent, hiff.symm.trans hcontent⟩

/-! ## Runs with two pools -/

/-- A set in two pools, its states in either order. -/
def dealing : List (Operation MatcherState) :=
  [.newPool "p" 0, .newPool "q" 0, .intern "p" [⟨⟨2⟩, .loop, 0⟩, ⟨⟨1⟩, .filter, 3⟩] "a",
    .intern "q" [⟨⟨1⟩, .filter, 3⟩, ⟨⟨2⟩, .loop, 0⟩] "b"]

theorem isSome_run_dealing : (run {} dealing).isSome = true := by
  decide +kernel

/-- The session that `dealing` leads to. -/
def dealt : Session MatcherState := ((run {} dealing).get isSome_run_dealing).1

theorem reachable_dealt : dealt.Reachable :=
  ⟨dealing, _, (Option.some_get isSome_run_dealing).symm⟩

/-- Equal matcher states are hashed alike, so the handles `"a"` and `"b"`, which compare equal, have
the same content. -/
theorem comparisons_agree_dealt :
    dealt.Reachable ∧ dealt.store.compare (.entry ⟨⟨0⟩, 0⟩) (.entry ⟨⟨1⟩, 0⟩) = .eq ∧
      dealt.store.contentEq (.entry ⟨⟨0⟩, 0⟩) (.entry ⟨⟨1⟩, 0⟩) = true := by
  have ha : Handle.entry ⟨⟨0⟩, 0⟩ ∈ dealt.handles.values := by decide +kernel
  have hb : Handle.entry ⟨⟨1⟩, 0⟩ ∈ dealt.handles.values := by decide +kernel
  have hcompare : dealt.store.compare (.entry ⟨⟨0⟩, 0⟩) (.entry ⟨⟨1⟩, 0⟩) = .eq := by
    decide +kernel
  have hhash (a b : MatcherState) (h : compare a b = .eq) : stateHash a = stateHash b :=
    CongruentState.stateHash_eq h
  have hagree := comparisons_agree_iff.2.2 hhash reachable_dealt _ ha _ hb
  exact ⟨reachable_dealt, hcompare, hagree.1.2 hcompare⟩

/-- States with the same key and different hashes, each alone in a pool. -/
def mismatching : List (Operation KeyedState) :=
  [.newPool "p" 0, .newPool "q" 0, .intern "p" [⟨1, 1, false, false⟩] "a",
    .intern "q" [⟨1, 2, false, false⟩] "b"]

theorem isSome_run_mismatching : (run {} mismatching).isSome = true := by
  decide +kernel

/-- The session that `mismatching` leads to. -/
def mismatched : Session KeyedState := ((run {} mismatching).get isSome_run_mismatching).1

/-- The handles `"a"` and `"b"` compare equal and do not have the same content. -/
theorem comparisons_disagree_mismatched :
    mismatched.Reachable ∧
      mismatched.handles = [("a", .entry ⟨⟨0⟩, 0⟩), ("b", .entry ⟨⟨1⟩, 0⟩)] ∧
      mismatched.store.compare (.entry ⟨⟨0⟩, 0⟩) (.entry ⟨⟨1⟩, 0⟩) = .eq ∧
      mismatched.store.contentEq (.entry ⟨⟨0⟩, 0⟩) (.entry ⟨⟨1⟩, 0⟩) = false := by
  refine ⟨⟨mismatching, _, (Option.some_get isSome_run_mismatching).symm⟩, ?_⟩
  decide +kernel

end Session

end PathIdentity
