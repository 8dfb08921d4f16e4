import PathIdentity.Proofs.Pool.Content

/-!
# Identity is content

Handles are equal when they refer to one entry, which takes no look at the states. For handles of
one pool, and for the sentinel, that is the equality of content, since a pool never has two entries
with the same hash and equal states (`Store.Consistent.eq_of_contentEq`). Nothing is asked of the
hash and of the classification of states, and the pool may be gone.
-/

namespace PathIdentity

variable {σ : Type} [ExceptionState σ]

namespace Store

theorem contentEq_iff {s : Store σ} {x y : Handle} :
    s.contentEq x y = true ↔
      s.hashOf x = s.hashOf y ∧ sameStates (s.members x) (s.members y) = true := by
  simp [contentEq]

theorem contentEq_self [Std.ReflOrd σ] (s : Store σ) (x : Handle) : s.contentEq x x = true :=
  contentEq_iff.2 ⟨rfl, sameStates_refl _⟩

namespace Consistent

variable {s : Store σ} {live : List Handle}

/-- An entry never has the content of the sentinel, whatever its hash is. -/
theorem not_contentEq_sentinel (h : s.Consistent live) {id : EntryId}
    (hid : Handle.entry id ∈ live) :
    s.contentEq (.entry id) .sentinel = false ∧ s.contentEq .sentinel (.entry id) = false := by
  obtain ⟨x, rest, hmembers⟩ := List.exists_cons_of_ne_nil (h.members_ne_nil hid)
  have hsentinel : s.members .sentinel = [] := rfl
  simp [contentEq, hmembers, hsentinel]

/-- Entries of one pool with the same content are the same. -/
theorem eq_of_contentEq (h : s.Consistent live) {x y : Handle} (hx : x ∈ live) (hy : y ∈ live)
    (hpool : x.samePool y = true) (heq : s.contentEq x y = true) : x = y := by
  cases x with
  | sentinel =>
    cases y with
    | sentinel => rfl
    | entry j =>
      rw [(h.not_contentEq_sentinel hy).2] at heq
      cases heq
  | entry i =>
    cases y with
    | sentinel =>
      rw [(h.not_contentEq_sentinel hx).1] at heq
      cases heq
    | entry j =>
      obtain ⟨e, he, rfl, hentry⟩ := h.exists_entry hx
      obtain ⟨f, hf, rfl, hfentry⟩ := h.exists_entry hy
      obtain ⟨hhash, hsame⟩ := contentEq_iff.1 heq
      rw [hashOf_entry hentry, hashOf_entry hfentry] at hhash
      rw [members_entry hentry, members_entry hfentry] at hsame
      rw [h.unique e he f hf (of_decide_eq_true hpool) hhash hsame]

theorem contentEq_iff_eq [Std.ReflOrd σ] (h : s.Consistent live) {x y : Handle} (hx : x ∈ live)
    (hy : y ∈ live) (hpool : x.samePool y = true) : s.contentEq x y = true ↔ x = y := by
  refine ⟨h.eq_of_contentEq hx hy hpool, ?_⟩
  rintro rfl
  exact contentEq_self s x

end Consistent

end Store

namespace Session

variable [Std.TransOrd σ]

/-- In every reachable session, live handles of one pool are equal exactly if their contents are.
Entries of one pool with the same hash and equal states are one entry; no entry has the content of
the sentinel; and a promotion gives a handle with the states that were promoted, so sets with the
same hash and other states get another handle. -/
theorem eq_iff_contentEq {s : Session σ} (hs : s.Reachable) :
    (∀ x ∈ s.handles.values, ∀ y ∈ s.handles.values, x.samePool y = true →
      (x = y ↔ s.store.contentEq x y = true)) ∧
    (∀ e ∈ s.store.entries, ∀ f ∈ s.store.entries, e.id.pool = f.id.pool → e.hash = f.hash →
      sameStates e.members f.members = true → e = f) ∧
    (∀ e ∈ s.store.entries, s.store.contentEq (.entry e.id) .sentinel = false ∧
      s.store.contentEq .sentinel (.entry e.id) = false) ∧
    ∀ pool staging name set t, s.stagings.get? staging = some set →
      s.step (.promote pool staging name) = some t →
        ∃ h, t.1.handles.get? name = some h ∧
          sameStates (t.1.store.members h) set.members = true := by
  have hcons := hs.consistent
  have hstore : s.store.Consistent s.handles.values := hcons.store
  refine ⟨fun x hx y hy hpool => ⟨?_, hstore.eq_of_contentEq hx hy hpool⟩,
    fun e he f hf hpool hhash hsame => ?_, fun e he => ?_, ?_⟩
  · rintro rfl
    exact Store.contentEq_self _ _
  · exact List.inj_on_of_nodup_map hstore.ids he hf (hstore.unique e he f hf hpool hhash hsame)
  · exact hstore.not_contentEq_sentinel ((hstore.held e.id).2 ⟨e, he, rfl⟩)
  · intro pool staging name set t hset ht
    obtain ⟨id, hpool, -⟩ := Option.bind_eq_some_iff.1 ht
    obtain ⟨log, rfl⟩ := hcons.tidy.stagings _ _ hset
    obtain ⟨p, t', -, ht', -, hname, hshows⟩ := hcons.exists_step_promote hpool hset name
    obtain rfl : t = t' := Option.some.inj (ht.symm.trans ht')
    exact ⟨p.handle, hname, hshows.sameStates_members⟩

/-- After the run with collisions the handles `"a"` and `"e"` have the same hash and differ. -/
theorem eq_iff_contentEq_after_collision :
    collided.Reachable ∧ ∃ x ∈ collided.handles.values, ∃ y ∈ collided.handles.values,
      x.samePool y = true ∧ collided.store.hashOf x = collided.store.hashOf y ∧
        (x = y ↔ collided.store.contentEq x y = true) := by
  have hx : Handle.entry ⟨⟨0⟩, 0⟩ ∈ collided.handles.values := by decide +kernel
  have hy : Handle.entry ⟨⟨0⟩, 3⟩ ∈ collided.handles.values := by decide +kernel
  refine ⟨reachable_collided, _, hx, _, hy, rfl, by decide +kernel, ?_⟩
  exact (eq_iff_contentEq reachable_collided).1 _ hx _ hy rfl

end Session

end PathIdentity
