import PathIdentity.Proofs.Pool.Content
import Mathlib.Data.Multiset.MapFold
import Mathlib.Data.Multiset.ZeroCons

/-!
# The order of handles

Handles compare as their lists of states do under `compareSets`: by length, then by the first states
in which they differ. The sentinel stands for the empty list, and a live handle to an entry has
states, so the sentinel comes first without a rule of its own; and a list compares equal to itself,
so it makes no difference that handles to one entry are not compared state by state
(`Store.Consistent.compare_eq_compareSets`). Nothing else about a handle plays a part.

`Store.compare` is a total preorder even on handles that are no longer alive
(`Store.compare_eq_compareLex`). So sorting gives an ascending arrangement, and in two ascending
arrangements of lists that are the same up to order and equal states, equal states stand in the same
places (`forall₂_of_ascending`).
-/

namespace PathIdentity

open Std (TransCmp)

/-! ## Ascending arrangements -/

section Arrangements

theorem rel_coe_of_forall₂ {α β : Type} {r : α → β → Prop} {a : List α} {b : List β}
    (h : List.Forall₂ r a b) : Multiset.Rel r a b := by
  induction h with
  | nil => exact .zero
  | cons hxy _ ih => exact .cons hxy ih

variable {α : Type} {cmp : α → α → Ordering} [TransCmp cmp]

/-- Elements that compare equal can be taken off. -/
theorem rel_of_rel_cons {x y : α} {a b : Multiset α} (hxy : cmp x y = .eq)
    (h : Multiset.Rel (fun u v => cmp u v = .eq) (x ::ₘ a) (y ::ₘ b)) :
    Multiset.Rel (fun u v => cmp u v = .eq) a b := by
  obtain ⟨z, c, hxz, hac, hb⟩ := Multiset.rel_cons_left.1 h
  rcases Multiset.cons_eq_cons.1 hb with ⟨-, rfl⟩ | ⟨-, d, rfl, rfl⟩
  · exact hac
  · have htrans : IsTrans α fun u v => cmp u v = .eq := ⟨fun _ _ _ => TransCmp.eq_trans⟩
    have hyz : cmp y z = .eq := TransCmp.eq_trans (Std.OrientedCmp.eq_symm hxy) hxz
    refine hac.trans _ (.cons hyz (Multiset.rel_refl_of_refl_on fun u _ => ?_))
    exact Std.ReflCmp.compare_self

/-- The first element of an ascending list is not above one that compares equal to a member. -/
theorem isLE_of_ascending {x z : α} {a : List α}
    (ha : (x :: a).Pairwise fun u v => (cmp u v).isLE) (hz : ∃ u ∈ x :: a, cmp u z = .eq) :
    (cmp x z).isLE = true := by
  obtain ⟨u, hu, huz⟩ := hz
  rcases List.mem_cons.1 hu with rfl | hu
  · rw [huz]
    rfl
  · rw [← TransCmp.congr_right huz]
    exact (List.pairwise_cons.1 ha).1 u hu

/-- Two ascending lists with the same elements, up to their order and up to elements that compare
equal, agree place by place. -/
theorem forall₂_of_ascending {a b : List α} (ha : a.Pairwise fun u v => (cmp u v).isLE)
    (hb : b.Pairwise fun u v => (cmp u v).isLE)
    (h : Multiset.Rel (fun u v => cmp u v = .eq) a b) :
    List.Forall₂ (fun u v => cmp u v = .eq) a b := by
  induction a generalizing b with
  | nil =>
    rw [(Multiset.coe_eq_zero b).1 (Multiset.rel_zero_left.1 h)]
    exact .nil
  | cons x a ih =>
    cases b with
    | nil =>
      have hcons := Multiset.rel_zero_right.1 h
      cases (Multiset.coe_eq_zero _).1 hcons
    | cons y b =>
      have hxy : cmp x y = .eq := by
        refine Std.OrientedCmp.isLE_antisymm (isLE_of_ascending ha ?_) (isLE_of_ascending hb ?_)
        · have hflip := Multiset.rel_flip.2 h
          obtain ⟨u, hu, hyu⟩ :=
            Multiset.exists_mem_of_rel_of_mem hflip (Multiset.mem_cons_self y b)
          exact ⟨u, hu, hyu⟩
        · obtain ⟨v, hv, hxv⟩ := Multiset.exists_mem_of_rel_of_mem h (Multiset.mem_cons_self x a)
          exact ⟨v, hv, Std.OrientedCmp.eq_symm hxv⟩
      refine .cons hxy (ih (List.pairwise_cons.1 ha).2 (List.pairwise_cons.1 hb).2 ?_)
      exact rel_of_rel_cons hxy h

end Arrangements

/-! ## Lists of states -/

section Sets

variable {σ : Type} [Ord σ]

/-- The order of lists of states by length, and then by the first states in which they differ. -/
def compareSets : List σ → List σ → Ordering := compareLex (compareOn List.length) compare

theorem compareSets_eq_iff_sameStates {a b : List σ} :
    compareSets a b = .eq ↔ sameStates a b = true := by
  rw [compareSets, compareLex_eq_eq, compare_eq_iff_sameStates, compareOn, Std.compare_eq_iff_eq]
  exact and_iff_right_of_imp length_eq_of_sameStates

theorem compareSets_nil_left {b : List σ} (hb : b ≠ []) : compareSets [] b = .lt := by
  have hlength : compare ([] : List σ).length b.length = .lt :=
    Nat.compare_eq_lt.2 (List.length_pos_iff.2 hb)
  rw [compareSets, compareLex, compareOn, hlength]
  rfl

variable [Std.TransOrd σ]

instance : TransCmp (compareSets : List σ → List σ → Ordering) :=
  inferInstanceAs (TransCmp (compareLex (compareOn List.length) compare))

theorem compareSets_congr {a a' b b' : List σ} (ha : sameStates a a' = true)
    (hb : sameStates b b' = true) : compareSets a b = compareSets a' b' := by
  rw [TransCmp.congr_left (compareSets_eq_iff_sameStates.2 ha),
    TransCmp.congr_right (compareSets_eq_iff_sameStates.2 hb)]

end Sets

variable {σ : Type} [ExceptionState σ] [Std.TransOrd σ]

namespace Store

/-! ## Handles -/

/-- The order of handles as one lexicographic comparison, the sentinel first. -/
theorem compare_eq_compareLex (s : Store σ) : s.compare =
    compareLex (compareOn fun h => !h.isSentinel)
      (fun x y => compareSets (s.members x) (s.members y)) := by
  funext x y
  cases x with
  | sentinel => cases y <;> rfl
  | entry i =>
    cases y with
    | sentinel => rfl
    | entry j =>
      by_cases hij : i = j
      · subst hij
        have hself : compareSets (s.members (.entry i)) (s.members (.entry i)) = .eq :=
          Std.ReflCmp.compare_self
        simp [Store.compare, compareLex, compareOn, Handle.isSentinel, hself]
      · simp [Store.compare, compareLex, compareOn, Handle.isSentinel, hij, compareSets, size]

instance (s : Store σ) : TransCmp s.compare := by
  have : TransCmp fun x y : Handle => compareSets (s.members x) (s.members y) :=
    { eq_swap := Std.OrientedCmp.eq_swap, isLE_trans := TransCmp.isLE_trans }
  rw [compare_eq_compareLex]
  infer_instance

/-- Live handles compare as their states do. -/
theorem Consistent.compare_eq_compareSets {s : Store σ} {live : List Handle}
    (h : s.Consistent live) {x y : Handle} (hx : x ∈ live) (hy : y ∈ live) :
    s.compare x y = compareSets (s.members x) (s.members y) := by
  cases x with
  | sentinel =>
    cases y with
    | sentinel => rfl
    | entry j => exact (compareSets_nil_left (h.members_ne_nil hy)).symm
  | entry i =>
    cases y with
    | sentinel =>
      have hlt : compareSets [] (s.members (.entry i)) = .lt :=
        compareSets_nil_left (h.members_ne_nil hx)
      exact (Std.OrientedCmp.gt_of_lt hlt).symm
    | entry j =>
      rw [compare_eq_compareLex]
      rfl

theorem Consistent.compare_eq_iff_sameStates {s : Store σ} {live : List Handle}
    (h : s.Consistent live) {x y : Handle} (hx : x ∈ live) (hy : y ∈ live) :
    s.compare x y = .eq ↔ sameStates (s.members x) (s.members y) = true := by
  rw [h.compare_eq_compareSets hx hy, compareSets_eq_iff_sameStates]

/-! ## Sorting -/

section Sorting

variable {κ κ' : Type}

omit [Std.TransOrd σ] in
theorem sortHandles_perm (s : Store σ) (handles : List (κ × Handle)) :
    (s.sortHandles handles).Perm handles := List.mergeSort_perm handles _

theorem pairwise_sortHandles (s : Store σ) (handles : List (κ × Handle)) :
    (s.sortHandles handles).Pairwise fun a b => (s.compare a.2 b.2).isLE := by
  have hpreorder : TransCmp s.compare := inferInstance
  refine List.pairwise_mergeSort (fun a b c hab hbc => ?_) (fun a b => ?_) handles
  · exact hpreorder.isLE_trans hab hbc
  · have hswap : s.compare b.2 a.2 = (s.compare a.2 b.2).swap := hpreorder.eq_swap
    rw [hswap]
    cases s.compare a.2 b.2 <;> rfl

/-- The states of sorted live handles ascend. -/
theorem Consistent.pairwise_members_sortHandles {s : Store σ} {live : List Handle}
    (h : s.Consistent live) {handles : List (κ × Handle)} (hlive : ∀ x ∈ handles, x.2 ∈ live) :
    ((s.sortHandles handles).map fun x => s.members x.2).Pairwise
      fun a b => (compareSets a b).isLE := by
  have hmem {x : κ × Handle} (hx : x ∈ s.sortHandles handles) : x.2 ∈ live :=
    hlive x ((s.sortHandles_perm handles).mem_iff.1 hx)
  refine List.pairwise_map.2 ((s.pairwise_sortHandles handles).imp_of_mem fun ha hb hab => ?_)
  rwa [← h.compare_eq_compareSets (hmem ha) (hmem hb)]

/-- Live handles to the same sets, in any order and of any pools, are sorted to the same sets. -/
theorem Consistent.sortHandles_congr {s t : Store σ} {live live' : List Handle}
    (hs : s.Consistent live) (ht : t.Consistent live') {xs xs' : List (κ × Handle)}
    {ys : List (κ' × Handle)} (hxs : ∀ x ∈ xs, x.2 ∈ live) (hys : ∀ y ∈ ys, y.2 ∈ live')
    (hperm : xs.Perm xs')
    (hsame : List.Forall₂ (fun x y => sameStates (s.members x.2) (t.members y.2) = true) xs' ys) :
    List.Forall₂ (fun x y => sameStates (s.members x.2) (t.members y.2) = true)
      (s.sortHandles xs) (t.sortHandles ys) := by
  have hsorted : List.Forall₂ (fun a b => compareSets a b = .eq)
      ((s.sortHandles xs).map fun x => s.members x.2)
      ((t.sortHandles ys).map fun y => t.members y.2) := by
    refine forall₂_of_ascending (hs.pairwise_members_sortHandles hxs)
      (ht.pairwise_members_sortHandles hys) ?_
    rw [Multiset.coe_eq_coe.2 (((s.sortHandles_perm xs).trans hperm).map _),
      Multiset.coe_eq_coe.2 ((t.sortHandles_perm ys).map _)]
    refine rel_coe_of_forall₂ ?_
    rw [List.forall₂_map_left_iff, List.forall₂_map_right_iff]
    exact hsame.imp fun _ _ => compareSets_eq_iff_sameStates.2
  rw [List.forall₂_map_left_iff, List.forall₂_map_right_iff] at hsorted
  exact hsorted.imp fun _ _ => compareSets_eq_iff_sameStates.1

end Sorting

end Store

namespace Session

/-- Live handles of any pools, which may be gone, have a total preorder: `compare` says `.eq` for a
handle with itself, reverses with its arguments, and "not greater" is transitive. The sentinel is
below all others. Handles compare as their lists of states do, whether they are the same or not, so
`.eq` means equal states in the same places; and in another session handles with the same states
compare alike. Sorting gives an ascending arrangement, and handles with the same states, in any
order and in any session, are sorted to the same states. -/
theorem compare_handles {s : Session σ} (hs : s.Reachable) :
    (∀ x ∈ s.handles.values, ∀ y ∈ s.handles.values, ∀ z ∈ s.handles.values,
      s.store.compare x x = .eq ∧
      s.store.compare y x = (s.store.compare x y).swap ∧
      (s.store.compare x y ≠ .gt → s.store.compare y z ≠ .gt → s.store.compare x z ≠ .gt) ∧
      (x ≠ .sentinel → s.store.compare .sentinel x = .lt) ∧
      (s.store.compare x y = .eq ↔
        sameStates (s.store.members x) (s.store.members y) = true) ∧
      s.store.compare x y = compareSets (s.store.members x) (s.store.members y)) ∧
    (∀ {κ : Type} (xs : List (κ × Handle)), (s.store.sortHandles xs).Perm xs ∧
      (s.store.sortHandles xs).Pairwise fun a b => s.store.compare a.2 b.2 ≠ .gt) ∧
    ∀ {t : Session σ}, t.Reachable →
      (∀ x ∈ s.handles.values, ∀ y ∈ s.handles.values,
        ∀ x' ∈ t.handles.values, ∀ y' ∈ t.handles.values,
          sameStates (s.store.members x) (t.store.members x') = true →
          sameStates (s.store.members y) (t.store.members y') = true →
            s.store.compare x y = t.store.compare x' y') ∧
      ∀ {κ κ' : Type} (xs xs' : List (κ × Handle)) (ys : List (κ' × Handle)),
        (∀ x ∈ xs, x.2 ∈ s.handles.values) → (∀ y ∈ ys, y.2 ∈ t.handles.values) →
        xs.Perm xs' →
        List.Forall₂ (fun x y => sameStates (s.store.members x.2) (t.store.members y.2) = true)
          xs' ys →
        List.Forall₂ (fun x y => sameStates (s.store.members x.2) (t.store.members y.2) = true)
          (s.store.sortHandles xs) (t.store.sortHandles ys) := by
  have hstore := hs.store
  have hpreorder : TransCmp s.store.compare := inferInstance
  have hnot (o : Ordering) : o ≠ .gt ↔ o.isLE = true := by
    cases o <;> simp
  refine ⟨fun x hx y hy z hz => ⟨?_, ?_, ?_, ?_, ?_, ?_⟩, fun xs => ⟨?_, ?_⟩, fun {t} ht => ?_⟩
  · exact Std.ReflCmp.compare_self
  · exact hpreorder.eq_swap
  · rw [hnot, hnot, hnot]
    exact hpreorder.isLE_trans
  · intro hne
    cases x with
    | sentinel => exact absurd rfl hne
    | entry id => rfl
  · exact hstore.compare_eq_iff_sameStates hx hy
  · exact hstore.compare_eq_compareSets hx hy
  · exact s.store.sortHandles_perm xs
  · exact (s.store.pairwise_sortHandles xs).imp fun h => (hnot _).2 h
  · have htstore := ht.store
    refine ⟨fun x hx y hy x' hx' y' hy' hxx' hyy' => ?_, fun xs xs' ys hxs hys hperm hsame => ?_⟩
    · rw [hstore.compare_eq_compareSets hx hy, htstore.compare_eq_compareSets hx' hy']
      exact compareSets_congr hxx' hyy'
    · exact hstore.sortHandles_congr htstore hxs hys hperm hsame

/-! ## Handles of two pools -/

/-- The sets `{1, 2}` and `{3}` in one pool, which is dropped, and `{1, 2}` in another, where its
states have other hashes. -/
def scattering : List (Operation KeyedState) :=
  [.newPool "p" 0, .newPool "q" 0, .intern "p" [⟨2, 5, true, false⟩, ⟨1, 5, false, false⟩] "a",
    .intern "p" [⟨3, 5, false, false⟩] "b",
    .intern "q" [⟨1, 9, false, true⟩, ⟨2, 5, true, false⟩] "c", .newSentinel "d", .dropPool "p"]

theorem isSome_run_scattering : (run {} scattering).isSome = true := by
  decide +kernel

/-- The session that `scattering` leads to. -/
def scattered : Session KeyedState := ((run {} scattering).get isSome_run_scattering).1

theorem reachable_scattered : scattered.Reachable :=
  ⟨scattering, _, (Option.some_get isSome_run_scattering).symm⟩

/-- The handles `"a"` and `"c"` have different hashes and compare equal, and either of them sorts
behind `"b"`. -/
theorem compare_handles_scattered :
    scattered.Reachable ∧
      scattered.store.hashOf (.entry ⟨⟨0⟩, 0⟩) ≠ scattered.store.hashOf (.entry ⟨⟨1⟩, 0⟩) ∧
      scattered.store.compare (.entry ⟨⟨0⟩, 0⟩) (.entry ⟨⟨1⟩, 0⟩) = .eq ∧
      List.Forall₂ (fun x y : String × Handle =>
          sameStates (scattered.store.members x.2) (scattered.store.members y.2) = true)
        (scattered.store.sortHandles [("a", .entry ⟨⟨0⟩, 0⟩), ("b", .entry ⟨⟨0⟩, 1⟩)])
        (scattered.store.sortHandles [("b", .entry ⟨⟨0⟩, 1⟩), ("c", .entry ⟨⟨1⟩, 0⟩)]) := by
  have ha : Handle.entry ⟨⟨0⟩, 0⟩ ∈ scattered.handles.values := by decide +kernel
  have hb : Handle.entry ⟨⟨0⟩, 1⟩ ∈ scattered.handles.values := by decide +kernel
  have hc : Handle.entry ⟨⟨1⟩, 0⟩ ∈ scattered.handles.values := by decide +kernel
  have hac : sameStates (scattered.store.members (.entry ⟨⟨0⟩, 0⟩))
      (scattered.store.members (.entry ⟨⟨1⟩, 0⟩)) = true := by
    decide +kernel
  obtain ⟨hlaws, -, hsessions⟩ := compare_handles reachable_scattered
  refine ⟨reachable_scattered, by decide +kernel, ?_, ?_⟩
  · exact (hlaws _ ha _ hc _ hb).2.2.2.2.1.2 hac
  · have hlive : ∀ x ∈ [("a", Handle.entry ⟨⟨0⟩, 0⟩), ("b", .entry ⟨⟨0⟩, 1⟩)],
        x.2 ∈ scattered.handles.values := by simp [ha, hb]
    have hlive' : ∀ x ∈ [("b", Handle.entry ⟨⟨0⟩, 1⟩), ("c", .entry ⟨⟨1⟩, 0⟩)],
        x.2 ∈ scattered.handles.values := by simp [hb, hc]
    exact (hsessions reachable_scattered).2 _ _ _ hlive hlive' (List.Perm.swap _ _ _)
      (.cons (sameStates_refl _) (.cons hac .nil))

end Session

end PathIdentity
