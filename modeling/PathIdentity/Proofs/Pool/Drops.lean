import PathIdentity.Proofs.Pool.Eviction
import PathIdentity.Proofs.Pool.History

/-!
# Drops in any order

What drops leave does not depend on their order, since it can be said without one. Of a registry it
is what is kept of its serials: the buckets without the others, of which none is left empty, and the
others counted as evicted (`Registry.keeping`). Of a store it is what is kept with the handles that
are left (`Store.keeping`), and with all its live handles a store keeps everything
(`Store.Consistent.keeping_eq_self`).

One drop makes no difference to what is kept with other handles
(`Store.Consistent.keeping_release`), whether it evicts an entry or not: the serial that an eviction
takes out is not to be kept. So by induction on the drops the last store is what was kept of the
first one. The serials that are evicted are those that the registries list no longer.

The registries of a store are a list of pools with their registries, so two of one pool would be in
the way; reachable sessions have one for each (`Session.Reachable.nodup_poolIds`).
-/

namespace PathIdentity

variable {σ : Type}

open Event

/-! ## Registries with some serials kept -/

namespace Buckets

/-- The buckets with only some serials kept; no empty bucket is left. -/
def keeping (keep : ℕ → Bool) (b : Buckets) : Buckets :=
  b.filterMap fun (hash, bucket) =>
    if bucket.filter keep = [] then none else some (hash, bucket.filter keep)

theorem keeping_append (keep : ℕ → Bool) (b b' : Buckets) :
    keeping keep (b ++ b') = keeping keep b ++ keeping keep b' := List.filterMap_append

theorem keeping_cons (keep : ℕ → Bool) (hash : UInt64) (bucket : List ℕ) (b : Buckets) :
    keeping keep ((hash, bucket) :: b) =
      if bucket.filter keep = [] then keeping keep b
      else (hash, bucket.filter keep) :: keeping keep b := by
  rw [keeping, List.filterMap_cons]
  dsimp only
  split_ifs <;> rfl

theorem serials_append (b b' : Buckets) : serials (b ++ b') = b.serials ++ b'.serials :=
  List.flatMap_append

theorem serials_cons (hash : UInt64) (bucket : List ℕ) (b : Buckets) :
    serials ((hash, bucket) :: b) = bucket ++ b.serials := List.flatMap_cons

/-- Buckets of serials that are all kept. -/
theorem Proper.keeping_eq_self {b : Buckets} (h : b.Proper) {keep : ℕ → Bool}
    (hkeep : ∀ n ∈ b.serials, keep n = true) : b.keeping keep = b := by
  induction b with
  | nil => rfl
  | cons entry b ih =>
    obtain ⟨hash, bucket⟩ := entry
    rw [serials_cons, List.forall_mem_append] at hkeep
    rw [keeping_cons, List.filter_eq_self.2 hkeep.1, if_neg (h.ne_nil _ List.mem_cons_self),
      ih h.tail hkeep.2]

end Buckets

namespace Registry

variable {r r' : Registry} {keep : ℕ → Bool} {hash : UInt64} {serial : ℕ}

/-- The registry with only some serials kept, and the others counted as evicted. -/
def keeping (r : Registry) (keep : ℕ → Bool) : Registry :=
  { r with
    buckets := r.buckets.keeping keep
    live := r.buckets.serials.countP keep
    stats := { r.stats with
      evictions := r.stats.evictions + r.buckets.serials.countP fun n => !keep n } }

theorem Lists.keeping_eq_self {pool : PoolId} {entries : List (Entry σ)}
    (h : r.Lists pool entries) (hkeep : ∀ n ∈ r.buckets.serials, keep n = true) :
    r.keeping keep = r := by
  have hlive : r.buckets.serials.countP keep = r.live := by
    rw [List.countP_eq_length.2 hkeep, h.live_eq, Buckets.length_listing]
  have hnone : r.buckets.serials.countP (fun n => !keep n) = 0 :=
    List.countP_eq_zero.2 fun n hn => by simp [hkeep n hn]
  rw [keeping, h.proper.keeping_eq_self hkeep, hlive, hnone, Nat.add_zero]

theorem EvictsOne.serials_perm (h : r.EvictsOne hash serial r') :
    r.buckets.serials.Perm (serial :: r'.buckets.serials) := by
  obtain ⟨before, front, back, after, hbuckets, -, -, -, heq⟩ := h
  have hafter : Buckets.serials
      (if front ++ back = [] then after else (hash, front ++ back) :: after) =
        front ++ (back ++ Buckets.serials after) := by
    split_ifs with hnil
    · rw [← List.append_assoc, hnil, List.nil_append]
    · rw [Buckets.serials_cons, List.append_assoc]
  have hserials : r'.buckets.serials =
      before.serials ++ front ++ (back ++ Buckets.serials after) := by
    rw [heq, Buckets.serials_append, hafter, List.append_assoc]
  rw [hserials, hbuckets, Buckets.serials_append, Buckets.serials_cons, List.append_assoc,
    List.cons_append, ← List.append_assoc]
  exact List.perm_middle

/-- An eviction of a serial that is not to be kept makes no difference. -/
theorem EvictsOne.keeping_eq (h : r.EvictsOne hash serial r') (hkeep : keep serial = false) :
    r'.keeping keep = r.keeping keep := by
  have hserials := h.serials_perm
  have hlive : r'.buckets.serials.countP keep = r.buckets.serials.countP keep := by
    rw [hserials.countP_eq, List.countP_cons_of_neg (by simp [hkeep])]
  have hgone : r'.buckets.serials.countP (fun n => !keep n) + 1 =
      r.buckets.serials.countP fun n => !keep n := by
    rw [hserials.countP_eq, List.countP_cons_of_pos (by simp [hkeep])]
  obtain ⟨before, front, back, after, hbuckets, -, -, -, heq⟩ := h
  have hkept : r'.buckets.keeping keep = r.buckets.keeping keep := by
    have hafter : Buckets.keeping keep
        (if front ++ back = [] then after else (hash, front ++ back) :: after) =
          Buckets.keeping keep ((hash, front ++ serial :: back) :: after) := by
      rw [Buckets.keeping_cons, List.filter_append, List.filter_cons_of_neg (by simp [hkeep]),
        ← List.filter_append]
      by_cases hnil : front ++ back = []
      · rw [if_pos hnil, hnil, List.filter_nil, if_pos rfl]
      · rw [if_neg hnil, Buckets.keeping_cons]
    rw [heq, hbuckets, Buckets.keeping_append, Buckets.keeping_append, hafter]
  have hstats : r'.stats = { r.stats with evictions := r.stats.evictions + 1 } := by rw [heq]
  have hcapacity : r'.capacity = r.capacity := by rw [heq]
  have hnext : r'.nextSerial = r.nextSerial := by rw [heq]
  simp only [keeping, hkept, hlive, ← hgone, hstats, hcapacity, hnext, Nat.add_assoc,
    Nat.add_comm 1]

end Registry

/-! ## One registry for each pool -/

namespace Store

/-- The pools in use. -/
def poolIds (s : Store σ) : List PoolId := s.registries.map Prod.fst

@[simp] theorem poolIds_setRegistry (s : Store σ) (pool : PoolId) (r : Registry) :
    (s.setRegistry pool r).poolIds = s.poolIds := by
  simp [poolIds, setRegistry]

theorem isSome_registryOf?_of_mem_poolIds {s : Store σ} {pool : PoolId} (h : pool ∈ s.poolIds) :
    (s.registryOf? pool).isSome = true := by
  obtain ⟨⟨p, r⟩, hmem, rfl⟩ := List.mem_map.1 h
  rw [registryOf?, Option.isSome_iff_ne_none, Ne, List.lookup_eq_none_iff]
  intro hnone
  exact absurd (hnone _ hmem) (by simp)

theorem poolIds_release (s : Store σ) (x : Handle) : (s.release x).1.poolIds = s.poolIds := by
  cases x with
  | sentinel => rfl
  | entry id =>
    rw [release]
    split
    · rfl
    · split
      · rw [evict]
        split
        · rfl
        · split
          · rfl
          · exact poolIds_setRegistry _ _ _
      · rfl

theorem poolIds_promote [ExceptionState σ] {s : Store σ} {pool : PoolId} {staging : Staging σ}
    {p : Promotion σ} (hp : s.promote pool staging = some p) : p.store.poolIds = s.poolIds := by
  obtain ⟨r, -, rfl⟩ := Option.map_eq_some_iff.1 hp
  split
  · exact poolIds_setRegistry _ _ _
  · rw [promoteMembers]
    split <;> exact poolIds_setRegistry _ _ _

end Store

section PoolIds

variable [ExceptionState σ]

theorem Holding.Change.nodup_poolIds {a b : Holding σ} {events : List Event}
    (h : Change a events b) (ha : a.Consistent) (hpools : a.store.poolIds.Nodup) :
    b.store.poolIds.Nodup := by
  cases h with
  | newPool s live capacity =>
    -- The number of a new pool is none of those in use.
    have hfresh : (⟨s.nextPool⟩ : PoolId) ∉ s.poolIds := fun hmem => by
      obtain ⟨r, hr⟩ := Option.isSome_iff_exists.1 (Store.isSome_registryOf?_of_mem_poolIds hmem)
      exact Nat.lt_irrefl _ (Store.Consistent.pool_lt ha hr)
    have hnew : (s.newPool capacity).2.poolIds = s.poolIds ++ [⟨s.nextPool⟩] := List.map_append
    rw [hnew]
    exact List.nodup_append_comm.1 (List.nodup_cons.2 ⟨hfresh, hpools⟩)
  | dropPool s live pool =>
    rw [Store.dropPool]
    split
    · exact hpools
    · exact hpools.sublist (List.filter_sublist.map _)
  | @share s live x hx =>
    cases x <;> exact hpools
  | release s live x =>
    rw [Store.poolIds_release]
    exact hpools
  | promote hp =>
    rw [Store.poolIds_promote hp]
    exact hpools
  | reorder => exact hpools

variable [Std.TransOrd σ]

theorem Holding.Changes.nodup_poolIds {a b : Holding σ} {events : List Event}
    (h : Changes a events b) (ha : a.Consistent) (hpools : a.store.poolIds.Nodup) :
    b.store.poolIds.Nodup := by
  induction h with
  | refl => exact hpools
  | cons first _ ih => exact ih (first.consistent ha) (first.nodup_poolIds ha hpools)

/-- A reachable session has one registry for each pool in use. -/
theorem Session.Reachable.nodup_poolIds {s : Session σ} (hs : s.Reachable) :
    s.store.poolIds.Nodup := by
  refine (Leads.induct (motive := fun s => s.Consistent ∧ s.store.poolIds.Nodup) hs
    ⟨consistent_empty, List.nodup_nil⟩ fun {s op t} h hstep => ⟨h.1.step hstep, ?_⟩).2
  exact ((h.1.tidy.step hstep).changes h.1.tidy).nodup_poolIds h.1.store h.2

end PoolIds

/-! ## Stores with some handles kept -/

namespace Store

/-- The store with only some live handles, when the others have been dropped. -/
def keeping (s : Store σ) (rest : List Handle) : Store σ where
  registries := s.registries.map fun (pool, r) =>
    (pool, r.keeping fun serial => .entry ⟨pool, serial⟩ ∈ rest)
  entries := (s.entries.filter fun e => .entry e.id ∈ rest).map fun e =>
    { e with handles := rest.count (.entry e.id) }
  nextPool := s.nextPool

section Keeping

variable {s : Store σ} {rest : List Handle}

theorem keeping_changeHandles (id : EntryId) (change : ℕ → ℕ) :
    (s.changeHandles id change).keeping rest = s.keeping rest := by
  simp only [keeping, entries_changeHandles, List.filter_map, List.map_map]
  rfl

theorem keeping_removeEntry {id : EntryId} (h : .entry id ∉ rest) :
    (s.removeEntry id).keeping rest = s.keeping rest := by
  have hfilter : (s.removeEntry id).entries.filter (fun e => .entry e.id ∈ rest) =
      s.entries.filter fun e => .entry e.id ∈ rest := by
    rw [entries_removeEntry, List.filter_filter]
    refine List.filter_congr fun e _ => ?_
    by_cases hid : e.id = id
    · simp [hid, h]
    · simp [hid]
  simp only [keeping, hfilter]
  rfl

theorem keeping_setRegistry (hpools : s.poolIds.Nodup) {pool : PoolId} {r r' : Registry}
    (hr : s.registryOf? pool = some r)
    (heq : r'.keeping (fun serial => .entry ⟨pool, serial⟩ ∈ rest) =
      r.keeping fun serial => .entry ⟨pool, serial⟩ ∈ rest) :
    (s.setRegistry pool r').keeping rest = s.keeping rest := by
  have hregistries : (s.setRegistry pool r').registries.map (fun (p, old) =>
      (p, old.keeping fun serial => .entry ⟨p, serial⟩ ∈ rest)) =
      s.registries.map fun (p, old) =>
        (p, old.keeping fun serial => .entry ⟨p, serial⟩ ∈ rest) := by
    rw [setRegistry, List.map_map]
    refine List.map_congr_left fun (p, old) hmem => ?_
    by_cases hp : p = pool
    · subst hp
      have hold : s.registryOf? p = some old := lookup_eq_some_of_mem hpools hmem
      obtain rfl : r = old := Option.some.inj (hr.symm.trans hold)
      simp [heq]
    · simp [hp]
  simp only [keeping, hregistries]
  rfl

end Keeping

namespace Consistent

variable [ExceptionState σ] {s : Store σ} {live rest : List Handle}

/-- A consistent store is what is kept of it with its live handles. -/
theorem keeping_eq_self (h : s.Consistent live) (hpools : s.poolIds.Nodup) :
    s.keeping live = s := by
  have hregistries : s.registries.map (fun (pool, r) =>
      (pool, r.keeping fun serial => .entry ⟨pool, serial⟩ ∈ live)) = s.registries := by
    refine (List.map_congr_left fun (pool, r) hmem => ?_).trans (List.map_id _)
    have hr : s.registryOf? pool = some r := lookup_eq_some_of_mem hpools hmem
    exact congrArg (Prod.mk pool) ((h.lists hr).keeping_eq_self fun n hn =>
      decide_eq_true ((h.mem_serials_iff hr).1 hn))
  have hfilter : s.entries.filter (fun e => .entry e.id ∈ live) = s.entries :=
    List.filter_eq_self.2 fun e he => decide_eq_true ((h.held e.id).2 ⟨e, he, rfl⟩)
  have hentries : s.entries.map (fun e => { e with handles := live.count (.entry e.id) }) =
      s.entries := by
    refine (List.map_congr_left fun e he => ?_).trans (List.map_id _)
    rw [← h.count e he]
    rfl
  rw [keeping, hregistries, hfilter, hentries]

/-- The drop of a handle makes no difference to what is kept with other handles. -/
theorem keeping_release {x : Handle} (h : s.Consistent (x :: live)) (hpools : s.poolIds.Nodup)
    (hrest : ∀ y ∈ rest, y ∈ live) : (s.release x).1.keeping rest = s.keeping rest := by
  cases x with
  | sentinel => rfl
  | entry id =>
    obtain ⟨e, he, rfl, ⟨-, heq⟩ | ⟨hlast, ⟨-, heq⟩ | ⟨r, hr, heq⟩⟩⟩ := h.release_cases
    · rw [heq]
      exact keeping_changeHandles _ _
    · rw [heq]
      exact keeping_removeEntry fun hmem => hlast (hrest _ hmem)
    · -- The registry loses the serial of an entry that is not to be kept either.
      have hnot : .entry e.id ∉ rest := fun hmem => hlast (hrest _ hmem)
      rw [heq]
      refine (keeping_setRegistry (s := s.removeEntry e.id) hpools hr ?_).trans
        (keeping_removeEntry hnot)
      exact (h.evictsOne he hr).keeping_eq (decide_eq_false hnot)

end Consistent

/-! ## What is evicted -/

/-- The serials that the registry of a pool lists. -/
def listed (s : Store σ) (pool : PoolId) : List ℕ :=
  ((s.registryOf? pool).map fun r => r.buckets.serials).getD []

namespace Consistent

variable [ExceptionState σ] {s : Store σ} {live rest : List Handle}

theorem nodup_listed (h : s.Consistent live) (pool : PoolId) : (s.listed pool).Nodup := by
  rw [listed]
  cases hr : s.registryOf? pool with
  | none => exact List.nodup_nil
  | some r => exact h.nodup_serials hr

theorem entryAt?_eq_none_iff (h : s.Consistent live) {id : EntryId} :
    s.entryAt? id = none ↔ Handle.entry id ∉ live := by
  rw [← Option.not_isSome_iff_eq_none, entryAt?_isSome_iff, h.held]

theorem mem_listed_iff (h : s.Consistent live) {pool : PoolId} {serial : ℕ} :
    serial ∈ s.listed pool ↔
      (s.registryOf? pool).isSome = true ∧ Handle.entry ⟨pool, serial⟩ ∈ live := by
  rw [listed]
  cases hr : s.registryOf? pool with
  | none => simp
  | some r => simp [h.mem_serials_iff hr]

/-- The drop of a handle evicts what is no longer listed, of which no handle is left. -/
theorem listed_release {x : Handle} (h : s.Consistent (x :: live)) (pool : PoolId) :
    (s.listed pool).Perm
        (serials .evicted pool (s.release x).2 ++ (s.release x).1.listed pool) ∧
      ∀ n ∈ serials .evicted pool (s.release x).2, Handle.entry ⟨pool, n⟩ ∉ live := by
  cases x with
  | sentinel => exact ⟨.refl _, fun _ hn => by cases hn⟩
  | entry id =>
    obtain ⟨e, he, rfl, ⟨-, heq⟩ | ⟨hlast, ⟨-, heq⟩ | ⟨r, hr, heq⟩⟩⟩ := h.release_cases
    · rw [heq]
      exact ⟨.refl _, by simp⟩
    · rw [heq]
      exact ⟨.refl _, by simp⟩
    · rw [heq, listed, listed, registryOf?_evictFrom, evictFrom, serials_evicted]
      by_cases hpool : pool = e.id.pool
      · subst hpool
        have hremoved : (s.removeEntry e.id).registryOf? e.id.pool = some r := hr
        rw [if_pos ⟨rfl, rfl⟩, if_pos rfl, hremoved, hr]
        refine ⟨(h.evictsOne he hr).serials_perm, fun n hn => ?_⟩
        rw [List.mem_singleton.1 hn]
        exact hlast
      · rw [if_neg fun heq => hpool heq.2.symm, if_neg hpool]
        exact ⟨.refl _, by simp⟩

/-- After some handles have been dropped, the store is what is kept with the others, and the serials
without another handle have been evicted. -/
theorem releaseAll {dropped : List Handle} (h : s.Consistent (dropped ++ rest))
    (hpools : s.poolIds.Nodup) :
    (Session.releaseAll s dropped).1 = s.keeping rest ∧
      ∀ pool, (serials .evicted pool (Session.releaseAll s dropped).2).Perm
        ((s.listed pool).filter fun n => Handle.entry ⟨pool, n⟩ ∉ rest) := by
  -- What is kept with the rest is the same before and after each drop, and all there is at the end.
  induction dropped generalizing s with
  | nil =>
    refine ⟨(h.keeping_eq_self hpools).symm, fun pool => ?_⟩
    have hnone : (s.listed pool).filter (fun n => Handle.entry ⟨pool, n⟩ ∉ rest) = [] := by
      refine List.filter_eq_nil_iff.2 fun n hn => ?_
      simpa using (h.mem_listed_iff.1 hn).2
    rw [hnone]
    exact .refl _
  | cons x dropped ih =>
    obtain ⟨hkeeping, hevicted⟩ := ih h.release ((poolIds_release s x).symm ▸ hpools)
    have hrest : ∀ y ∈ rest, y ∈ dropped ++ rest := fun y hy => List.mem_append_right _ hy
    refine ⟨hkeeping.trans (h.keeping_release hpools hrest), fun pool => ?_⟩
    obtain ⟨hlisted, hgone⟩ := h.listed_release pool
    have hall : (serials .evicted pool (s.release x).2).filter
        (fun n => Handle.entry ⟨pool, n⟩ ∉ rest) = serials .evicted pool (s.release x).2 :=
      List.filter_eq_self.2 fun n hn => decide_eq_true fun hmem => hgone n hn (hrest _ hmem)
    have hfilter := hlisted.filter fun n => decide (Handle.entry ⟨pool, n⟩ ∉ rest)
    rw [List.filter_append, hall] at hfilter
    rw [Session.releaseAll, serials_append]
    exact ((hevicted pool).append_left _).trans hfilter.symm

end Consistent

/-! ## What is kept -/

theorem registryOf?_keeping (s : Store σ) (rest : List Handle) (pool : PoolId) :
    (s.keeping rest).registryOf? pool =
      (s.registryOf? pool).map fun r => r.keeping fun n => .entry ⟨pool, n⟩ ∈ rest := by
  rw [registryOf?, registryOf?, keeping]
  induction s.registries with
  | nil => rfl
  | cons entry l ih =>
    obtain ⟨p, r⟩ := entry
    rw [List.map_cons, lookup_cons_ite, lookup_cons_ite, ih]
    split_ifs with hp
    · rw [hp]
      rfl
    · rfl

theorem entryAt?_keeping (s : Store σ) (rest : List Handle) (id : EntryId) :
    (s.keeping rest).entryAt? id =
      if Handle.entry id ∈ rest then
        (s.entryAt? id).map fun e => { e with handles := rest.count (.entry id) }
      else none := by
  have hkept : ((fun e : Entry σ => decide (e.id = id)) ∘ fun e : Entry σ =>
      { e with handles := rest.count (.entry e.id) }) = fun e => decide (e.id = id) := rfl
  rw [entryAt?, keeping, List.find?_map, hkept, List.find?_filter]
  split_ifs with hid
  · have hpred : (fun e : Entry σ => decide (decide (Handle.entry e.id ∈ rest) = true ∧
        decide (e.id = id) = true)) = fun e => decide (e.id = id) := by
      funext e
      by_cases heq : e.id = id <;> simp [heq, hid]
    rw [hpred, ← entryAt?]
    cases hentry : s.entryAt? id with
    | none => rfl
    | some e => rw [Option.map_some, Option.map_some, (mem_of_entryAt?_eq_some hentry).2]
  · rw [Option.map_eq_none_iff, List.find?_eq_none]
    rintro e - heq
    obtain ⟨hmem, heq⟩ := of_decide_eq_true heq
    rw [of_decide_eq_true heq] at hmem
    exact hid (of_decide_eq_true hmem)

end Store

/-! ## Sessions -/

namespace Session

/-- The session without some names, whose handles have been dropped. -/
def without (s : Session σ) (names : List String) : Session σ :=
  { s with
    store := s.store.keeping (s.handles.without names).values
    handles := s.handles.without names }

variable [ExceptionState σ]

/-- Dropping the handles of some names releases them in this order. -/
theorem run_drops {s : Session σ} {names : List String} (hnodup : names.Nodup)
    (hnames : ∀ name ∈ names, (s.handles.get? name).isSome = true) :
    s.run (names.map .drop) = some
      ({ s with
          store := (releaseAll s.store (s.handles.valuesOf names)).1
          handles := s.handles.without names },
        (releaseAll s.store (s.handles.valuesOf names)).2) := by
  induction names generalizing s with
  | nil =>
    rw [NameMap.without_nil]
    rfl
  | cons name names ih =>
    obtain ⟨hnot, hnodup⟩ := List.nodup_cons.1 hnodup
    obtain ⟨hname, hnames⟩ := List.forall_mem_cons.1 hnames
    obtain ⟨x, hx⟩ := Option.isSome_iff_exists.1 hname
    have hstep : s.step (.drop name) = some
        ({ s with store := (s.store.release x).1, handles := s.handles.erase name },
          (s.store.release x).2) := by simp [step, hx]
    rw [List.map_cons, run, hstep, NameMap.without_cons, NameMap.valuesOf_cons hx hnot]
    refine (congrArg (Option.bind · _) (ih hnodup fun other hmem => ?_)).trans rfl
    exact (congrArg Option.isSome (NameMap.get?_erase_of_mem hnot hmem _)).trans (hnames other hmem)

variable [Std.TransOrd σ]

/-- The drops leave what is kept with the other handles, and evict the serials without one. -/
theorem Reachable.run_drops {s : Session σ} (hs : s.Reachable) {names : List String}
    (hnodup : names.Nodup) (hnames : ∀ name ∈ names, (s.handles.get? name).isSome = true) :
    ∃ events, s.run (names.map .drop) = some (s.without names, events) ∧
      ∀ pool, (serials .evicted pool events).Perm ((s.store.listed pool).filter fun n =>
        Handle.entry ⟨pool, n⟩ ∉ (s.handles.without names).values) := by
  have hperm := hs.consistent.tidy.handles.values_without hnodup hnames
  obtain ⟨hstore, hevicted⟩ := (hs.store.perm hperm).releaseAll hs.nodup_poolIds
  refine ⟨_, (Session.run_drops hnodup hnames).trans ?_, hevicted⟩
  rw [hstore, Session.without]

theorem Reachable.without {s : Session σ} (hs : s.Reachable) {names : List String}
    (hnodup : names.Nodup) (hnames : ∀ name ∈ names, (s.handles.get? name).isSome = true) :
    (s.without names).Reachable := by
  obtain ⟨events, hrun, -⟩ := hs.run_drops hnodup hnames
  exact Leads.trans hs ⟨_, events, hrun⟩

/-- Take a reachable session and some of its handles. (1) In every order they can be dropped, and
the session that is left is always the same; in a pool in use, the drops evict once each the entries
that had handles, all of which were among them, and no others. In that session (2) the registry of a
pool in use has its buckets without the serials that have no handle left, and counts those as
evicted; (3) an entry is gone if all its handles were dropped, and is otherwise as it was, but for
the count of its handles; (4) which is the number of those that are left. -/
theorem drops_commute {s : Session σ} (hs : s.Reachable) {names : List String}
    (hnodup : names.Nodup) (hnames : ∀ name ∈ names, (s.handles.get? name).isSome = true) :
    (∀ order : List String, order.Perm names → ∃ events,
      s.run (order.map .drop) = some (s.without names, events) ∧
      ∀ pool, (serials .evicted pool events).Nodup ∧ ∀ serial,
        serial ∈ serials .evicted pool events ↔
          (s.store.registryOf? pool).isSome = true ∧
          (∃ name, s.handles.get? name = some (.entry ⟨pool, serial⟩)) ∧
          ∀ name, s.handles.get? name = some (.entry ⟨pool, serial⟩) → name ∈ names) ∧
    (∀ pool, (s.without names).store.registryOf? pool =
      (s.store.registryOf? pool).map fun r => r.keeping fun serial =>
        .entry ⟨pool, serial⟩ ∈ (s.without names).handles.values) ∧
    (∀ id, (s.without names).store.entryAt? id =
      if Handle.entry id ∈ (s.without names).handles.values then
        (s.store.entryAt? id).map fun e =>
          { e with handles := (s.without names).handles.values.count (.entry id) }
      else none) ∧
    (∀ id, (s.without names).store.entryAt? id = none ↔
      ∀ name, s.handles.get? name = some (.entry id) → name ∈ names) ∧
    ∀ id, (s.without names).store.refCount (.entry id) =
      (s.without names).handles.values.count (.entry id) := by
  have hhandles := hs.consistent.tidy.handles
  have hafter : (s.without names).store.Consistent (s.handles.without names).values :=
    (hs.without hnodup hnames).store
  refine ⟨fun order horder => ?_, Store.registryOf?_keeping _ _, Store.entryAt?_keeping _ _,
    fun id => ?_, fun id => ?_⟩
  · have hwithout : s.without order = s.without names := by
      rw [without, NameMap.without_congr fun _ => horder.mem_iff, without]
    obtain ⟨events, hrun, hevicted⟩ := hs.run_drops (horder.nodup_iff.2 hnodup) fun name hname =>
      hnames name (horder.mem_iff.1 hname)
    refine ⟨events, hwithout ▸ hrun, fun pool => ⟨?_, fun serial => ?_⟩⟩
    · exact (hevicted pool).nodup_iff.2 ((hs.store.nodup_listed pool).filter _)
    · rw [(hevicted pool).mem_iff, List.mem_filter, decide_eq_true_eq, hs.store.mem_listed_iff,
        hhandles.mem_values_iff, hhandles.not_mem_values_without_iff, and_assoc]
      simp only [horder.mem_iff]
  · rw [← hhandles.not_mem_values_without_iff]
    exact hafter.entryAt?_eq_none_iff
  · exact hafter.refCount_eq_count id

/-! ## Drops in two pools -/

/-- After the run with collisions: a set of a second pool, the sentinel, and a clone of `"e"`. -/
def pooling : List (Operation KeyedState) :=
  [.newPool "q" 0, .intern "q" [⟨1, 7, false, false⟩] "f", .newSentinel "g", .clone "e" "h"]

theorem isSome_run_pooling : (collided.run pooling).isSome = true := by
  decide +kernel

/-- The session that `pooling` leads to. -/
def pooled : Session KeyedState := ((collided.run pooling).get isSome_run_pooling).1

theorem reachable_pooled : pooled.Reachable :=
  Leads.trans reachable_collided ⟨pooling, _, (Option.some_get isSome_run_pooling).symm⟩

/-- The names that are dropped; the sets of `"a"` and `"e"` share a bucket. -/
def droppedNames : List String := ["a", "c", "d", "e", "f", "g"]

/-- Forwards and backwards the drops leave the same session. The sets of `"a"` and of `"f"` are
evicted, each from its pool; that of `"e"` is not, and has one handle left. -/
theorem drops_commute_pooled :
    ∃ events events',
      pooled.run (droppedNames.map .drop) = some (pooled.without droppedNames, events) ∧
      pooled.run (droppedNames.reverse.map .drop) =
        some (pooled.without droppedNames, events') ∧
      0 ∈ serials .evicted ⟨0⟩ events ∧ 0 ∈ serials .evicted ⟨1⟩ events ∧
      3 ∉ serials .evicted ⟨0⟩ events' ∧
      (pooled.without droppedNames).store.refCount (.entry ⟨⟨0⟩, 3⟩) = 1 := by
  have hordered := reachable_pooled.consistent.tidy.handles
  obtain ⟨horders, -, -, -, hcount⟩ := drops_commute reachable_pooled
    (by decide : droppedNames.Nodup) (by decide +kernel)
  obtain ⟨events, hrun, hevicted⟩ := horders droppedNames (.refl _)
  obtain ⟨events', hrun', hevicted'⟩ := horders droppedNames.reverse (List.reverse_perm _)
  refine ⟨events, events', hrun, hrun',
    ((hevicted ⟨0⟩).2 0).2 ⟨by decide +kernel, ⟨"a", by decide +kernel⟩, ?_⟩,
    ((hevicted ⟨1⟩).2 0).2 ⟨by decide +kernel, ⟨"f", by decide +kernel⟩, ?_⟩,
    fun hmem => ?_, (hcount _).trans (by decide +kernel)⟩
  · exact hordered.not_mem_values_without_iff.1 (by decide +kernel)
  · exact hordered.not_mem_values_without_iff.1 (by decide +kernel)
  · have hall := (((hevicted' ⟨0⟩).2 3).1 hmem).2.2 "h" (by decide +kernel)
    exact absurd hall (by decide)

end Session

end PathIdentity
