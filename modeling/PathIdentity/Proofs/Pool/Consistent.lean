import PathIdentity.Proofs.Pool.Listing
import PathIdentity.Proofs.Staging

/-!
# Consistency of a store with its live handles

Four things in a store say which sets are alive: the live handles, the counts of the entries, the
buckets of the registries and their counters. `Store.Consistent s live` ties them together for a
list `live` of handles: an entry is in the store exactly if it has a live handle, its count is the
number of them, and the registry of a pool in use lists the entries of that pool (`Registry.Lists`).
It also says that identities are fresh, that the content of an entry comes from a staging set
(`Entry.MadeFrom`), and that no two entries of a pool have the same hash and equal states.

Every elementary operation keeps it: making and dropping pools, sharing and releasing handles
(`Consistent.share`, `Consistent.release`), and promotion (`Consistent.promote`). The states need a
transitive order; nothing is asked of their hash and classification.
-/

namespace PathIdentity

variable {σ : Type} [ExceptionState σ]

/-- The content of an entry is that of the staging set of a log. -/
structure Entry.MadeFrom (e : Entry σ) (log : List σ) : Prop where
  ne_nil : log ≠ []
  members : e.members = (Staging.ofList log).members
  hash : e.hash = setHash e.members
  hasLoop : e.hasLoop = (Staging.ofList log).hasLoop
  hasFilter : e.hasFilter = (Staging.ofList log).hasFilter

theorem Entry.MadeFrom.members_ne_nil {e : Entry σ} {log : List σ} (h : e.MadeFrom log) :
    e.members ≠ [] := by
  rw [h.members]
  exact fun hnil => h.ne_nil (Staging.members_ofList_eq_nil_iff.1 hnil)

/-- Entries with a new one still differ in content, if the new one differs from all others. -/
theorem Entry.unique_append [Std.TransOrd σ] {entries : List (Entry σ)} {e : Entry σ}
    (h : ∀ f ∈ entries, ∀ g ∈ entries, f.id.pool = g.id.pool → f.hash = g.hash →
      sameStates f.members g.members = true → f.id = g.id)
    (hnew : ∀ f ∈ entries, f.id.pool = e.id.pool → f.hash = e.hash →
      sameStates f.members e.members = false) :
    ∀ f ∈ entries ++ [e], ∀ g ∈ entries ++ [e], f.id.pool = g.id.pool → f.hash = g.hash →
      sameStates f.members g.members = true → f.id = g.id := by
  intro f hfmem g hgmem hpool hhash hsame
  rcases List.mem_append.1 hfmem with hf | hf <;> rcases List.mem_append.1 hgmem with hg | hg
  · exact h f hf g hg hpool hhash hsame
  · obtain rfl := List.mem_singleton.1 hg
    rw [hnew f hf hpool hhash] at hsame
    cases hsame
  · obtain rfl := List.mem_singleton.1 hf
    have hsame := sameStates_symm hsame
    rw [hnew g hg hpool.symm hhash.symm] at hsame
    cases hsame
  · rw [List.mem_singleton.1 hf, List.mem_singleton.1 hg]

namespace Store

/-- The store agrees with the list of its live handles. -/
structure Consistent (s : Store σ) (live : List Handle) : Prop where
  lists : ∀ {pool r}, s.registryOf? pool = some r → r.Lists pool s.entries
  pool_lt : ∀ {pool r}, s.registryOf? pool = some r → pool.number < s.nextPool
  ids : (s.entries.map Entry.id).Nodup
  id_lt : ∀ e ∈ s.entries, e.id.pool.number < s.nextPool
  made : ∀ e ∈ s.entries, ∃ log, e.MadeFrom log
  unique : ∀ e ∈ s.entries, ∀ f ∈ s.entries, e.id.pool = f.id.pool → e.hash = f.hash →
    sameStates e.members f.members = true → e.id = f.id
  count : ∀ e ∈ s.entries, e.handles = live.count (.entry e.id)
  held : ∀ id, Handle.entry id ∈ live ↔ ∃ e ∈ s.entries, e.id = id

namespace Consistent

variable {s : Store σ} {live : List Handle}

theorem empty : Consistent ({} : Store σ) [] where
  lists h := by cases h
  pool_lt h := by cases h
  ids := List.nodup_nil
  id_lt := by simp
  made := by simp
  unique := by simp
  count := by simp
  held := by simp

theorem perm {live' : List Handle} (h : s.Consistent live) (hperm : live.Perm live') :
    s.Consistent live' :=
  { h with
    count := fun e he => (h.count e he).trans (hperm.count_eq _)
    held := fun id => hperm.mem_iff.symm.trans (h.held id) }

/-- Handles without an entry do not matter. -/
theorem sentinel_iff : s.Consistent (.sentinel :: live) ↔ s.Consistent live := by
  constructor <;> intro h <;>
    exact { h with
      count := fun e he => by simpa using h.count e he
      held := fun id => by simpa using h.held id }

/-! ## Pools -/

theorem setRegistry (h : s.Consistent live) {pool : PoolId} {r : Registry}
    (hr : r.Lists pool s.entries) : (s.setRegistry pool r).Consistent live := by
  refine { h with lists := fun {other r'} hr' => ?_, pool_lt := fun {other r'} hr' => ?_ } <;>
    rw [registryOf?_setRegistry] at hr' <;> split_ifs at hr' with ho
  · obtain ⟨old, -, rfl⟩ := Option.map_eq_some_iff.1 hr'
    exact ho ▸ hr
  · exact h.lists hr'
  · obtain ⟨old, hold, -⟩ := Option.map_eq_some_iff.1 hr'
    exact h.pool_lt hold
  · exact h.pool_lt hr'

theorem newPool (h : s.Consistent live) (capacity : ℕ) :
    (s.newPool capacity).2.Consistent live := by
  have hnext : (s.newPool capacity).2.nextPool = s.nextPool + 1 := rfl
  refine { h with
    lists := fun {pool r} hr => ?_
    pool_lt := fun {pool r} hr => ?_
    id_lt := fun e he => Nat.lt_succ_of_lt (h.id_lt e he) } <;>
    rw [registryOf?_newPool, Option.or_eq_some_iff] at hr <;>
    rcases hr with hr | ⟨-, hr⟩
  · exact h.lists hr
  · split_ifs at hr with hpool
    cases hr
    refine Registry.Lists.new pool capacity fun e he heq => ?_
    have hlt := h.id_lt e he
    rw [heq, hpool] at hlt
    exact Nat.lt_irrefl _ hlt
  · rw [hnext]
    exact Nat.lt_succ_of_lt (h.pool_lt hr)
  · split_ifs at hr with hpool
    rw [hnext, hpool]
    exact Nat.lt_succ_self _

theorem dropPool (h : s.Consistent live) (pool : PoolId) :
    (s.dropPool pool).1.Consistent live := by
  have hr {other : PoolId} {r : Registry} (hr : (s.dropPool pool).1.registryOf? other = some r) :
      s.registryOf? other = some r := by
    rw [registryOf?_dropPool] at hr
    split_ifs at hr
    exact hr
  refine ⟨fun h' => ?_, fun h' => ?_, ?_, ?_, ?_, ?_, ?_, ?_⟩ <;>
    simp only [entries_dropPool, nextPool_dropPool]
  · exact h.lists (hr h')
  · exact h.pool_lt (hr h')
  · exact h.ids
  · exact h.id_lt
  · exact h.made
  · exact h.unique
  · exact h.count
  · exact h.held

/-! ## Handles -/

/-- Counts and live handles may change together. -/
theorem changeHandles {live' : List Handle} (h : s.Consistent live) {id : EntryId}
    {change : ℕ → ℕ}
    (hcount : ∀ e ∈ s.entries,
      (if e.id = id then change e.handles else e.handles) = live'.count (.entry e.id))
    (hmem : ∀ i, Handle.entry i ∈ live' ↔ Handle.entry i ∈ live) :
    (s.changeHandles id change).Consistent live' := by
  have hids := ids_changeHandles s id change
  have hlisted : (s.changeHandles id change).entries.map (fun e => (e.id, e.hash)) =
      s.entries.map fun e => (e.id, e.hash) := by
    rw [entries_changeHandles, List.map_map]
    rfl
  refine ⟨fun hr => (h.lists hr).changeEntries hlisted, fun hr => h.pool_lt hr, hids ▸ h.ids,
    ?_, ?_, ?_, ?_, fun i => ?_⟩
  · rw [entries_changeHandles]
    exact List.forall_mem_map.2 h.id_lt
  · rw [entries_changeHandles]
    refine List.forall_mem_map.2 fun e he => ?_
    obtain ⟨log, hlog⟩ := h.made e he
    exact ⟨log, hlog.ne_nil, hlog.members, hlog.hash, hlog.hasLoop, hlog.hasFilter⟩
  · rw [entries_changeHandles]
    exact List.forall_mem_map.2 fun e he => List.forall_mem_map.2 (h.unique e he)
  · rw [entries_changeHandles]
    exact List.forall_mem_map.2 hcount
  · rw [hmem, h.held, ← List.mem_map, ← List.mem_map, hids]

theorem share (h : s.Consistent live) {id : EntryId} (hid : Handle.entry id ∈ live) :
    (s.share (.entry id)).Consistent (.entry id :: live) := by
  refine h.changeHandles (fun e he => ?_) fun i => ?_
  · have hcount := h.count e he
    by_cases heq : e.id = id
    · simp [heq, hcount]
    · simp [heq, hcount, Ne.symm heq]
  · rw [List.mem_cons, or_iff_right_iff_imp]
    rintro heq
    exact heq ▸ hid

/-- The entry of a live handle. -/
theorem exists_entry (h : s.Consistent live) {id : EntryId} (hid : Handle.entry id ∈ live) :
    ∃ e ∈ s.entries, e.id = id ∧ s.entryAt? id = some e := by
  obtain ⟨e, he, heq⟩ := (h.held id).1 hid
  exact ⟨e, he, heq, (entryAt?_eq_some_iff h.ids).2 ⟨he, heq⟩⟩

/-! ## Releasing -/

/-- What a release does: it takes one from the count, or it takes the entry out of the store, and
then out of the registry of its pool if the pool is in use. -/
theorem release_cases {id : EntryId} (h : s.Consistent (.entry id :: live)) :
    ∃ e ∈ s.entries, e.id = id ∧
      (Handle.entry id ∈ live ∧ s.release (.entry id) = (s.changeHandles id (· - 1), []) ∨
        Handle.entry id ∉ live ∧
          (s.registryOf? id.pool = none ∧ s.release (.entry id) = (s.removeEntry id, []) ∨
            ∃ r, s.registryOf? id.pool = some r ∧
              s.release (.entry id) = (s.removeEntry id).evictFrom id.pool r e)) := by
  obtain ⟨e, he, hid, hentry⟩ := h.exists_entry List.mem_cons_self
  have hcount := h.count e he
  rw [hid, List.count_cons_self] at hcount
  refine ⟨e, he, hid, ?_⟩
  by_cases hlive : Handle.entry id ∈ live
  · have hpos : 0 < live.count (.entry id) := List.count_pos_iff.2 hlive
    refine Or.inl ⟨hlive, ?_⟩
    rw [release_of_shared hentry (by omega)]
  · have hzero : live.count (.entry id) = 0 := List.count_eq_zero.2 hlive
    refine Or.inr ⟨hlive, ?_⟩
    rw [release_of_last hentry (by omega), ← hid]
    cases hr : s.registryOf? e.id.pool with
    | none => exact Or.inl ⟨rfl, evict_of_registry_none hr⟩
    | some r =>
      obtain ⟨bucket, hbucket⟩ := (h.lists hr).exists_bucket he rfl
      exact Or.inr ⟨r, rfl, evict_of_registry_some hr hbucket⟩

/-- Of its bucket, an entry that is gone is the only serial without an entry. -/
theorem dead_removeEntry (h : s.Consistent live) {e : Entry σ} (he : e ∈ s.entries) {r : Registry}
    (hr : s.registryOf? e.id.pool = some r) :
    r.dead e.hash
      (fun serial => ((s.removeEntry e.id).entryAt? ⟨e.id.pool, serial⟩).isSome) = 1 := by
  refine (h.lists hr).dead_eq_one h.ids he rfl fun f hf hpool => ?_
  rw [← hpool]
  exact isSome_entryAt?_removeEntry hf

/-- A store without an entry whose last handle is gone, with registries that agree to that. -/
theorem removeEntry {id : EntryId} (h : s.Consistent (.entry id :: live))
    (hlast : Handle.entry id ∉ live) {s' : Store σ}
    (hentries : s'.entries = (s.removeEntry id).entries) (hnext : s'.nextPool = s.nextPool)
    (hpools : ∀ {pool r}, s'.registryOf? pool = some r →
      r.Lists pool s'.entries ∧ (s.registryOf? pool).isSome = true) : s'.Consistent live := by
  have hmem {f : Entry σ} : f ∈ s'.entries ↔ f ∈ s.entries ∧ f.id ≠ id := by
    rw [hentries, entries_removeEntry, List.mem_filter, decide_eq_true_eq]
  refine ⟨fun hr => (hpools hr).1, fun {pool r} hr => ?_, ?_, fun f hf => ?_, fun f hf => ?_,
    fun f hf g hg => ?_, fun f hf => ?_, fun i => ?_⟩
  · obtain ⟨r', hr'⟩ := Option.isSome_iff_exists.1 (hpools hr).2
    exact hnext ▸ h.pool_lt hr'
  · rw [hentries]
    exact h.ids.sublist (List.filter_sublist.map _)
  · exact hnext ▸ h.id_lt f (hmem.1 hf).1
  · exact h.made f (hmem.1 hf).1
  · exact h.unique f (hmem.1 hf).1 g (hmem.1 hg).1
  · have hne : Handle.entry id ≠ .entry f.id := fun heq => (hmem.1 hf).2 (Handle.entry.inj heq).symm
    rw [h.count f (hmem.1 hf).1, List.count_cons_of_ne hne]
  · have hheld := h.held i
    rw [List.mem_cons] at hheld
    constructor
    · intro hi
      obtain ⟨f, hf, rfl⟩ := hheld.1 (Or.inr hi)
      exact ⟨f, hmem.2 ⟨hf, fun heq => hlast (heq ▸ hi)⟩, rfl⟩
    · rintro ⟨f, hf, rfl⟩
      refine (hheld.2 ⟨f, (hmem.1 hf).1, rfl⟩).resolve_left fun heq => ?_
      exact (hmem.1 hf).2 (Handle.entry.inj heq)

theorem release {x : Handle} (h : s.Consistent (x :: live)) : (s.release x).1.Consistent live := by
  cases x with
  | sentinel => exact sentinel_iff.1 h
  | entry id =>
    obtain ⟨e, he, rfl, ⟨hlive, heq⟩ | ⟨hlast, hgone⟩⟩ := h.release_cases
    · rw [heq]
      show (s.changeHandles e.id (· - 1)).Consistent live
      refine h.changeHandles (fun f hf => ?_) fun i => ?_
      · have hcount := h.count f hf
        by_cases hid : f.id = e.id
        · rw [hid, List.count_cons_self] at hcount
          rw [if_pos hid, hid, hcount, Nat.add_sub_cancel]
        · have hne : Handle.entry e.id ≠ .entry f.id := fun heq => hid (Handle.entry.inj heq).symm
          rw [if_neg hid, hcount, List.count_cons_of_ne hne]
      · rw [List.mem_cons, iff_or_self]
        rintro heq
        exact heq ▸ hlive
    · -- Pools other than that of the entry keep their registries, which do not list it.
      have hother {pool : PoolId} {r : Registry} (hr : s.registryOf? pool = some r)
          (hne : e.id.pool ≠ pool) : r.Lists pool (s.removeEntry e.id).entries :=
        (h.lists hr).filter_of_ne hne
      rcases hgone with ⟨hnone, heq⟩ | ⟨r, hr, heq⟩
      · rw [heq]
        refine h.removeEntry hlast rfl rfl fun {pool r} hr => ?_
        have hr : s.registryOf? pool = some r := hr
        refine ⟨hother hr fun hpool => ?_, by rw [hr]; rfl⟩
        rw [hpool, hr] at hnone
        cases hnone
      · rw [heq]
        refine h.removeEntry hlast rfl rfl fun {pool r'} hr' => ?_
        rw [registryOf?_evictFrom] at hr'
        split_ifs at hr' with hpool
        · subst hpool
          have hr' : (s.registryOf? e.id.pool).map _ = some r' := hr'
          rw [hr] at hr' ⊢
          cases hr'
          refine ⟨(h.lists hr).evict h.ids he fun f hf hp => ?_, rfl⟩
          rw [← hp]
          exact isSome_entryAt?_removeEntry hf
        · have hr' : s.registryOf? pool = some r' := hr'
          exact ⟨hother hr' (Ne.symm hpool), by rw [hr']; rfl⟩

/-! ## Promoting -/

/-- The entry that a search finds is of the pool, has the hash, and holds equal states. -/
theorem of_find?_eq_some (h : s.Consistent live) {pool : PoolId} {r r' : Registry}
    (hr : s.registryOf? pool = some r) (hbuckets : r'.buckets = r.buckets) {hash : UInt64}
    {members : List σ} {e : Entry σ} (hfind : s.find? pool r' hash members = some e) :
    e ∈ s.entries ∧ e.id.pool = pool ∧ e.hash = hash ∧ sameStates e.members members = true := by
  obtain ⟨he, hpool, hserial, hsame⟩ := Store.of_find?_eq_some hfind
  have hbucket : r'.bucket hash = r.bucket hash := by
    rw [Registry.bucket, hbuckets, Registry.bucket]
  rw [hbucket, (h.lists hr).mem_bucket_iff h.ids he hpool] at hserial
  exact ⟨he, hpool, hserial, hsame⟩

/-- A search that finds nothing leaves no entry of the pool with the hash and equal states. -/
theorem of_find?_eq_none (h : s.Consistent live) {pool : PoolId} {r r' : Registry}
    (hr : s.registryOf? pool = some r) (hbuckets : r'.buckets = r.buckets) {hash : UInt64}
    {members : List σ} (hfind : s.find? pool r' hash members = none) {e : Entry σ}
    (he : e ∈ s.entries) (hpool : e.id.pool = pool) (hhash : e.hash = hash) :
    sameStates e.members members = false := by
  have hbucket : r'.bucket hash = r.bucket hash := by
    rw [Registry.bucket, hbuckets, Registry.bucket]
  refine Store.of_find?_eq_none h.ids hfind he hpool ?_
  rw [hbucket]
  exact ((h.lists hr).mem_bucket_iff h.ids he hpool).2 hhash

/-- What a promotion does: an empty set gives the sentinel, a set with the content of an entry of
the pool shares that entry, and any other set makes an entry. -/
theorem promote_cases (h : s.Consistent live) {pool : PoolId} {log : List σ} {p : Promotion σ}
    (hp : s.promote pool (.ofList log) = some p) :
    ∃ r, s.registryOf? pool = some r ∧
      (log = [] ∧ p = s.promoteEmpty pool r ∨
        log ≠ [] ∧
          ((∃ e ∈ s.entries, e.id.pool = pool ∧ e.hash = setHash (Staging.ofList log).members ∧
              sameStates e.members (Staging.ofList log).members = true ∧
              p = s.promoteFound pool r e) ∨
            (∀ e ∈ s.entries, e.id.pool = pool → e.hash = setHash (Staging.ofList log).members →
              sameStates e.members (Staging.ofList log).members = false) ∧
              p = s.promoteNew pool r (.ofList log))) := by
  obtain ⟨r, hr, rfl⟩ := Option.map_eq_some_iff.1 hp
  refine ⟨r, hr, ?_⟩
  by_cases hlog : log = []
  · exact Or.inl ⟨hlog, if_pos (Staging.isEmpty_ofList_iff.2 hlog)⟩
  · refine Or.inr ⟨hlog, ?_⟩
    rw [if_neg fun hempty => hlog (Staging.isEmpty_ofList_iff.1 hempty), promoteMembers]
    cases hfind : s.find? pool r.countPromotion (setHash (Staging.ofList log).members)
        (Staging.ofList log).members with
    | some e =>
      obtain ⟨he, hpool, hhash, hsame⟩ := h.of_find?_eq_some hr rfl hfind
      refine Or.inl ⟨e, he, hpool, hhash, hsame, ?_⟩
      rw [promoteFound, hhash]
    | none =>
      exact Or.inr ⟨fun e he hpool hhash => h.of_find?_eq_none hr rfl hfind he hpool hhash, rfl⟩

/-- A new entry with a content that no other entry of the pool has. -/
theorem insert [Std.TransOrd σ] (h : s.Consistent live) {pool : PoolId} {r : Registry}
    (hr : r.Lists pool s.entries) (hpool : (s.registryOf? pool).isSome = true) {e : Entry σ}
    (hid : e.id = ⟨pool, r.nextSerial⟩) {log : List σ} (hmade : e.MadeFrom log)
    (hhandles : e.handles = 1)
    (hnew : ∀ f ∈ s.entries, f.id.pool = pool → f.hash = e.hash →
      sameStates f.members e.members = false) :
    (s.insertEntry pool r e).Consistent (.entry e.id :: live) := by
  have hepool : e.id.pool = pool := by rw [hid]
  have hfresh : ∀ f ∈ s.entries, f.id ≠ e.id := hr.ne_next hid
  have hnotheld : Handle.entry e.id ∉ live := by
    rw [h.held]
    rintro ⟨f, hf, heq⟩
    exact hfresh f hf heq
  obtain ⟨old, hold⟩ := Option.isSome_iff_exists.1 hpool
  have hlt : pool.number < s.nextPool := h.pool_lt hold
  refine ⟨fun {other r'} hr' => ?_, fun {other r'} hr' => ?_, ?_, ?_, ?_, ?_, ?_, fun i => ?_⟩
  · rw [registryOf?_insertEntry] at hr'
    split_ifs at hr' with ho
    · obtain ⟨-, -, rfl⟩ := Option.map_eq_some_iff.1 hr'
      exact ho ▸ hr.register hid
    · exact (h.lists hr').append_of_ne (hepool ▸ Ne.symm ho)
  · rw [registryOf?_insertEntry] at hr'
    split_ifs at hr' with ho
    · exact ho ▸ hlt
    · exact h.pool_lt hr'
  · rw [entries_insertEntry, List.map_append, List.nodup_append]
    refine ⟨h.ids, List.nodup_singleton _, ?_⟩
    intro i hi j hj
    obtain ⟨f, hf, rfl⟩ := List.mem_map.1 hi
    rw [List.map_singleton, List.mem_singleton] at hj
    exact hj ▸ hfresh f hf
  · exact List.forall_mem_append.2 ⟨h.id_lt, List.forall_mem_singleton.2 (hepool ▸ hlt)⟩
  · exact List.forall_mem_append.2 ⟨h.made, List.forall_mem_singleton.2 ⟨log, hmade⟩⟩
  · exact Entry.unique_append h.unique (hepool ▸ hnew)
  · refine List.forall_mem_append.2 ⟨fun f hf => ?_, List.forall_mem_singleton.2 ?_⟩
    · have hne : Handle.entry e.id ≠ .entry f.id := fun heq =>
        hfresh f hf (Handle.entry.inj heq).symm
      rw [h.count f hf, List.count_cons_of_ne hne]
    · rw [List.count_cons_self, List.count_eq_zero.2 hnotheld, hhandles]
  · rw [List.mem_cons, Handle.entry.injEq, h.held, entries_insertEntry]
    constructor
    · rintro (rfl | ⟨f, hf, rfl⟩)
      · exact ⟨e, by simp, rfl⟩
      · exact ⟨f, List.mem_append_left _ hf, rfl⟩
    · rintro ⟨f, hf, rfl⟩
      rcases List.mem_append.1 hf with hf | hf
      · exact Or.inr ⟨f, hf, rfl⟩
      · exact Or.inl (by rw [List.mem_singleton.1 hf])

theorem promote [Std.TransOrd σ] (h : s.Consistent live) {pool : PoolId} {log : List σ}
    {p : Promotion σ} (hp : s.promote pool (.ofList log) = some p) :
    p.store.Consistent (p.handle :: live) := by
  obtain ⟨r, hr, ⟨-, rfl⟩ | ⟨hlog, ⟨e, he, -, -, -, rfl⟩ | ⟨hnew, rfl⟩⟩⟩ := h.promote_cases hp
  · have hlists : r.countPromotion.countSentinel.Lists pool s.entries :=
      (h.lists hr).congr rfl rfl rfl
    exact sentinel_iff.2 (h.setRegistry hlists)
  · have hlists : r.countPromotion.countHit.Lists pool s.entries := (h.lists hr).congr rfl rfl rfl
    exact (h.setRegistry hlists).share ((h.held e.id).2 ⟨e, he, rfl⟩)
  · have hlists : r.countPromotion.Lists pool s.entries := (h.lists hr).congr rfl rfl rfl
    have hmade : (makeEntry ⟨pool, r.nextSerial⟩ (.ofList log) : Entry σ).MadeFrom log :=
      ⟨hlog, rfl, rfl, rfl, rfl⟩
    exact h.insert hlists (by rw [hr]; rfl) rfl hmade rfl hnew

end Consistent

end Store

end PathIdentity
