import PathIdentity.Proofs.Pool.Agreement

/-!
# Eviction takes out one entry

The drop of the last handle of an entry prunes the bucket of its hash: whatever has no entry goes,
and no look is taken at the serial. That this takes out the serial of the entry and no other, and
leaves the others in place (`Registry.EvictsOne`), rests on the agreement of the buckets with the
live handles: every other serial in them has a handle. All other drops leave the registries alone.

A promotion looks through a bucket, and for that takes a reference to each entry in turn. The
search of the model takes none. `Store.searchBucket` is the search with its references counted; as
every entry in a bucket has a handle already, no reference is the last one, and the search ends with
the store that it began with, but for the reference to the entry that was found
(`Store.Consistent.searchBucket_eq`).
-/

namespace PathIdentity

variable {σ : Type}

/-! ## Buckets -/

namespace Buckets

theorem prune_eq_self {hash : UInt64} {b : Buckets} (h : hash ∉ b.map Prod.fst)
    (keep : ℕ → Bool) : b.prune hash keep = b := by
  induction b with
  | nil => rfl
  | cons entry b ih =>
    obtain ⟨key, bucket⟩ := entry
    rw [List.map_cons, List.mem_cons, not_or] at h
    rw [prune_cons, if_neg (Ne.symm h.1), ih h.2]

/-- Pruning a bucket leaves the others in place, and takes the bucket out if nothing is kept. -/
theorem Proper.prune_split {before after : Buckets} {hash : UInt64} {bucket : List ℕ}
    (h : Proper (before ++ (hash, bucket) :: after)) (keep : ℕ → Bool) :
    Buckets.prune hash keep (before ++ (hash, bucket) :: after) =
      before ++ if bucket.filter keep = [] then after else (hash, bucket.filter keep) :: after := by
  have hkeys := h.keys
  rw [List.map_append, List.map_cons, List.nodup_append, List.nodup_cons] at hkeys
  obtain ⟨-, ⟨hafter, -⟩, hdisjoint⟩ := hkeys
  have hbefore : hash ∉ before.map Prod.fst := fun hmem =>
    hdisjoint hash hmem hash List.mem_cons_self rfl
  have hsplit : Buckets.prune hash keep (before ++ (hash, bucket) :: after) =
      Buckets.prune hash keep before ++ Buckets.prune hash keep ((hash, bucket) :: after) :=
    List.filterMap_append
  rw [hsplit, prune_eq_self hbefore, prune_cons, if_pos rfl, prune_eq_self hafter]

end Buckets

/-- Filtering one element out of a list without repetition leaves the others in place. -/
theorem exists_filter_eq_append {α : Type} {l : List α} (hl : l.Nodup) {a : α} (ha : a ∈ l)
    {keep : α → Bool} (hkeep : ∀ b ∈ l, keep b = true ↔ b ≠ a) :
    ∃ front back, l = front ++ a :: back ∧ a ∉ front ++ back ∧ l.filter keep = front ++ back := by
  obtain ⟨front, back, rfl⟩ := List.append_of_mem ha
  have hnot : a ∉ front ++ back := (List.nodup_cons.1 (List.perm_middle.nodup_iff.1 hl)).1
  refine ⟨front, back, rfl, hnot, ?_⟩
  have hself : keep a = false := by
    rw [Bool.eq_false_iff]
    exact fun h => (hkeep a ha).1 h rfl
  have hothers : ∀ b ∈ front ++ back, keep b = true := by
    intro b hb
    refine (hkeep b (List.perm_middle.mem_iff.2 (List.mem_cons_of_mem a hb))).2 ?_
    rintro rfl
    exact hnot hb
  rw [List.filter_append, List.filter_cons_of_neg (by simp [hself]), ← List.filter_append,
    List.filter_eq_self.2 hothers]

/-! ## Registries -/

namespace Registry

/-- One serial goes from the bucket of its hash, and the bucket goes if that was its only one. The
other serials and the other buckets stay in place, and one entry less is counted. -/
def EvictsOne (r : Registry) (hash : UInt64) (serial : ℕ) (r' : Registry) : Prop :=
  ∃ before front back after,
    r.buckets = before ++ (hash, front ++ serial :: back) :: after ∧
    r.buckets.get? hash = some (front ++ serial :: back) ∧
    serial ∉ front ++ back ∧
    0 < r.live ∧
    r' = { r with
      buckets := before ++ if front ++ back = [] then after else (hash, front ++ back) :: after
      live := r.live - 1
      stats := { r.stats with evictions := r.stats.evictions + 1 } }

end Registry

namespace Store.Consistent

variable [ExceptionState σ] {s : Store σ} {live : List Handle} {pool : PoolId} {r : Registry}

/-- A bucket lists no serial twice. -/
theorem nodup_bucket (h : s.Consistent live) (hr : s.registryOf? pool = some r) {hash : UInt64}
    {bucket : List ℕ} (hbucket : (hash, bucket) ∈ r.buckets) : bucket.Nodup :=
  (List.nodup_flatMap.1 (h.nodup_serials hr)).1 _ hbucket

/-- An eviction of an entry that is gone takes out its serial and nothing else. -/
theorem evictsOne (h : s.Consistent live) {e : Entry σ} (he : e ∈ s.entries)
    (hr : s.registryOf? e.id.pool = some r) :
    r.EvictsOne e.hash e.id.serial
      (r.evict e.hash fun n => ((s.removeEntry e.id).entryAt? ⟨e.id.pool, n⟩).isSome) := by
  have hlists := h.lists hr
  obtain ⟨bucket, hget⟩ := hlists.exists_bucket he rfl
  have hbucket := (Buckets.get?_eq_some_iff hlists.proper).1 hget
  have hserial : e.id.serial ∈ bucket := by
    have hmem := (hlists.mem_bucket_iff h.ids he rfl).2 rfl
    rwa [Registry.bucket, hget] at hmem
  -- The other serials of the bucket have entries, which are still there.
  have hkeep : ∀ n ∈ bucket,
      ((s.removeEntry e.id).entryAt? ⟨e.id.pool, n⟩).isSome = true ↔ n ≠ e.id.serial := by
    intro n hn
    obtain ⟨f, hf, -, -⟩ := h.entry_of_mem_bucket hr hbucket hn
    obtain ⟨hfmem, hfid⟩ := mem_of_entryAt?_eq_some hf
    rw [← hfid, isSome_entryAt?_removeEntry hfmem, decide_eq_true_eq, not_iff_not, hfid]
    constructor
    · exact congrArg EntryId.serial
    · rintro rfl
      rfl
  have hdead := h.dead_removeEntry he hr
  obtain ⟨front, back, rfl, hnot, hfilter⟩ :=
    exists_filter_eq_append (h.nodup_bucket hr hbucket) hserial hkeep
  obtain ⟨before, after, hbuckets⟩ := List.append_of_mem hbucket
  have hproper := hlists.proper
  rw [hbuckets] at hproper
  refine ⟨before, front, back, after, hbuckets, hget, hnot, hlists.live_pos he rfl, ?_⟩
  rw [Registry.evict, hdead, hbuckets, hproper.prune_split, hfilter]

/-! ## Drops -/

/-- The drop of the last handle of an entry evicts it from its pool, if the pool is in use. -/
theorem release_last (h : s.Consistent live) {id : EntryId} (hlast : live.count (.entry id) = 1)
    (hr : s.registryOf? id.pool = some r) :
    ∃ e r', s.entryAt? id = some e ∧ r.EvictsOne e.hash id.serial r' ∧
      s.release (.entry id) = ((s.removeEntry id).setRegistry id.pool r',
        [.evicted id e.hash r'.live]) := by
  have hmem : Handle.entry id ∈ live := List.count_pos_iff.1 (by omega)
  have hnot : Handle.entry id ∉ live.erase (.entry id) := by
    rw [← List.count_eq_zero, List.count_erase_self, hlast]
  have hfirst := h.perm (List.perm_cons_erase hmem)
  obtain ⟨e, he, rfl, ⟨hlive, -⟩ | ⟨-, ⟨hnone, -⟩ | ⟨r', hr', heq⟩⟩⟩ := hfirst.release_cases
  · exact absurd hlive hnot
  · rw [hr] at hnone
    cases hnone
  · obtain rfl : r = r' := Option.some.inj (hr.symm.trans hr')
    exact ⟨e, _, (entryAt?_eq_some_iff h.ids).2 ⟨he, rfl⟩, h.evictsOne he hr, heq⟩

/-- A drop that is not that of the last handle, or of an entry whose pool is gone, leaves the
registries alone. -/
theorem release_silent (h : s.Consistent live) {x : Handle} (hx : x ∈ live)
    (hsilent : 1 < live.count x ∨ ∀ id, x = .entry id → s.registryOf? id.pool = none) :
    (s.release x).1.registries = s.registries ∧ (s.release x).2 = [] := by
  cases x with
  | sentinel => exact ⟨rfl, rfl⟩
  | entry id =>
    have hfirst := h.perm (List.perm_cons_erase hx)
    obtain ⟨e, he, rfl, ⟨-, heq⟩ | ⟨hnot, ⟨-, heq⟩ | ⟨r', hr', -⟩⟩⟩ := hfirst.release_cases
    · rw [heq]
      exact ⟨rfl, rfl⟩
    · rw [heq]
      exact ⟨rfl, rfl⟩
    · rcases hsilent with hcount | hnone
      · rw [← List.count_eq_zero, List.count_erase_self] at hnot
        omega
      · rw [hnone e.id rfl] at hr'
        cases hr'

end Store.Consistent

/-! ## Searching a bucket -/

namespace Store

/-- The search of a bucket with its references counted. A reference is taken to each entry that is
looked at, and dropped again if the entry has other members. -/
def searchBucket [Ord σ] (s : Store σ) (pool : PoolId) (members : List σ) :
    List ℕ → Store σ × List Event × Option (Entry σ)
  | [] => (s, [], none)
  | serial :: rest =>
    match s.entryAt? ⟨pool, serial⟩ with
    | none => s.searchBucket pool members rest
    | some e =>
      if sameStates e.members members then (s.share (.entry e.id), [], some e)
      else
        let (left, events) := (s.share (.entry e.id)).release (.entry e.id)
        let (last, later, found) := left.searchBucket pool members rest
        (last, events ++ later, found)

/-- Taking a reference to an entry that has a handle, and dropping it, changes nothing. -/
theorem release_share {s : Store σ} {id : EntryId} {e : Entry σ} (h : s.entryAt? id = some e)
    (hhandles : 0 < e.handles) : (s.share (.entry id)).release (.entry id) = (s, []) := by
  have hshared : (s.share (.entry id)).entryAt? id =
      some { e with handles := e.handles + 1 } := by
    rw [share, entryAt?_changeHandles, if_pos rfl, h]
    rfl
  rw [release_of_shared hshared (Nat.lt_add_of_pos_left hhandles), share]
  have hentries : ((s.changeHandles id (· + 1)).changeHandles id (· - 1)).entries = s.entries := by
    rw [entries_changeHandles, entries_changeHandles, List.map_map]
    refine (List.map_congr_left fun f _ => ?_).trans (List.map_id _)
    by_cases hid : f.id = id
    · subst hid
      simp
    · simp [hid]
  exact congrArg (fun entries => ({ s with entries }, [])) hentries

variable [ExceptionState σ] {s : Store σ} {live : List Handle} {pool : PoolId} {r : Registry}

/-- The entries in a bucket have live handles, so a reference that a search takes is never the last
one. -/
theorem Consistent.mem_of_mem_bucket (h : s.Consistent live) (hr : s.registryOf? pool = some r)
    {hash : UInt64} {serial : ℕ} (hserial : serial ∈ r.bucket hash) :
    Handle.entry ⟨pool, serial⟩ ∈ live := by
  refine (h.mem_serials_iff hr).1 ?_
  rw [← Buckets.map_snd_listing]
  exact List.mem_map_of_mem ((Registry.mem_bucket_iff (h.lists hr).proper).1 hserial)

/-- The counted search finds what the search of a promotion finds. It evicts nothing, and of all
references that it takes the one to the entry that it found is left. -/
theorem Consistent.searchBucket_eq (h : s.Consistent live) (pool : PoolId) (r : Registry)
    (hash : UInt64) (members : List σ) :
    s.searchBucket pool members (r.bucket hash) =
      match s.find? pool r hash members with
      | none => (s, [], none)
      | some e => (s.share (.entry e.id), [], some e) := by
  rw [find?]
  induction r.bucket hash with
  | nil => rfl
  | cons serial rest ih =>
    rw [searchBucket, List.filterMap_cons]
    cases hentry : s.entryAt? ⟨pool, serial⟩ with
    | none => exact ih
    | some e =>
      obtain ⟨he, hid⟩ := mem_of_entryAt?_eq_some hentry
      have hhandles : 0 < e.handles := by
        rw [h.count e he]
        exact List.count_pos_iff.2 ((h.held e.id).2 ⟨e, he, rfl⟩)
      simp only [List.find?_cons]
      cases hsame : sameStates e.members members with
      | true => rfl
      | false =>
        simp only [Bool.false_eq_true, if_false, release_share (hid ▸ hentry) hhandles, ih]
        split <;> rfl

/-- A promotion takes no entry out and no handle away. -/
theorem entries_promote {staging : Staging σ} {p : Promotion σ}
    (hp : s.promote pool staging = some p) :
    (∀ e ∈ s.entries, ∃ f ∈ p.store.entries, f.id = e.id ∧ e.handles ≤ f.handles) ∧
      ∀ id hash count, Event.evicted id hash count ∉ p.events := by
  have hsame (t : Store σ) (ht : t.entries = s.entries) :
      ∀ e ∈ s.entries, ∃ f ∈ t.entries, f.id = e.id ∧ e.handles ≤ f.handles :=
    fun e he => ⟨e, ht ▸ he, rfl, le_rfl⟩
  obtain ⟨r, hr, rfl⟩ := Option.map_eq_some_iff.1 hp
  split
  · exact ⟨hsame _ rfl, by simp⟩
  · rw [promoteMembers]
    split
    · rename_i found _
      refine ⟨fun e he => ?_, by simp⟩
      refine ⟨{ e with handles := if e.id = found.id then e.handles + 1 else e.handles }, ?_, rfl,
        ?_⟩
      · show _ ∈ (changeHandles _ found.id (· + 1)).entries
        rw [entries_changeHandles]
        exact List.mem_map_of_mem he
      · split_ifs <;> simp
    · exact ⟨fun e he => ⟨e, List.mem_append_left _ he, rfl, le_rfl⟩, by simp⟩

end Store

/-! ## Every drop of a run -/

namespace Session

variable [ExceptionState σ] [Std.TransOrd σ]

/-- Take any moment of a run: a reachable session, and what a part of an operation has changed
since. (1) The drop of the last handle of an entry whose pool is in use finds the bucket of the
entry, takes out its serial alone, and counts one entry less, of at least one; other pools and
entries stay as they are. (2) Every other drop leaves all registries as they are. (3) A search of a
bucket takes references only to entries that have a live handle, and so drops none of them; it
leaves the store as it was, but for the reference to the entry that it found. (4) No promotion
evicts an entry. -/
theorem eviction_exact {s : Session σ} (hs : s.Reachable) {events : List Event} {t : Store σ}
    {live : List Handle} (h : Holding.Changes s.holding events ⟨t, live⟩) :
    (∀ id, live.count (.entry id) = 1 → ∀ r, t.registryOf? id.pool = some r →
      ∃ e r', t.entryAt? id = some e ∧ r.EvictsOne e.hash id.serial r' ∧
        (t.release (.entry id)).1.registryOf? id.pool = some r' ∧
        (∀ pool, pool ≠ id.pool →
          (t.release (.entry id)).1.registryOf? pool = t.registryOf? pool) ∧
        (t.release (.entry id)).1.entries = t.entries.filter (fun f => f.id ≠ id) ∧
        (t.release (.entry id)).2 = [.evicted id e.hash r'.live]) ∧
    (∀ x ∈ live, (1 < live.count x ∨ ∀ id, x = .entry id → t.registryOf? id.pool = none) →
      (t.release x).1.registries = t.registries ∧ (t.release x).2 = []) ∧
    (∀ pool r, t.registryOf? pool = some r → ∀ hash members,
      (∀ serial ∈ r.bucket hash, Handle.entry ⟨pool, serial⟩ ∈ live) ∧
      t.searchBucket pool members (r.bucket hash) =
        match t.find? pool r hash members with
        | none => (t, [], none)
        | some e => (t.share (.entry e.id), [], some e)) ∧
    ∀ pool staging p, t.promote pool staging = some p →
      (∀ e ∈ t.entries, ∃ f ∈ p.store.entries, f.id = e.id ∧ e.handles ≤ f.handles) ∧
      ∀ id hash count, Event.evicted id hash count ∉ p.events := by
  have hstore : t.Consistent live := h.consistent hs.consistent.store
  refine ⟨fun id hlast r hr => ?_, fun x hx => hstore.release_silent hx,
    fun pool r hr hash members => ⟨fun serial => hstore.mem_of_mem_bucket hr,
      hstore.searchBucket_eq pool r hash members⟩,
    fun pool staging p => Store.entries_promote⟩
  obtain ⟨e, r', hentry, hevicts, heq⟩ := hstore.release_last hlast hr
  refine ⟨e, r', hentry, hevicts, ?_, fun pool hne => ?_, ?_, ?_⟩ <;> rw [heq]
  · have hremoved : (t.removeEntry id).registryOf? id.pool = some r := hr
    rw [Store.registryOf?_setRegistry, if_pos rfl, hremoved]
    rfl
  · rw [Store.registryOf?_setRegistry, if_neg hne]
    rfl
  · rfl

/-- After the run with collisions the sets of `"a"` and `"e"` share a bucket. The drop of `"e"`
takes out the serial of `"e"` and leaves that of `"a"`. -/
theorem eviction_exact_collided :
    collided.Reachable ∧ ∃ r r', collided.store.registryOf? ⟨0⟩ = some r ∧
      r.buckets.map Prod.snd = [[0, 3], [2]] ∧
      (collided.store.release (.entry ⟨⟨0⟩, 3⟩)).1.registryOf? ⟨0⟩ = some r' ∧
      (∃ hash, r.EvictsOne hash 3 r') ∧ r'.buckets.map Prod.snd = [[0], [2]] := by
  have hlast : collided.handles.values.count (.entry ⟨⟨0⟩, 3⟩) = 1 := by decide +kernel
  have hsome : (collided.store.registryOf? ⟨0⟩).isSome = true := by decide +kernel
  obtain ⟨r, hr⟩ := Option.isSome_iff_exists.1 hsome
  have hbefore : (collided.store.registryOf? ⟨0⟩).map (fun r => r.buckets.map Prod.snd) =
      some [[0, 3], [2]] := by decide +kernel
  have hafter : ((collided.store.release (.entry ⟨⟨0⟩, 3⟩)).1.registryOf? ⟨0⟩).map
      (fun r => r.buckets.map Prod.snd) = some [[0], [2]] := by decide +kernel
  obtain ⟨e, r', -, hevicts, hr', -⟩ :=
    (eviction_exact reachable_collided (.refl collided.holding)).1 ⟨⟨0⟩, 3⟩ hlast r hr
  rw [hr] at hbefore
  rw [hr'] at hafter
  exact ⟨reachable_collided, r, r', hr, Option.some.inj hbefore, hr', ⟨e.hash, hevicts⟩,
    Option.some.inj hafter⟩

end Session

end PathIdentity
