import PathIdentity.Proofs.Pool.Reachable
import Mathlib.Algebra.Ring.Nat
import Mathlib.Data.Finset.Card
import Mathlib.Data.List.Dedup

/-!
# Registries agree with live handles

In a reachable session every pool with a name has a registry that knows its live handles: its
buckets list exactly the serials with a live handle, each once and under the hash of its members,
and its counter is their number, which is the number of different handles of the pool. Every entry
has as many handles as it counts, and its members ascend.
-/

namespace PathIdentity

namespace Buckets

theorem length_serials (b : Buckets) : b.serials.length = (b.map fun e => e.2.length).sum :=
  List.length_flatMap

theorem length_listing (b : Buckets) : b.listing.length = b.serials.length := by
  rw [← map_snd_listing, List.length_map]

end Buckets

variable {σ : Type}

theorem Handle.isSentinel_eq_false_and_belongsTo_iff {h : Handle} {pool : PoolId} :
    (!h.isSentinel && h.belongsTo pool) = true ↔ ∃ serial, h = .entry ⟨pool, serial⟩ := by
  cases h with
  | sentinel => simp [isSentinel]
  | entry id =>
    obtain ⟨p, n⟩ := id
    simp [isSentinel, belongsTo, eq_comm]

/-- Entries are different, and so are their serials within a pool. -/
theorem nodup_serials_of_ids {entries : List (Entry σ)} (hids : (entries.map Entry.id).Nodup)
    (pool : PoolId) : ((entryListing pool entries).map Prod.snd).Nodup := by
  rw [entryListing, List.map_map]
  refine List.Nodup.map_on (fun e he f hf heq => ?_) ((List.Nodup.of_map _ hids).filter _)
  have hserial : e.id.serial = f.id.serial := heq
  have hpool : e.id.pool = f.id.pool := by
    rw [of_decide_eq_true (List.mem_filter.1 he).2, of_decide_eq_true (List.mem_filter.1 hf).2]
  have hid : e.id = f.id := by
    rw [show e.id = ⟨e.id.pool, e.id.serial⟩ from rfl, hserial, hpool]
  exact List.inj_on_of_nodup_map hids (List.mem_filter.1 he).1 (List.mem_filter.1 hf).1 hid

namespace Store.Consistent

variable [ExceptionState σ] {s : Store σ} {live : List Handle} {pool : PoolId} {r : Registry}

theorem nodup_serials (h : s.Consistent live) (hr : s.registryOf? pool = some r) :
    r.buckets.serials.Nodup := by
  have hperm := (h.lists hr).listing.map Prod.snd
  rw [Buckets.map_snd_listing] at hperm
  exact hperm.nodup_iff.2 (nodup_serials_of_ids h.ids pool)

/-- The serials in the buckets are those with a live handle. -/
theorem mem_serials_iff (h : s.Consistent live) (hr : s.registryOf? pool = some r) {serial : ℕ} :
    serial ∈ r.buckets.serials ↔ Handle.entry ⟨pool, serial⟩ ∈ live := by
  rw [← Buckets.map_snd_listing, ((h.lists hr).listing.map Prod.snd).mem_iff, h.held]
  simp only [List.mem_map, Prod.exists, exists_eq_right]
  constructor
  · rintro ⟨hash, hmem⟩
    obtain ⟨e, he, hid, -⟩ := mem_entryListing_iff.1 hmem
    exact ⟨e, he, hid⟩
  · rintro ⟨e, he, hid⟩
    exact ⟨e.hash, mem_entryListing_iff.2 ⟨e, he, hid, rfl⟩⟩

/-- A serial stands in the bucket of the hash of its entry. -/
theorem entry_of_mem_bucket (h : s.Consistent live) (hr : s.registryOf? pool = some r)
    {key : UInt64} {bucket : List ℕ} (hbucket : (key, bucket) ∈ r.buckets) {serial : ℕ}
    (hserial : serial ∈ bucket) :
    ∃ e, s.entryAt? ⟨pool, serial⟩ = some e ∧ e.hash = key ∧ setHash e.members = key := by
  have hmem : (key, serial) ∈ r.buckets.listing :=
    Buckets.mem_listing_iff.2 ⟨bucket, hbucket, hserial⟩
  obtain ⟨e, he, hid, rfl⟩ := mem_entryListing_iff.1 ((h.lists hr).listing.mem_iff.1 hmem)
  obtain ⟨log, hlog⟩ := h.made e he
  exact ⟨e, (entryAt?_eq_some_iff h.ids).2 ⟨he, hid⟩, rfl, hlog.hash.symm⟩

/-- The counter of a registry is the number of different handles of its pool. -/
theorem live_eq_card (h : s.Consistent live) (hr : s.registryOf? pool = some r) :
    r.live = (live.filter fun h => !h.isSentinel && h.belongsTo pool).toFinset.card := by
  have hclasses : (live.filter fun h => !h.isSentinel && h.belongsTo pool).toFinset =
      (r.buckets.serials.map fun serial => Handle.entry ⟨pool, serial⟩).toFinset := by
    ext x
    simp only [List.mem_toFinset, List.mem_filter, List.mem_map, h.mem_serials_iff hr,
      Handle.isSentinel_eq_false_and_belongsTo_iff]
    constructor
    · rintro ⟨hx, serial, rfl⟩
      exact ⟨serial, hx, rfl⟩
    · rintro ⟨serial, hx, rfl⟩
      exact ⟨hx, serial, rfl⟩
  have hinj : Function.Injective fun serial => Handle.entry ⟨pool, serial⟩ := by
    intro m n heq
    simpa using heq
  rw [hclasses, List.toFinset_card_of_nodup ((h.nodup_serials hr).map hinj), List.length_map,
    (h.lists hr).live_eq, Buckets.length_listing]

/-- The count of a handle is the number of live handles that are equal to it. -/
theorem refCount_eq_count (h : s.Consistent live) (id : EntryId) :
    s.refCount (.entry id) = live.count (.entry id) := by
  rw [refCount, entryOf?]
  cases hentry : s.entryAt? id with
  | some e =>
    obtain ⟨he, rfl⟩ := mem_of_entryAt?_eq_some hentry
    exact h.count e he
  | none =>
    refine (List.count_eq_zero.2 fun hlive => ?_).symm
    obtain ⟨e, -, -, hsome⟩ := h.exists_entry hlive
    rw [hentry] at hsome
    cases hsome

theorem members_of_mem [Std.TransOrd σ] (h : s.Consistent live) {e : Entry σ}
    (he : e ∈ s.entries) : e.members ≠ [] ∧ Ascending e.members := by
  obtain ⟨log, hlog⟩ := h.made e he
  refine ⟨hlog.members_ne_nil, ?_⟩
  rw [hlog.members]
  exact Staging.ascending_ofList log

end Store.Consistent

namespace Session

variable [ExceptionState σ] [Std.TransOrd σ]

/-- In every reachable session the registry of a pool agrees with the live handles: (a) no bucket is
empty, and each serial in the bucket of a hash has an entry with that hash, which is the hash of its
members; (b) the buckets list each serial with a live handle once, and no others; (c) the counter is
the number of serials and the number of different handles of the pool; (d) entries count their
handles; (e) the members of an entry ascend, and there are some. -/
theorem registry_agrees_with_handles {s : Session σ} (hs : s.Reachable) {name : String}
    {pool : PoolId} (hpool : s.pools.get? name = some pool) :
    ∃ r, s.store.registryOf? pool = some r ∧
      ((r.buckets.map Prod.fst).Nodup ∧ ∀ key bucket, (key, bucket) ∈ r.buckets →
        bucket ≠ [] ∧ ∀ serial ∈ bucket, ∃ e, s.store.entryAt? ⟨pool, serial⟩ = some e ∧
          e.hash = key ∧ setHash e.members = key) ∧
      (r.buckets.serials.Nodup ∧ ∀ serial, serial ∈ r.buckets.serials ↔
        Handle.entry ⟨pool, serial⟩ ∈ s.handles.values) ∧
      (r.live = (r.buckets.map fun entry => entry.2.length).sum ∧
        r.live =
          (s.handles.values.filter fun h => !h.isSentinel && h.belongsTo pool).toFinset.card) ∧
      (∀ id, s.store.refCount (.entry id) = s.handles.values.count (.entry id)) ∧
      ∀ e ∈ s.store.entries, e.members ≠ [] ∧ Ascending e.members := by
  have hcons := hs.consistent
  have hstore : s.store.Consistent s.handles.values := hcons.store
  have hsome := (hcons.pools.isSome_iff pool).2 (NameMap.mem_values_of_get? hpool)
  obtain ⟨r, hr⟩ := Option.isSome_iff_exists.1 hsome
  have hlists := hstore.lists hr
  refine ⟨r, hr, ⟨hlists.proper.keys, fun key bucket hbucket => ?_⟩, ⟨hstore.nodup_serials hr, ?_⟩,
    ⟨?_, hstore.live_eq_card hr⟩, hstore.refCount_eq_count, fun e he => hstore.members_of_mem he⟩
  · exact ⟨hlists.proper.ne_nil _ hbucket, fun serial => hstore.entry_of_mem_bucket hr hbucket⟩
  · exact fun serial => hstore.mem_serials_iff hr
  · rw [hlists.live_eq, Buckets.length_listing, Buckets.length_serials]

/-- After the run with collisions three different handles are alive. -/
theorem registry_agrees_after_collision :
    collided.Reachable ∧ collided.pools.get? "p" = some ⟨0⟩ ∧
      ∃ r, collided.store.registryOf? ⟨0⟩ = some r ∧ r.live = 3 ∧ r.buckets.serials.Nodup ∧
        collided.store.refCount (.entry ⟨⟨0⟩, 0⟩) = 2 := by
  have hpool : collided.pools.get? "p" = some ⟨0⟩ := by decide +kernel
  obtain ⟨r, hr, -, ⟨hnodup, -⟩, ⟨-, hlive⟩, hcount, -⟩ :=
    registry_agrees_with_handles reachable_collided hpool
  refine ⟨reachable_collided, hpool, r, hr, hlive.trans ?_, hnodup, (hcount _).trans ?_⟩
  · decide +kernel
  · decide +kernel

end Session

end PathIdentity
