import PathIdentity.Proofs.Pool.Lookup

/-!
# What a registry lists

The registry of a pool and the entries of the pool are kept apart. `Registry.Lists r pool entries`
says that they agree: the buckets of `r` list the entries of `pool` among `entries`, each once and
under its hash, the counter is their number, and their serials are below the next one. Registering a
new entry and evicting one that is gone keep the agreement, and entries of other pools do not
matter.
-/

namespace PathIdentity

variable {σ : Type}

/-! ## The entries of a pool -/

/-- The entries of a pool as its registry lists them. -/
def entryListing (pool : PoolId) (entries : List (Entry σ)) : List (UInt64 × ℕ) :=
  (entries.filter fun e => e.id.pool = pool).map fun e => (e.hash, e.id.serial)

theorem mem_entryListing_iff {pool : PoolId} {entries : List (Entry σ)} {hash : UInt64}
    {serial : ℕ} : (hash, serial) ∈ entryListing pool entries ↔
      ∃ e ∈ entries, e.id = ⟨pool, serial⟩ ∧ e.hash = hash := by
  simp only [entryListing, List.mem_map, List.mem_filter, decide_eq_true_eq, Prod.mk.injEq]
  constructor
  · rintro ⟨e, ⟨he, rfl⟩, rfl, rfl⟩
    exact ⟨e, he, rfl, rfl⟩
  · rintro ⟨e, he, hid, rfl⟩
    exact ⟨e, ⟨he, by rw [hid]⟩, rfl, by rw [hid]⟩

theorem entryListing_append (pool : PoolId) (entries : List (Entry σ)) (e : Entry σ) :
    entryListing pool (entries ++ [e]) =
      entryListing pool entries ++ if e.id.pool = pool then [(e.hash, e.id.serial)] else [] := by
  rw [entryListing, List.filter_append, List.map_append, ← entryListing]
  by_cases h : e.id.pool = pool <;> simp [h]

theorem entryListing_filter (pool : PoolId) (entries : List (Entry σ)) (q : UInt64 × ℕ → Bool)
    (p : Entry σ → Bool)
    (hpq : ∀ e ∈ entries, e.id.pool = pool → q (e.hash, e.id.serial) = p e) :
    (entryListing pool entries).filter q = entryListing pool (entries.filter p) := by
  rw [entryListing, List.filter_map, List.filter_filter, entryListing, List.filter_filter]
  refine congrArg _ (List.filter_congr fun e he => ?_)
  by_cases h : e.id.pool = pool
  · simp [h, hpq e he h]
  · simp [h]

/-- Without one of its entries a pool lists one entry less. -/
theorem length_entryListing_filter {entries : List (Entry σ)}
    (hids : (entries.map Entry.id).Nodup) {e : Entry σ} (he : e ∈ entries) :
    (entryListing e.id.pool (entries.filter fun f => f.id ≠ e.id)).length + 1 =
      (entryListing e.id.pool entries).length := by
  have hlength (l : List (Entry σ)) : (entryListing e.id.pool l).length =
      (l.map Entry.id).countP fun id => id.pool = e.id.pool := by
    rw [entryListing, List.length_map, ← List.countP_eq_length_filter, List.countP_map]
    rfl
  have hmem : e.id ∈ entries.map Entry.id := List.mem_map_of_mem he
  have herase : (entries.filter fun f => f.id ≠ e.id).map Entry.id =
      (entries.map Entry.id).erase e.id := by
    rw [hids.erase_eq_filter, List.filter_map]
    refine congrArg _ (List.filter_congr fun f _ => ?_)
    by_cases hid : f.id = e.id <;> simp [hid]
  rw [hlength, hlength, herase, (List.perm_cons_erase hmem).countP_eq,
    List.countP_cons_of_pos (by simp)]

/-! ## What a registry lists -/

/-- The buckets of a registry list the entries of its pool, each once and under its hash, and the
counter counts them. -/
structure Registry.Lists (r : Registry) (pool : PoolId) (entries : List (Entry σ)) : Prop where
  proper : r.buckets.Proper
  listing : r.buckets.listing.Perm (entryListing pool entries)
  live_eq : r.live = r.buckets.listing.length
  serial_lt : ∀ e ∈ entries, e.id.pool = pool → e.id.serial < r.nextSerial

namespace Registry.Lists

variable {r : Registry} {pool : PoolId} {entries : List (Entry σ)}

/-- Only the buckets, the counter and the next serial matter. -/
theorem congr {r' : Registry} (h : r.Lists pool entries) (hbuckets : r'.buckets = r.buckets)
    (hlive : r'.live = r.live) (hserial : r'.nextSerial = r.nextSerial) :
    r'.Lists pool entries := by
  obtain ⟨hproper, hlisting, hlive', hlt⟩ := h
  exact ⟨hbuckets ▸ hproper, hbuckets ▸ hlisting, by rw [hlive, hlive', hbuckets],
    fun e he hp => hserial ▸ hlt e he hp⟩

/-- The entries of the pool matter only through their identities and hashes. -/
theorem changeEntries {entries' : List (Entry σ)} (h : r.Lists pool entries)
    (heq : entries'.map (fun e => (e.id, e.hash)) = entries.map fun e => (e.id, e.hash)) :
    r.Lists pool entries' := by
  have hlisting (l : List (Entry σ)) : entryListing pool l =
      ((l.map fun e => (e.id, e.hash)).filter fun p => p.1.pool = pool).map
        fun p => (p.2, p.1.serial) := by
    rw [entryListing, List.filter_map, List.map_map]
    rfl
  refine ⟨h.proper, ?_, h.live_eq, fun e he hp => ?_⟩
  · rw [hlisting, heq, ← hlisting]
    exact h.listing
  · have hmem : (e.id, e.hash) ∈ entries'.map fun e => (e.id, e.hash) :=
      List.mem_map_of_mem he
    rw [heq] at hmem
    obtain ⟨f, hf, hid⟩ := List.mem_map.1 hmem
    have hid : f.id = e.id := (Prod.mk.inj hid).1
    rw [← hid] at hp ⊢
    exact h.serial_lt f hf hp

theorem new (pool : PoolId) (capacity : ℕ) (hnone : ∀ e ∈ entries, e.id.pool ≠ pool) :
    Registry.Lists { capacity } pool entries := by
  refine ⟨Buckets.proper_nil, ?_, rfl, fun e he hp => absurd hp (hnone e he)⟩
  have : entryListing pool entries = [] := by
    simpa [entryListing] using hnone
  rw [this]
  exact List.Perm.refl _

/-- Registering puts in the new entry of the next serial. -/
theorem register (h : r.Lists pool entries) {e : Entry σ} (hid : e.id = ⟨pool, r.nextSerial⟩) :
    (r.register e.hash).Lists pool (entries ++ [e]) := by
  have hperm := Buckets.listing_add_perm e.hash r.nextSerial r.buckets
  refine ⟨h.proper.add _ _, ?_, ?_, fun f hf hp => ?_⟩
  · have hlisting : entryListing pool (entries ++ [e]) =
        entryListing pool entries ++ [(e.hash, r.nextSerial)] := by
      rw [entryListing_append, if_pos (by rw [hid]), hid]
    rw [hlisting]
    exact hperm.trans ((h.listing.cons _).trans (List.perm_append_singleton _ _).symm)
  · have hlive : (r.register e.hash).live = r.live + 1 := rfl
    rw [hlive, h.live_eq]
    exact hperm.length_eq.symm
  · have hnext : (r.register e.hash).nextSerial = r.nextSerial + 1 := rfl
    rw [hnext]
    rcases List.mem_append.1 hf with hf | hf
    · exact Nat.lt_succ_of_lt (h.serial_lt f hf hp)
    · rw [List.mem_singleton.1 hf, hid]
      exact Nat.lt_succ_self _

/-- No entry has the next serial of its pool. -/
theorem ne_next (h : r.Lists pool entries) {id : EntryId} (hid : id = ⟨pool, r.nextSerial⟩) :
    ∀ f ∈ entries, f.id ≠ id := by
  rintro f hf rfl
  have hlt := h.serial_lt f hf (by rw [hid])
  rw [hid] at hlt
  exact Nat.lt_irrefl _ hlt

theorem append_of_ne (h : r.Lists pool entries) {e : Entry σ} (hne : e.id.pool ≠ pool) :
    r.Lists pool (entries ++ [e]) := by
  refine ⟨h.proper, ?_, h.live_eq, fun f hf hp => ?_⟩
  · rw [entryListing_append, if_neg hne, List.append_nil]
    exact h.listing
  · rcases List.mem_append.1 hf with hf | hf
    · exact h.serial_lt f hf hp
    · exact absurd (List.mem_singleton.1 hf ▸ hp) hne

/-- Evicting takes out the entry that is gone. -/
theorem evict (h : r.Lists pool entries) (hids : (entries.map Entry.id).Nodup) {e : Entry σ}
    (he : e ∈ entries) {keep : ℕ → Bool}
    (hkeep : ∀ f ∈ entries, f.id.pool = pool → keep f.id.serial = decide (f.id ≠ e.id)) :
    (r.evict e.hash keep).Lists pool (entries.filter fun f => f.id ≠ e.id) := by
  have hdead := dead_add_length_prune h.proper e.hash keep
  have hfilter : (entryListing pool entries).filter (fun p => p.1 ≠ e.hash || keep p.2) =
      entryListing pool (entries.filter fun f => f.id ≠ e.id) := by
    refine entryListing_filter _ _ _ _ fun f hf hp => ?_
    rw [hkeep f hf hp]
    by_cases hid : f.id = e.id
    · simp [List.inj_on_of_nodup_map hids hf he hid]
    · simp [hid]
  refine ⟨h.proper.prune _ _, ?_, ?_, fun f hf hp => h.serial_lt f (List.mem_filter.1 hf).1 hp⟩
  · show (r.buckets.prune e.hash keep).listing.Perm _
    rw [Buckets.listing_prune, ← hfilter]
    exact h.listing.filter _
  · show r.live - r.dead e.hash keep = (r.buckets.prune e.hash keep).listing.length
    rw [h.live_eq]
    omega

/-- It takes out no other one. -/
theorem dead_eq_one (h : r.Lists pool entries) (hids : (entries.map Entry.id).Nodup) {e : Entry σ}
    (he : e ∈ entries) (hpool : e.id.pool = pool) {keep : ℕ → Bool}
    (hkeep : ∀ f ∈ entries, f.id.pool = pool → keep f.id.serial = decide (f.id ≠ e.id)) :
    r.dead e.hash keep = 1 := by
  subst hpool
  have hdead := dead_add_length_prune h.proper e.hash keep
  have hpruned : (r.buckets.prune e.hash keep).listing.length = _ :=
    (h.evict hids he hkeep).listing.length_eq
  have hlisting := h.listing.length_eq
  have hone := length_entryListing_filter hids he
  omega

theorem filter_of_ne (h : r.Lists pool entries) {e : Entry σ} (hne : e.id.pool ≠ pool) :
    r.Lists pool (entries.filter fun f => f.id ≠ e.id) := by
  refine ⟨h.proper, ?_, h.live_eq, fun f hf hp => h.serial_lt f (List.mem_filter.1 hf).1 hp⟩
  have hfilter : (entryListing pool entries).filter (fun _ => true) =
      entryListing pool (entries.filter fun f => f.id ≠ e.id) := by
    refine entryListing_filter _ _ _ _ fun f _ hp => ?_
    have : f.id ≠ e.id := fun hid => hne (hid ▸ hp)
    simp [this]
  rw [← hfilter, List.filter_true]
  exact h.listing

/-- The bucket of a hash holds the serials of the entries with that hash. -/
theorem mem_bucket_iff (h : r.Lists pool entries) (hids : (entries.map Entry.id).Nodup)
    {e : Entry σ} (he : e ∈ entries) (hpool : e.id.pool = pool) {hash : UInt64} :
    e.id.serial ∈ r.bucket hash ↔ e.hash = hash := by
  have hid : e.id = ⟨pool, e.id.serial⟩ := by rw [← hpool]
  rw [Registry.mem_bucket_iff h.proper, h.listing.mem_iff, mem_entryListing_iff]
  constructor
  · rintro ⟨f, hf, hfid, rfl⟩
    rw [List.inj_on_of_nodup_map hids he hf (hid.trans hfid.symm)]
  · rintro rfl
    exact ⟨e, he, hid, rfl⟩

theorem mem_listing (h : r.Lists pool entries) {e : Entry σ} (he : e ∈ entries)
    (hpool : e.id.pool = pool) : (e.hash, e.id.serial) ∈ r.buckets.listing :=
  h.listing.mem_iff.2 (mem_entryListing_iff.2 ⟨e, he, by rw [← hpool], rfl⟩)

/-- An entry of the pool has a bucket. -/
theorem exists_bucket (h : r.Lists pool entries) {e : Entry σ} (he : e ∈ entries)
    (hpool : e.id.pool = pool) : ∃ bucket, r.buckets.get? e.hash = some bucket := by
  obtain ⟨bucket, hbucket, -⟩ := Buckets.mem_listing_iff.1 (h.mem_listing he hpool)
  exact ⟨bucket, (Buckets.get?_eq_some_iff h.proper).2 hbucket⟩

/-- An entry of the pool is counted. -/
theorem live_pos (h : r.Lists pool entries) {e : Entry σ} (he : e ∈ entries)
    (hpool : e.id.pool = pool) : 0 < r.live := by
  rw [h.live_eq]
  exact List.length_pos_of_mem (h.mem_listing he hpool)

end Registry.Lists

end PathIdentity
