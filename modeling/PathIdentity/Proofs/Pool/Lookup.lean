import PathIdentity.Pool.Handle
import PathIdentity.Proofs.Pool.Buckets

/-!
# Looking up registries and entries

What each operation on a store does to the registry of a pool and to the entry of an identity. With
distinct identities (`entryAt?_eq_some_iff`) the entry of an identity is the one in the list of
entries.
-/

namespace PathIdentity

namespace Store

variable {σ : Type}

/-! ## Registries -/

theorem lookup_map_ite {r : Registry} {pool other : PoolId} (l : List (PoolId × Registry)) :
    (l.map fun (p, old) => (p, if p = pool then r else old)).lookup other =
      if other = pool then (l.lookup other).map fun _ => r else l.lookup other := by
  induction l with
  | nil => simp
  | cons entry l ih =>
    obtain ⟨p, old⟩ := entry
    rw [List.map_cons, lookup_cons_ite, ih, lookup_cons_ite]
    by_cases hp : other = p
    · subst hp
      split_ifs <;> rfl
    · simp only [if_neg hp]

theorem registryOf?_setRegistry (s : Store σ) (pool other : PoolId) (r : Registry) :
    (s.setRegistry pool r).registryOf? other =
      if other = pool then (s.registryOf? other).map fun _ => r else s.registryOf? other :=
  lookup_map_ite s.registries

theorem registryOf?_newPool (s : Store σ) (capacity : ℕ) (pool : PoolId) :
    (s.newPool capacity).2.registryOf? pool =
      (s.registryOf? pool).or (if pool = ⟨s.nextPool⟩ then some { capacity } else none) := by
  rw [newPool, registryOf?, registryOf?, List.lookup_append, lookup_cons_ite, List.lookup_nil]

theorem lookup_filter_ne {pool other : PoolId} (l : List (PoolId × Registry)) :
    (l.filter (·.1 ≠ pool)).lookup other = if other = pool then none else l.lookup other := by
  induction l with
  | nil => simp
  | cons entry l ih =>
    obtain ⟨p, r⟩ := entry
    by_cases hp : p = pool
    · subst hp
      rw [List.filter_cons_of_neg (by simp), ih, lookup_cons_ite]
      split_ifs <;> rfl
    · rw [List.filter_cons_of_pos (by simpa using hp), lookup_cons_ite, ih, lookup_cons_ite]
      by_cases ho : other = p
      · rw [if_pos ho, if_neg fun h => hp (ho.symm.trans h), if_pos ho]
      · rw [if_neg ho, if_neg ho]

theorem registryOf?_dropPool (s : Store σ) (pool other : PoolId) :
    (s.dropPool pool).1.registryOf? other = if other = pool then none else s.registryOf? other := by
  rw [dropPool]
  split
  · rename_i hnone
    split_ifs with h
    · rw [h, hnone]
    · rfl
  · exact lookup_filter_ne s.registries

@[simp] theorem entries_dropPool (s : Store σ) (pool : PoolId) :
    (s.dropPool pool).1.entries = s.entries := by
  rw [dropPool]
  split <;> rfl

@[simp] theorem nextPool_dropPool (s : Store σ) (pool : PoolId) :
    (s.dropPool pool).1.nextPool = s.nextPool := by
  rw [dropPool]
  split <;> rfl

/-! ## Entries -/

theorem mem_of_entryAt?_eq_some {s : Store σ} {id : EntryId} {e : Entry σ}
    (h : s.entryAt? id = some e) : e ∈ s.entries ∧ e.id = id :=
  ⟨List.mem_of_find?_eq_some h, by simpa using List.find?_some h⟩

theorem entryAt?_isSome_iff {s : Store σ} {id : EntryId} :
    (s.entryAt? id).isSome = true ↔ ∃ e ∈ s.entries, e.id = id := by
  simp [entryAt?]

/-- Entries with distinct identities are found under them. -/
theorem entryAt?_eq_some_iff {s : Store σ} (hids : (s.entries.map Entry.id).Nodup) {id : EntryId}
    {e : Entry σ} : s.entryAt? id = some e ↔ e ∈ s.entries ∧ e.id = id := by
  refine ⟨mem_of_entryAt?_eq_some, fun ⟨he, hid⟩ => ?_⟩
  have hsome : (s.entryAt? id).isSome = true := entryAt?_isSome_iff.2 ⟨e, he, hid⟩
  obtain ⟨f, hf⟩ := Option.isSome_iff_exists.1 hsome
  obtain ⟨hfmem, hfid⟩ := mem_of_entryAt?_eq_some hf
  rw [hf, List.inj_on_of_nodup_map hids hfmem he (hfid.trans hid.symm)]

theorem entries_changeHandles (s : Store σ) (id : EntryId) (change : ℕ → ℕ) :
    (s.changeHandles id change).entries = s.entries.map fun e =>
      { e with handles := if e.id = id then change e.handles else e.handles } := by
  refine List.map_congr_left fun e _ => ?_
  split_ifs <;> rfl

theorem ids_changeHandles (s : Store σ) (id : EntryId) (change : ℕ → ℕ) :
    (s.changeHandles id change).entries.map Entry.id = s.entries.map Entry.id := by
  rw [entries_changeHandles, List.map_map]
  rfl

theorem entryAt?_changeHandles (s : Store σ) (id other : EntryId) (change : ℕ → ℕ) :
    (s.changeHandles id change).entryAt? other =
      if other = id then (s.entryAt? other).map fun e => { e with handles := change e.handles }
      else s.entryAt? other := by
  have hfind : (s.changeHandles id change).entryAt? other = (s.entryAt? other).map fun e =>
      { e with handles := if e.id = id then change e.handles else e.handles } := by
    rw [entryAt?, entries_changeHandles, List.find?_map]
    rfl
  rw [hfind]
  cases h : s.entryAt? other with
  | none => simp
  | some e =>
    obtain ⟨-, rfl⟩ := mem_of_entryAt?_eq_some h
    split_ifs with hid <;> simp [hid]

/-- The store without the entry of an identity. -/
def removeEntry (s : Store σ) (id : EntryId) : Store σ :=
  { s with entries := s.entries.filter fun e => e.id ≠ id }

@[simp] theorem entries_removeEntry (s : Store σ) (id : EntryId) :
    (s.removeEntry id).entries = s.entries.filter fun e => e.id ≠ id := rfl

theorem entryAt?_removeEntry (s : Store σ) (id other : EntryId) :
    (s.removeEntry id).entryAt? other = if other = id then none else s.entryAt? other := by
  rw [entryAt?, entries_removeEntry, List.find?_filter, entryAt?]
  split_ifs with h
  · simp [h]
  · congr 1
    funext e
    by_cases he : e.id = other <;> simp [he, h]

theorem isSome_entryAt?_removeEntry {s : Store σ} {id : EntryId} {e : Entry σ}
    (he : e ∈ s.entries) : ((s.removeEntry id).entryAt? e.id).isSome = decide (e.id ≠ id) := by
  rw [Bool.eq_iff_iff, entryAt?_isSome_iff, decide_eq_true_eq]
  constructor
  · rintro ⟨f, hf, hid⟩
    rw [← hid]
    simpa using (List.mem_filter.1 hf).2
  · intro hne
    exact ⟨e, List.mem_filter.2 ⟨he, by simpa using hne⟩, rfl⟩

/-- The store with a new entry, registered in the registry `r` of its pool. -/
def insertEntry (s : Store σ) (pool : PoolId) (r : Registry) (e : Entry σ) : Store σ :=
  { s.setRegistry pool (r.register e.hash) with entries := s.entries ++ [e] }

@[simp] theorem entries_insertEntry (s : Store σ) (pool : PoolId) (r : Registry) (e : Entry σ) :
    (s.insertEntry pool r e).entries = s.entries ++ [e] := rfl

theorem entryAt?_insertEntry (s : Store σ) (pool : PoolId) (r : Registry) (e : Entry σ)
    (id : EntryId) : (s.insertEntry pool r e).entryAt? id =
      (s.entryAt? id).or (if id = e.id then some e else none) := by
  rw [entryAt?, entries_insertEntry, List.find?_append, List.find?_singleton, entryAt?]
  simp only [decide_eq_true_eq, @eq_comm _ id]

theorem registryOf?_insertEntry (s : Store σ) (pool other : PoolId) (r : Registry) (e : Entry σ) :
    (s.insertEntry pool r e).registryOf? other =
      if other = pool then (s.registryOf? other).map fun _ => r.register e.hash
      else s.registryOf? other :=
  registryOf?_setRegistry s pool other _

/-! ## Releasing and evicting -/

theorem release_of_shared {s : Store σ} {id : EntryId} {e : Entry σ} (h : s.entryAt? id = some e)
    (hhandles : 1 < e.handles) : s.release (.entry id) = (s.changeHandles id (· - 1), []) := by
  rw [release, h]
  exact if_neg (by omega)

theorem release_of_last {s : Store σ} {id : EntryId} {e : Entry σ} (h : s.entryAt? id = some e)
    (hhandles : e.handles ≤ 1) : s.release (.entry id) = (s.removeEntry id).evict e := by
  rw [release, h]
  exact if_pos hhandles

/-- The store with an entry that is gone evicted from the registry `r` of its pool. -/
def evictFrom (s : Store σ) (pool : PoolId) (r : Registry) (e : Entry σ) : Store σ × List Event :=
  let r := r.evict e.hash fun serial => (s.entryAt? ⟨pool, serial⟩).isSome
  (s.setRegistry pool r, [.evicted e.id e.hash r.live])

theorem evict_of_registry_none {s : Store σ} {e : Entry σ} (h : s.registryOf? e.id.pool = none) :
    s.evict e = (s, []) := by
  rw [evict, h]

theorem evict_of_registry_some {s : Store σ} {e : Entry σ} {r : Registry} {bucket : List ℕ}
    (h : s.registryOf? e.id.pool = some r) (hbucket : r.buckets.get? e.hash = some bucket) :
    s.evict e = s.evictFrom e.id.pool r e := by
  simp only [evict, h, hbucket]
  rfl

theorem registryOf?_evictFrom (s : Store σ) (pool other : PoolId) (r : Registry) (e : Entry σ) :
    (s.evictFrom pool r e).1.registryOf? other =
      if other = pool then
        (s.registryOf? other).map fun _ =>
          r.evict e.hash fun serial => (s.entryAt? ⟨pool, serial⟩).isSome
      else s.registryOf? other :=
  registryOf?_setRegistry s pool other _

/-! ## What a release keeps of the registries -/

theorem map_registryOf?_setRegistry {α : Type} {f : Registry → α} {s : Store σ} {pool : PoolId}
    {r old : Registry} (hold : s.registryOf? pool = some old) (hf : f r = f old) (other : PoolId) :
    ((s.setRegistry pool r).registryOf? other).map f = (s.registryOf? other).map f := by
  rw [registryOf?_setRegistry]
  split_ifs with h
  · rw [h, hold]
    simp [hf]
  · rfl

@[simp] theorem registryOf?_share (s : Store σ) (h : Handle) (pool : PoolId) :
    (s.share h).registryOf? pool = s.registryOf? pool := by
  cases h <;> rfl

/-- What an eviction keeps of a registry, a release keeps of all. -/
theorem map_registryOf?_release {α : Type} {f : Registry → α}
    (hf : ∀ (r : Registry) (hash : UInt64) (keep : ℕ → Bool), f (r.evict hash keep) = f r)
    (s : Store σ) (h : Handle) (pool : PoolId) :
    ((s.release h).1.registryOf? pool).map f = (s.registryOf? pool).map f := by
  cases h with
  | sentinel => rfl
  | entry id =>
    rw [release]
    split
    · rfl
    · split
      · rename_i e _ _
        rw [evict]
        split
        · rfl
        · rename_i r hr
          split
          · rfl
          · exact map_registryOf?_setRegistry hr (hf r _ _) pool
      · rfl

/-! ## Looking for content -/

variable [ExceptionState σ]

theorem of_find?_eq_some {s : Store σ} {pool : PoolId} {r : Registry} {hash : UInt64}
    {members : List σ} {e : Entry σ} (h : s.find? pool r hash members = some e) :
    e ∈ s.entries ∧ e.id.pool = pool ∧ e.id.serial ∈ r.bucket hash ∧
      sameStates e.members members = true := by
  obtain ⟨serial, hserial, hentry⟩ := List.mem_filterMap.1 (List.mem_of_find?_eq_some h)
  obtain ⟨he, hid⟩ := mem_of_entryAt?_eq_some hentry
  rw [hid]
  exact ⟨he, rfl, hserial, by simpa using List.find?_some h⟩

theorem of_find?_eq_none {s : Store σ} (hids : (s.entries.map Entry.id).Nodup) {pool : PoolId}
    {r : Registry} {hash : UInt64} {members : List σ} (h : s.find? pool r hash members = none)
    {e : Entry σ} (he : e ∈ s.entries) (hpool : e.id.pool = pool)
    (hserial : e.id.serial ∈ r.bucket hash) : sameStates e.members members = false := by
  have hmem : e ∈ (r.bucket hash).filterMap fun serial => s.entryAt? ⟨pool, serial⟩ := by
    refine List.mem_filterMap.2 ⟨e.id.serial, hserial, (entryAt?_eq_some_iff hids).2 ⟨he, ?_⟩⟩
    rw [← hpool]
  simpa using List.find?_eq_none.1 h e hmem

/-! ## Outcomes of a promotion -/

/-- The promotion of an empty set. -/
def promoteEmpty (s : Store σ) (pool : PoolId) (r : Registry) : Promotion σ :=
  ⟨.sentinel, s.setRegistry pool r.countPromotion.countSentinel, []⟩

/-- The promotion of a set whose entry was found. -/
def promoteFound (s : Store σ) (pool : PoolId) (r : Registry) (e : Entry σ) : Promotion σ :=
  ⟨.entry e.id, (s.setRegistry pool r.countPromotion.countHit).share (.entry e.id),
    [.reused e.id e.hash]⟩

/-- The promotion of a set that makes its entry. -/
def promoteNew (s : Store σ) (pool : PoolId) (r : Registry) (staging : Staging σ) : Promotion σ :=
  let e := makeEntry ⟨pool, r.nextSerial⟩ staging
  ⟨.entry e.id, s.insertEntry pool r.countPromotion e,
    [.registered e.id e.hash e.members.length (r.live + 1)]⟩

end Store

end PathIdentity
