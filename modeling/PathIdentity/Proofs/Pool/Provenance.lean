import PathIdentity.Proofs.Pool.Canonical
import PathIdentity.Proofs.Pool.Drops
import PathIdentity.Proofs.Pool.Immutable

/-!
# Where handles come from

The operations of a run say by themselves where each handle comes from: `Lineage.ofRun` numbers the
pools in the order in which they are made and notes for each name of a handle the pool whose
promotion gave the handle from which it was cloned. No store is looked at. A pool owns exactly the
handles with its number, and two handles come from one pool exactly if they have the same number
(`Session.handle_provenance`): an entry keeps the pool that made it, through finds, clones, drops of
other handles and the drop of the pool itself.

Pools may be told apart by their place in memory. The memory of a pool is held as long as the pool
is in use or one of its entries is alive (`Store.heldPools`), and after that it may be given to
another pool. If no pool is ever placed where memory is held (`Session.placedApart`), comparing the
places comes to the same as comparing the pools, for the pools in use and the handles that are
alive.
-/

namespace PathIdentity

variable {σ : Type}

/-! ## Handles of one pool -/

namespace Handle

theorem samePool_comm (x y : Handle) : x.samePool y = y.samePool x := by
  cases x <;> cases y <;> simp [samePool, eq_comm]

theorem samePool_self (x : Handle) : x.samePool x = true := by
  cases x <;> simp [samePool]

/-- Handles of one pool with an entry between them are of one pool. -/
theorem samePool_trans {x y z : Handle} (hy : y ≠ .sentinel) (hxy : x.samePool y = true)
    (hyz : y.samePool z = true) : x.samePool z = true := by
  cases x with
  | sentinel => rfl
  | entry i =>
    cases y with
    | sentinel => exact absurd rfl hy
    | entry j =>
      cases z with
      | sentinel => rfl
      | entry k =>
        have hij : i.pool = j.pool := of_decide_eq_true hxy
        exact decide_eq_true (hij.trans (of_decide_eq_true hyz))

/-- Whether a handle is the sentinel or its entry points back to the place of a pool. -/
def pointsTo (place : PoolId → ℕ) (pool : PoolId) : Handle → Bool
  | sentinel => true
  | entry id => place id.pool = place pool

/-- Whether one of two handles is the sentinel or their entries point back to one place. -/
def pointAlike (place : PoolId → ℕ) : Handle → Handle → Bool
  | entry a, entry b => place a.pool = place b.pool
  | _, _ => true

end Handle

/-! ## Lineages -/

/-- What a list of operations says of pools and handles. -/
structure Lineage where
  /-- The number of pools made. -/
  made : ℕ := 0
  /-- The pool that has a name, by the number of pools made before it. -/
  pools : NameMap ℕ := []
  /-- The pool whose promotion gave the handle from which that of a name was cloned; none for a
  sentinel that no promotion gave. -/
  handles : NameMap (Option ℕ) := []

namespace Lineage

/-- The lineage after one more operation. -/
def step (l : Lineage) : Operation σ → Lineage
  | .newPool pool _ => { l with made := l.made + 1, pools := l.pools.put pool l.made }
  | .dropPool pool => { l with pools := l.pools.erase pool }
  | .promote pool _ handle => { l with handles := l.handles.put handle (l.pools.get? pool) }
  | .intern pool _ handle => { l with handles := l.handles.put handle (l.pools.get? pool) }
  | .newSentinel handle => { l with handles := l.handles.put handle none }
  | .clone handle target => { l with handles := l.handles.put target (l.handles.get? handle).join }
  | .drop handle => { l with handles := l.handles.erase handle }
  | .dropAll => { l with handles := [] }
  | _ => l

/-- The lineage after operations from the start. -/
def ofRun (ops : List (Operation σ)) : Lineage := ops.foldl step {}

/-- The pool from a promotion of which the handle of a name descends. -/
def origin? (l : Lineage) (handle : String) : Option ℕ := (l.handles.get? handle).join

/-- The handle of a name descends from a promotion of the pool of a name. -/
def PromotedBy (l : Lineage) (handle pool : String) : Prop :=
  ∃ n, l.origin? handle = some n ∧ l.pools.get? pool = some n

/-- Only making a pool changes the number of pools made. -/
theorem made_step (l : Lineage) (op : Operation σ) : (l.step op).made = l.made ∨
    (∃ pool capacity, op = .newPool pool capacity) ∧ (l.step op).made = l.made + 1 := by
  cases op with
  | newPool pool capacity => exact .inr ⟨⟨pool, capacity, rfl⟩, rfl⟩
  | _ => exact .inl rfl

/-- The handles of two names descend from promotions of one pool. -/
def Akin (l : Lineage) (a b : String) : Prop := ∃ n, l.origin? a = some n ∧ l.origin? b = some n

end Lineage

/-! ## Sessions and lineages -/

namespace Store

theorem nextPool_share (s : Store σ) (x : Handle) : (s.share x).nextPool = s.nextPool := by
  cases x <;> rfl

theorem nextPool_evict (s : Store σ) (e : Entry σ) : (s.evict e).1.nextPool = s.nextPool := by
  unfold evict
  split
  · rfl
  · split <;> rfl

theorem nextPool_release (s : Store σ) (x : Handle) : (s.release x).1.nextPool = s.nextPool := by
  cases x with
  | sentinel => rfl
  | entry id =>
    rw [release]
    split
    · rfl
    · split
      · exact nextPool_evict _ _
      · rfl

theorem nextPool_promote [ExceptionState σ] {s : Store σ} {pool : PoolId} {staging : Staging σ}
    {p : Promotion σ} (hp : s.promote pool staging = some p) : p.store.nextPool = s.nextPool := by
  obtain ⟨r, -, rfl⟩ := Option.map_eq_some_iff.1 hp
  split
  · rfl
  · rw [promoteMembers]
    split <;> rfl

end Store

namespace Session

/-- The pools that have names, and the handles to entries, are as the lineage says. -/
structure Traces (s : Session σ) (l : Lineage) : Prop where
  made : s.store.nextPool = l.made
  pools : ∀ name, s.pools.get? name = (l.pools.get? name).map PoolId.mk
  handles : ∀ name id, s.handles.get? name = some (.entry id) →
    l.origin? name = some id.pool.number

theorem nextPool_putHandle (s : Session σ) (name : String) (x : Handle) :
    (s.putHandle name x).1.store.nextPool = s.store.nextPool := by
  unfold putHandle
  split
  · rfl
  · exact Store.nextPool_release _ _

theorem nextPool_putPool (s : Session σ) (name : String) (pool : PoolId) :
    (s.putPool name pool).1.store.nextPool = s.store.nextPool := by
  unfold putPool
  split
  · rfl
  · exact Store.nextPool_dropPool _ _

theorem nextPool_releaseAll (store : Store σ) (handles : List Handle) :
    (releaseAll store handles).1.nextPool = store.nextPool := by
  induction handles generalizing store with
  | nil => rfl
  | cons x rest ih => exact (ih _).trans (Store.nextPool_release store x)

namespace Traces

variable {s : Session σ} {l : Lineage}

theorem empty : Traces ({} : Session σ) {} where
  made := rfl
  pools _ := rfl
  handles _ _ h := by cases h

/-- A handle takes a name, with the pool from which it descends. -/
theorem putHandle (h : s.Traces l) (name : String) {x : Handle} {origin : Option ℕ}
    (hx : ∀ id, x = .entry id → origin = some id.pool.number) :
    (s.putHandle name x).1.Traces { l with handles := l.handles.put name origin } where
  made := (nextPool_putHandle s name x).trans h.made
  pools := by
    rw [pools_putHandle]
    exact h.pools
  handles other id hid := by
    rw [handles_putHandle] at hid
    rw [Lineage.origin?]
    by_cases hname : other = name
    · subst hname
      rw [NameMap.get?_put_self] at hid ⊢
      exact hx id (Option.some.inj hid)
    · rw [NameMap.get?_put_of_ne hname] at hid ⊢
      exact h.handles other id hid

/-- A name loses its handle. -/
theorem eraseHandle (h : s.Traces l) (name : String) {store : Store σ}
    (hstore : store.nextPool = s.store.nextPool) :
    Traces { s with store, handles := s.handles.erase name }
      { l with handles := l.handles.erase name } where
  made := hstore.trans h.made
  pools := h.pools
  handles other id hid := by
    have hname : other ≠ name := by
      rintro rfl
      rw [NameMap.get?_erase_self] at hid
      cases hid
    rw [NameMap.get?_erase_of_ne hname] at hid
    rw [Lineage.origin?, NameMap.get?_erase_of_ne hname]
    exact h.handles other id hid

/-- Only pools, handles and the number of pools matter. -/
theorem congr (h : s.Traces l) {t : Session σ} (hmade : t.store.nextPool = s.store.nextPool)
    (hpools : t.pools = s.pools) (hhandles : t.handles = s.handles) : t.Traces l where
  made := hmade.trans h.made
  pools name := hpools ▸ h.pools name
  handles name id hid := h.handles name id (hhandles ▸ hid)

theorem newPool (h : s.Traces l) (name : String) (capacity : ℕ) :
    ({ s with store := (s.store.newPool capacity).2 }.putPool name
      (s.store.newPool capacity).1).1.Traces
      { l with made := l.made + 1, pools := l.pools.put name l.made } where
  made := (nextPool_putPool _ _ _).trans (congrArg (· + 1) h.made)
  pools other := by
    rw [pools_putPool]
    by_cases hname : other = name
    · subst hname
      rw [NameMap.get?_put_self, NameMap.get?_put_self, ← h.made]
      rfl
    · rw [NameMap.get?_put_of_ne hname, NameMap.get?_put_of_ne hname]
      exact h.pools other
  handles other id hid := by
    rw [handles_putPool] at hid
    exact h.handles other id hid

theorem dropPool (h : s.Traces l) (name : String) (pool : PoolId) :
    Traces { s with store := (s.store.dropPool pool).1, pools := s.pools.erase name }
      { l with pools := l.pools.erase name } where
  made := (Store.nextPool_dropPool _ _).trans h.made
  pools other := by
    by_cases hname : other = name
    · subst hname
      rw [NameMap.get?_erase_self, NameMap.get?_erase_self]
      rfl
    · rw [NameMap.get?_erase_of_ne hname, NameMap.get?_erase_of_ne hname]
      exact h.pools other
  handles := h.handles

variable [ExceptionState σ]

/-- The handle of a promotion descends from the pool that promoted, whether its entry was found or
made. -/
theorem promote (hs : s.Consistent) (h : s.Traces l) {m : NameMap (Staging σ)} {pool : String}
    {id : PoolId} (hid : s.pools.get? pool = some id) {log : List σ} {name : String}
    {t : Session σ × List Event}
    (ht : { s with stagings := m }.promote id (.ofList log) name = some t) :
    t.1.Traces { l with handles := l.handles.put name (l.pools.get? pool) } := by
  have hstore : s.store.Consistent s.handles.values := hs.store
  obtain ⟨p, hp, rfl⟩ := promote_eq_some_iff.1 ht
  have hbelongs := hstore.belongsTo_promote hp
  have hpool := h.pools pool
  rw [hid] at hpool
  obtain ⟨n, hn, rfl⟩ := Option.map_eq_some_iff.1 hpool.symm
  refine putHandle (s := { s with stagings := m, store := p.store })
    (h.congr (Store.nextPool_promote hp) rfl rfl) name fun i hi => ?_
  rw [hi] at hbelongs
  have hi : i.pool = ⟨n⟩ := of_decide_eq_true hbelongs
  rw [hn, hi]

/-- Every operation does to the session what the lineage says. -/
theorem step (hs : s.Consistent) (h : s.Traces l) {op : Operation σ} {t : Session σ × List Event}
    (ht : s.step op = some t) : t.1.Traces (l.step op) := by
  cases op with
  | newPool pool capacity =>
    cases ht
    exact h.newPool pool capacity
  | dropPool pool =>
    obtain ⟨id, -, ht⟩ := Option.bind_eq_some_iff.1 ht
    cases ht
    exact h.dropPool pool id
  | newStaging staging =>
    cases ht
    exact h.congr rfl rfl rfl
  | collect staging states =>
    cases ht
    exact h.congr rfl rfl rfl
  | insert staging state =>
    obtain ⟨set, -, ht⟩ := Option.bind_eq_some_iff.1 ht
    cases ht
    exact h.congr rfl rfl rfl
  | extend staging states =>
    obtain ⟨set, -, ht⟩ := Option.bind_eq_some_iff.1 ht
    cases ht
    exact h.congr rfl rfl rfl
  | clear staging =>
    obtain ⟨set, -, ht⟩ := Option.bind_eq_some_iff.1 ht
    cases ht
    exact h.congr rfl rfl rfl
  | take staging target =>
    obtain ⟨set, -, ht⟩ := Option.bind_eq_some_iff.1 ht
    cases ht
    exact h.congr rfl rfl rfl
  | takeOver staging source =>
    obtain ⟨set, -, ht⟩ := Option.bind_eq_some_iff.1 ht
    obtain ⟨old, -, ht⟩ := Option.bind_eq_some_iff.1 ht
    cases ht
    exact h.congr rfl rfl rfl
  | promote pool staging handle =>
    obtain ⟨id, hid, ht⟩ := Option.bind_eq_some_iff.1 ht
    obtain ⟨set, hset, ht⟩ := Option.bind_eq_some_iff.1 ht
    obtain ⟨log, rfl⟩ := hs.tidy.stagings _ _ hset
    exact promote hs h hid ht
  | intern pool states handle =>
    obtain ⟨id, hid, ht⟩ := Option.bind_eq_some_iff.1 ht
    exact promote (m := s.stagings) hs h hid ht
  | newSentinel handle =>
    cases ht
    exact h.putHandle handle fun _ heq => Handle.noConfusion heq
  | clone handle target =>
    obtain ⟨x, hx, ht⟩ := Option.bind_eq_some_iff.1 ht
    cases ht
    have hshare := h.congr (t := { s with store := s.store.share x })
      (Store.nextPool_share _ _) rfl rfl
    refine hshare.putHandle target fun id hid => ?_
    exact h.handles handle id (hid ▸ hx)
  | drop handle =>
    obtain ⟨x, -, ht⟩ := Option.bind_eq_some_iff.1 ht
    cases ht
    exact h.eraseHandle handle (Store.nextPool_release _ _)
  | dropAll =>
    cases ht
    refine ⟨(nextPool_releaseAll _ _).trans h.made, h.pools, fun _ _ hid => ?_⟩
    cases hid

variable [Std.TransOrd σ]

/-- So does every run. -/
theorem run (hs : s.Consistent) (h : s.Traces l) {ops : List (Operation σ)} {t : Session σ}
    {events : List Event} (hrun : s.run ops = some (t, events)) :
    t.Traces (ops.foldl Lineage.step l) := by
  induction ops generalizing s l events with
  | nil =>
    cases hrun
    exact h
  | cons op ops ih =>
    obtain ⟨u, hu, hrun⟩ := Option.bind_eq_some_iff.1 hrun
    obtain ⟨v, hv, hrun⟩ := Option.bind_eq_some_iff.1 hrun
    cases hrun
    exact ih (hs.step hu) (h.step hs hu) hv

end Traces

end Session

/-! ## Places in memory -/

namespace Store

/-- The pools whose memory is held: those in use, and those to which entries point back. -/
def heldPools (s : Store σ) : List PoolId := s.poolIds ++ s.entries.map fun e => e.id.pool

theorem mem_poolIds_of_registryOf? {s : Store σ} {pool : PoolId} {r : Registry}
    (h : s.registryOf? pool = some r) : pool ∈ s.poolIds := by
  obtain ⟨before, after, heq, -⟩ := List.lookup_eq_some_iff.1 h
  rw [poolIds, heq]
  simp

variable [ExceptionState σ]

/-- In a consistent store the memory of a pool is held if the pool is in use or a live handle has an
entry of it. -/
theorem Consistent.mem_heldPools_iff {s : Store σ} {live : List Handle} (h : s.Consistent live)
    {pool : PoolId} :
    pool ∈ s.heldPools ↔ pool ∈ s.poolIds ∨ ∃ id, Handle.entry id ∈ live ∧ id.pool = pool := by
  rw [heldPools, List.mem_append, List.mem_map]
  refine or_congr_right ⟨?_, ?_⟩
  · rintro ⟨e, he, rfl⟩
    exact ⟨e.id, (h.held e.id).2 ⟨e, he, rfl⟩, rfl⟩
  · rintro ⟨id, hid, rfl⟩
    obtain ⟨e, he, rfl⟩ := (h.held id).1 hid
    exact ⟨e, he, rfl⟩

theorem Consistent.number_lt_of_mem_heldPools {s : Store σ} {live : List Handle}
    (h : s.Consistent live) {pool : PoolId} (hpool : pool ∈ s.heldPools) :
    pool.number < s.nextPool := by
  rcases List.mem_append.1 hpool with hpool | hpool
  · obtain ⟨r, hr⟩ := Option.isSome_iff_exists.1 (isSome_registryOf?_of_mem_poolIds hpool)
    exact h.pool_lt hr
  · obtain ⟨e, he, rfl⟩ := List.mem_map.1 hpool
    exact h.id_lt e he

end Store

section HeldPools

variable [ExceptionState σ] [Std.TransOrd σ]

/-- Memory that is held was held before, or it is that of a new pool. -/
theorem Holding.Change.heldPools {a b : Holding σ} {events : List Event} (h : Change a events b)
    (ha : a.Consistent) {pool : PoolId} (hpool : pool ∈ b.store.heldPools) :
    pool ∈ a.store.heldPools ∨ a.store.nextPool ≤ pool.number := by
  have hb : b.store.Consistent b.live := h.consistent ha
  have ha : a.store.Consistent a.live := ha
  rw [hb.mem_heldPools_iff] at hpool
  rw [ha.mem_heldPools_iff]
  cases h with
  | newPool s live capacity =>
    rcases hpool with hpool | hpool
    · have hnew : (s.newPool capacity).2.poolIds = s.poolIds ++ [⟨s.nextPool⟩] := List.map_append
      rw [hnew, List.mem_append, List.mem_singleton] at hpool
      refine hpool.imp .inl fun heq => ?_
      rw [heq]
    · exact .inl (.inr hpool)
  | dropPool s live other =>
    refine .inl (hpool.imp_left fun hmem => ?_)
    rw [Store.dropPool] at hmem
    split at hmem
    · exact hmem
    · exact (List.filter_sublist.map Prod.fst).subset hmem
  | @share s live x hx =>
    refine .inl (hpool.imp (fun hmem => ?_) ?_)
    · cases x <;> exact hmem
    · rintro ⟨id, hid, rfl⟩
      refine ⟨id, ?_, rfl⟩
      rcases List.mem_cons.1 hid with rfl | hid
      · exact hx.resolve_left Handle.noConfusion
      · exact hid
  | release s live x =>
    refine .inl (hpool.imp (fun hmem => ?_) ?_)
    · rwa [Store.poolIds_release] at hmem
    · rintro ⟨id, hid, rfl⟩
      exact ⟨id, List.mem_cons_of_mem _ hid, rfl⟩
  | @promote s live other log p hp =>
    rw [Store.poolIds_promote hp] at hpool
    rcases hpool with hpool | ⟨id, hid, rfl⟩
    · exact .inl (.inl hpool)
    · rcases List.mem_cons.1 hid with heq | hid
      · -- The pool of a promotion is in use.
        have hbelongs := ha.belongsTo_promote hp
        rw [← heq] at hbelongs
        have hother : id.pool = other := of_decide_eq_true hbelongs
        obtain ⟨r, hr, -⟩ := Option.map_eq_some_iff.1 hp
        exact .inl (.inl (hother ▸ Store.mem_poolIds_of_registryOf? hr))
      · exact .inl (.inr ⟨id, hid, rfl⟩)
  | reorder s hperm =>
    refine .inl (hpool.imp_right ?_)
    rintro ⟨id, hid, rfl⟩
    exact ⟨id, hperm.mem_iff.2 hid, rfl⟩

theorem Holding.Changes.heldPools {a b : Holding σ} {events : List Event} (h : Changes a events b)
    (ha : a.Consistent) {pool : PoolId} (hpool : pool ∈ b.store.heldPools) :
    pool ∈ a.store.heldPools ∨ a.store.nextPool ≤ pool.number := by
  induction h with
  | refl => exact .inl hpool
  | cons first _ ih =>
    rcases ih (first.consistent ha) hpool with hmid | hnew
    · exact first.heldPools ha hmid
    · exact .inr (first.later.nextPool_le.trans hnew)

end HeldPools

namespace Session

variable [ExceptionState σ]

/-- Whether an operation places no pool where the memory of another one is held. -/
def placesApart (place : PoolId → ℕ) (s : Session σ) : Operation σ → Bool
  | .newPool .. => s.store.heldPools.all fun pool => place pool ≠ place ⟨s.store.nextPool⟩
  | _ => true

/-- Whether operations, one after another, place no pool where the memory of another one is held. -/
def placedApart (place : PoolId → ℕ) (s : Session σ) : List (Operation σ) → Bool
  | [] => true
  | op :: ops => s.placesApart place op &&
    match s.step op with
    | none => true
    | some (t, _) => t.placedApart place ops

/-- No two pools whose memory is held are in one place. -/
def Apart (place : PoolId → ℕ) (s : Session σ) : Prop :=
  ∀ p ∈ s.store.heldPools, ∀ q ∈ s.store.heldPools, place p = place q → p = q

variable [Std.TransOrd σ]

/-- A pool whose memory is held after a step is the one that the step made, or its memory was held
before. -/
theorem Traces.heldPools_step {s : Session σ} {l : Lineage} (hs : s.Consistent) (h : s.Traces l)
    {op : Operation σ} {t : Session σ × List Event} (ht : s.step op = some t) {pool : PoolId}
    (hpool : pool ∈ t.1.store.heldPools) :
    pool ∈ s.store.heldPools ∨
      (∃ name capacity, op = .newPool name capacity) ∧ pool = ⟨s.store.nextPool⟩ := by
  have htcons := hs.step ht
  have hlt : pool.number < t.1.store.nextPool :=
    Store.Consistent.number_lt_of_mem_heldPools htcons.store hpool
  rw [(h.step hs ht).made] at hlt
  refine (((hs.tidy.step ht).changes hs.tidy).heldPools hs.store hpool).imp_right fun hle => ?_
  have hle : s.store.nextPool ≤ pool.number := hle
  rw [h.made] at hle
  rcases l.made_step op with hmade | ⟨hop, hmade⟩
  · omega
  · refine ⟨hop, ?_⟩
    have heq : pool.number = s.store.nextPool := by
      rw [h.made]
      omega
    rw [← heq]

theorem Apart.step {place : PoolId → ℕ} {s : Session σ} {l : Lineage} (hs : s.Consistent)
    (htraces : s.Traces l) (h : s.Apart place) {op : Operation σ} {t : Session σ × List Event}
    (ht : s.step op = some t)
    (hplaced : ∀ name capacity, op = .newPool name capacity →
      ∀ pool ∈ s.store.heldPools, place pool ≠ place ⟨s.store.nextPool⟩) :
    t.1.Apart place := by
  intro p hp q hq heq
  rcases htraces.heldPools_step hs ht hp with hp | ⟨⟨name, capacity, hop⟩, rfl⟩ <;>
    rcases htraces.heldPools_step hs ht hq with hq | ⟨⟨name', capacity', hop'⟩, rfl⟩
  · exact h p hp q hq heq
  · exact absurd heq (hplaced _ _ hop' p hp)
  · exact absurd heq.symm (hplaced _ _ hop q hq)
  · rfl

/-- Along a run that places every pool apart, pools whose memory is held stay apart. -/
theorem Apart.run {place : PoolId → ℕ} {s : Session σ} {l : Lineage} (hs : s.Consistent)
    (htraces : s.Traces l) (h : s.Apart place) {ops : List (Operation σ)} {t : Session σ}
    {events : List Event} (hrun : s.run ops = some (t, events))
    (hplaced : s.placedApart place ops = true) : t.Apart place := by
  induction ops generalizing s l events with
  | nil =>
    cases hrun
    exact h
  | cons op ops ih =>
    obtain ⟨u, hu, hrun⟩ := Option.bind_eq_some_iff.1 hrun
    obtain ⟨v, hv, hrun⟩ := Option.bind_eq_some_iff.1 hrun
    cases hrun
    rw [placedApart, hu, Bool.and_eq_true] at hplaced
    obtain ⟨hfirst, hrest⟩ := hplaced
    refine ih (hs.step hu) (htraces.step hs hu) (h.step hs htraces hu ?_) hv hrest
    rintro name capacity rfl pool hpool
    exact of_decide_eq_true (List.all_eq_true.1 hfirst pool hpool)

omit [Std.TransOrd σ] in
/-- The memory of a pool with a name is held, and so is that of the pool of a live handle. -/
theorem Consistent.mem_heldPools {s : Session σ} (hs : s.Consistent) :
    (∀ name pool, s.pools.get? name = some pool → pool ∈ s.store.heldPools) ∧
      ∀ id, Handle.entry id ∈ s.handles.values → id.pool ∈ s.store.heldPools := by
  have hstore : s.store.Consistent s.handles.values := hs.store
  refine ⟨fun name pool hpool => hstore.mem_heldPools_iff.2 (.inl ?_),
    fun id hid => hstore.mem_heldPools_iff.2 (.inr ⟨id, hid, rfl⟩)⟩
  have hsome := (hs.pools.isSome_iff pool).2 (NameMap.mem_values_of_get? hpool)
  obtain ⟨r, hr⟩ := Option.isSome_iff_exists.1 hsome
  exact Store.mem_poolIds_of_registryOf? hr

omit [Std.TransOrd σ] in
/-- For live handles comparing places comes to the same as comparing pools. -/
theorem Apart.places {place : PoolId → ℕ} {s : Session σ} (hs : s.Consistent) (h : s.Apart place) :
    (∀ x ∈ s.handles.values, ∀ name pool, s.pools.get? name = some pool →
      x.pointsTo place pool = x.belongsTo pool) ∧
    ∀ x ∈ s.handles.values, ∀ y ∈ s.handles.values, x.pointAlike place y = x.samePool y := by
  obtain ⟨hpools, hhandles⟩ := hs.mem_heldPools
  have hplace {p q : PoolId} (hp : p ∈ s.store.heldPools) (hq : q ∈ s.store.heldPools) :
      decide (place p = place q) = decide (p = q) :=
    decide_eq_decide.2 ⟨h p hp q hq, congrArg place⟩
  refine ⟨fun x hx name pool hpool => ?_, fun x hx y hy => ?_⟩
  · cases x with
    | sentinel => rfl
    | entry id => exact hplace (hhandles id hx) (hpools name pool hpool)
  · cases x with
    | sentinel => rfl
    | entry i =>
      cases y with
      | sentinel => rfl
      | entry j => exact hplace (hhandles i hx) (hhandles j hy)

/-! ## Provenance -/

namespace Traces

variable {s : Session σ} {l : Lineage}

omit [ExceptionState σ] [Std.TransOrd σ]

theorem exists_number (h : s.Traces l) {name : String} {pool : PoolId}
    (hpool : s.pools.get? name = some pool) : ∃ n, l.pools.get? name = some n ∧ pool = ⟨n⟩ := by
  rw [h.pools name, Option.map_eq_some_iff] at hpool
  obtain ⟨n, hn, rfl⟩ := hpool
  exact ⟨n, hn, rfl⟩

/-- A pool owns the sentinel and the handles that descend from its promotions. -/
theorem belongsTo_iff (h : s.Traces l) {pool name : String} {id : PoolId} {x : Handle}
    (hpool : s.pools.get? pool = some id) (hx : s.handles.get? name = some x) :
    x.belongsTo id = true ↔ x = .sentinel ∨ l.PromotedBy name pool := by
  obtain ⟨n, hn, rfl⟩ := h.exists_number hpool
  cases x with
  | sentinel => exact iff_of_true rfl (.inl rfl)
  | entry i =>
    have horigin := h.handles name i hx
    rw [or_iff_right Handle.noConfusion, Lineage.PromotedBy, horigin, hn, Handle.belongsTo,
      decide_eq_true_eq]
    constructor
    · intro hi
      exact ⟨n, by rw [hi], rfl⟩
    · rintro ⟨m, hi, hm⟩
      cases hm
      exact congrArg PoolId.mk (Option.some.inj hi)

/-- Two handles come from one pool if one is the sentinel or they descend from one pool. -/
theorem samePool_iff (h : s.Traces l) {a b : String} {x y : Handle}
    (hx : s.handles.get? a = some x) (hy : s.handles.get? b = some y) :
    x.samePool y = true ↔ x = .sentinel ∨ y = .sentinel ∨ l.Akin a b := by
  cases x with
  | sentinel => exact iff_of_true rfl (.inl rfl)
  | entry i =>
    cases y with
    | sentinel => exact iff_of_true rfl (.inr (.inl rfl))
    | entry j =>
      have hi := h.handles a i hx
      have hj := h.handles b j hy
      rw [or_iff_right Handle.noConfusion, or_iff_right Handle.noConfusion, Lineage.Akin, hi, hj,
        Handle.samePool, decide_eq_true_eq]
      constructor
      · intro hpool
        exact ⟨j.pool.number, by rw [hpool], rfl⟩
      · rintro ⟨m, hi, hj⟩
        exact congrArg PoolId.mk ((Option.some.inj hi).trans (Option.some.inj hj).symm)

end Traces

/-- After every run, whatever pools and handles it made and dropped in whatever order: (1) a pool
owns the sentinel and the handles that descend from its own promotions, and no others; (2) two
handles come from one pool if one of them is the sentinel or both descend from promotions of one
pool, which may be gone, and else not; (3) this is symmetric, transitive over handles with an entry,
and holds of equal handles. (4) However the run goes on, a pool that is made later owns none of the
handles with an entry that are alive now. (5) If no pool is ever placed where the memory of another
one is held, all this may be read off the places of the pools to which entries point back. -/
theorem handle_provenance {ops : List (Operation σ)} {s : Session σ} {events : List Event}
    (hrun : run {} ops = some (s, events)) :
    (∀ pool id name x, s.pools.get? pool = some id → s.handles.get? name = some x →
      (x.belongsTo id = true ↔ x = .sentinel ∨ (Lineage.ofRun ops).PromotedBy name pool)) ∧
    (∀ a b x y, s.handles.get? a = some x → s.handles.get? b = some y →
      (x.samePool y = true ↔
        x = .sentinel ∨ y = .sentinel ∨ (Lineage.ofRun ops).Akin a b)) ∧
    ((∀ x y : Handle, x.samePool y = y.samePool x) ∧
      (∀ x y z : Handle, y ≠ .sentinel → x.samePool y = true → y.samePool z = true →
        x.samePool z = true) ∧
      ∀ x y : Handle, x = y → x.samePool y = true) ∧
    (∀ ops' t later, s.run ops' = some (t, later) → ∀ pool id n,
      t.pools.get? pool = some id → (Lineage.ofRun (ops ++ ops')).pools.get? pool = some n →
      (Lineage.ofRun ops).made ≤ n →
        ∀ x ∈ s.handles.values, x ≠ .sentinel → x.belongsTo id = false) ∧
    ∀ place : PoolId → ℕ, placedApart place {} ops = true →
      (∀ x ∈ s.handles.values, ∀ pool id, s.pools.get? pool = some id →
        x.pointsTo place id = x.belongsTo id) ∧
      ∀ x ∈ s.handles.values, ∀ y ∈ s.handles.values,
        x.pointAlike place y = x.samePool y := by
  have hs : s.Consistent := Reachable.consistent ⟨ops, events, hrun⟩
  have hstore : s.store.Consistent s.handles.values := hs.store
  have htraces : s.Traces (Lineage.ofRun ops) := Traces.empty.run consistent_empty hrun
  refine ⟨fun pool id name x hpool hx => htraces.belongsTo_iff hpool hx,
    fun a b x y hx hy => htraces.samePool_iff hx hy,
    ⟨Handle.samePool_comm, fun x y z => Handle.samePool_trans, ?_⟩,
    fun ops' t later hrun' pool id n hpool hn hle x hx hne => ?_, fun place hplaced => ?_⟩
  · rintro x - rfl
    exact x.samePool_self
  · have htraces' := htraces.run hs hrun'
    obtain ⟨m, hm, rfl⟩ := htraces'.exists_number hpool
    rw [Lineage.ofRun, List.foldl_append] at hn
    obtain rfl : m = n := Option.some.inj (hm.symm.trans hn)
    cases x with
    | sentinel => exact absurd rfl hne
    | entry i =>
      have hlt := hstore.number_lt_of_mem_heldPools (hs.mem_heldPools.2 i hx)
      rw [htraces.made] at hlt
      refine decide_eq_false fun hi => ?_
      rw [hi] at hlt
      exact absurd hlt (Nat.not_lt.2 hle)
  · have hapart : Apart place ({} : Session σ) := fun p hp => by cases hp
    exact (hapart.run consistent_empty .empty hrun hplaced).places hs

/-! ## A run that makes one pool three times -/

/-- Three pools with the same content have the name `"p"`, one after another. The handles of the
first outlive it, those of the second do not. -/
def recycling : List (Operation KeyedState) :=
  [.newPool "p" 0, .intern "p" [⟨1, 7, false, false⟩] "a", .clone "a" "b", .dropPool "p",
    .newPool "p" 0, .intern "p" [⟨1, 7, false, false⟩] "c", .drop "c", .dropPool "p",
    .newPool "p" 0, .intern "p" [⟨1, 7, false, false⟩] "d"]

theorem isSome_run_recycling : (run {} recycling).isSome = true := by
  decide +kernel

/-- The session that `recycling` leads to. -/
def recycled : Session KeyedState := ((run {} recycling).get isSome_run_recycling).1

/-- The third pool takes the place of the second, whose memory is free. -/
def reusedPlace (pool : PoolId) : ℕ := min pool.number 1

/-- The third pool owns its own handle and not that of the first, though they have the same states,
hash and serial, and its place was used before. The clone of the first is of the same pool, which is
gone. -/
theorem handle_provenance_recycled :
    ∃ events x y z, run {} recycling = some (recycled, events) ∧
      recycled.pools.get? "p" = some ⟨2⟩ ∧ recycled.handles.get? "a" = some x ∧
      recycled.handles.get? "b" = some y ∧ recycled.handles.get? "d" = some z ∧
      recycled.store.contentEq x z = true ∧ x.serial? = z.serial? ∧
      (x.belongsTo ⟨2⟩ = false ∧ z.belongsTo ⟨2⟩ = true) ∧
      (x.samePool y = true ∧ x.samePool z = false) ∧
      reusedPlace ⟨1⟩ = reusedPlace ⟨2⟩ ∧ z.pointsTo reusedPlace ⟨2⟩ = true ∧
      x.pointAlike reusedPlace z = false := by
  have hrun := (Option.some_get isSome_run_recycling).symm
  have hp : recycled.pools.get? "p" = some ⟨2⟩ := by decide +kernel
  have ha : recycled.handles.get? "a" = some (.entry ⟨⟨0⟩, 0⟩) := by decide +kernel
  have hb : recycled.handles.get? "b" = some (.entry ⟨⟨0⟩, 0⟩) := by decide +kernel
  have hd : recycled.handles.get? "d" = some (.entry ⟨⟨2⟩, 0⟩) := by decide +kernel
  have hplaced : placedApart reusedPlace {} recycling = true := by decide +kernel
  obtain ⟨howns, hsame, -, -, hplaces⟩ := handle_provenance hrun
  obtain ⟨hpoints, halike⟩ := hplaces reusedPlace hplaced
  have hxmem := NameMap.mem_values_of_get? ha
  have hzmem := NameMap.mem_values_of_get? hd
  have hxz : Handle.samePool (.entry ⟨⟨0⟩, 0⟩) (.entry ⟨⟨2⟩, 0⟩) = false := by decide
  have hz := (howns "p" ⟨2⟩ "d" _ hp hd).2 (.inr ⟨2, by decide +kernel, by decide +kernel⟩)
  refine ⟨_, _, _, _, hrun, hp, ha, hb, hd, by decide +kernel, rfl, ⟨rfl, hz⟩, ⟨?_, hxz⟩, rfl,
    (hpoints _ hzmem "p" ⟨2⟩ hp).trans hz, (halike _ hxmem _ hzmem).trans hxz⟩
  exact (hsame "a" "b" _ _ ha hb).2 (.inr (.inr ⟨0, by decide +kernel, by decide +kernel⟩))

end Session

end PathIdentity
