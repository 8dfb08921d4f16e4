import PathIdentity.Proofs.Pool.Change

/-!
# Reachable sessions

A session is reachable when some operations lead to it from the session without pools, staging sets
and handles. Reachable sessions are `Session.Consistent`: names have one value each, staging sets
come from logs, the store agrees with the live handles, and the pools with a name are exactly those
with a registry.
-/

namespace PathIdentity

variable {σ : Type}

namespace Store

/-- The pools of a list, which names each once, are the ones in use. -/
structure InUse (s : Store σ) (pools : List PoolId) : Prop where
  nodup : pools.Nodup
  isSome_iff : ∀ pool, (s.registryOf? pool).isSome = true ↔ pool ∈ pools

theorem InUse.perm {s : Store σ} {pools pools' : List PoolId} (h : s.InUse pools)
    (hperm : pools.Perm pools') : s.InUse pools' :=
  ⟨hperm.nodup h.nodup, fun pool => (h.isSome_iff pool).trans hperm.mem_iff⟩

theorem InUse.congr {s s' : Store σ} {pools : List PoolId} (h : s.InUse pools)
    (hs : ∀ pool, (s'.registryOf? pool).isSome = (s.registryOf? pool).isSome) : s'.InUse pools :=
  ⟨h.nodup, fun pool => hs pool ▸ h.isSome_iff pool⟩

theorem InUse.newPool {s : Store σ} {pools : List PoolId} (h : s.InUse pools) (capacity : ℕ)
    (hfresh : s.registryOf? ⟨s.nextPool⟩ = none) :
    (s.newPool capacity).2.InUse ((s.newPool capacity).1 :: pools) := by
  have hnew : (s.newPool capacity).1 = ⟨s.nextPool⟩ := rfl
  rw [hnew]
  refine ⟨List.nodup_cons.2 ⟨?_, h.nodup⟩, fun pool => ?_⟩
  · rw [← h.isSome_iff, hfresh]
    exact Bool.noConfusion
  · rw [registryOf?_newPool, List.mem_cons, ← h.isSome_iff]
    by_cases heq : pool = ⟨s.nextPool⟩ <;> simp [heq]

theorem InUse.dropPool {s : Store σ} {pool : PoolId} {pools : List PoolId}
    (h : s.InUse (pool :: pools)) : (s.dropPool pool).1.InUse pools := by
  obtain ⟨hnot, hnodup⟩ := List.nodup_cons.1 h.nodup
  refine ⟨hnodup, fun other => ?_⟩
  have hother := h.isSome_iff other
  rw [List.mem_cons] at hother
  rw [registryOf?_dropPool]
  split_ifs with heq
  · rw [heq]
    exact ⟨fun h => (Bool.false_ne_true h).elim, fun h => (hnot h).elim⟩
  · rw [hother]
    exact or_iff_right heq

/-! ## Operations that leave the pools alone -/

theorem isSome_registryOf?_setRegistry (s : Store σ) (pool other : PoolId) (r : Registry) :
    ((s.setRegistry pool r).registryOf? other).isSome = (s.registryOf? other).isSome := by
  rw [registryOf?_setRegistry]
  split_ifs
  · exact Option.isSome_map
  · rfl

theorem isSome_registryOf?_release (s : Store σ) (h : Handle) (pool : PoolId) :
    ((s.release h).1.registryOf? pool).isSome = (s.registryOf? pool).isSome := by
  have hmap := map_registryOf?_release (f := fun _ => ()) (fun _ _ _ => rfl) s h pool
  simpa using congrArg Option.isSome hmap

theorem isSome_registryOf?_promote [ExceptionState σ] {s : Store σ} {pool : PoolId}
    {staging : Staging σ} {p : Promotion σ} (hp : s.promote pool staging = some p)
    (other : PoolId) : (p.store.registryOf? other).isSome = (s.registryOf? other).isSome := by
  obtain ⟨r, -, rfl⟩ := Option.map_eq_some_iff.1 hp
  split
  · exact isSome_registryOf?_setRegistry _ _ _ _
  · rw [promoteMembers]
    split
    · rw [registryOf?_share]
      exact isSome_registryOf?_setRegistry _ _ _ _
    · exact isSome_registryOf?_setRegistry s _ _ _

end Store

/-! ## Runs of a session -/

namespace Session

theorem inUse_putHandle {s : Session σ} {pools : List PoolId} (h : s.store.InUse pools)
    (name : String) (x : Handle) : (s.putHandle name x).1.store.InUse pools := by
  rw [putHandle]
  split
  · exact h
  · exact h.congr (Store.isSome_registryOf?_release _ _)

theorem isSome_registryOf?_releaseAll (store : Store σ) (handles : List Handle) (pool : PoolId) :
    ((releaseAll store handles).1.registryOf? pool).isSome = (store.registryOf? pool).isSome := by
  induction handles generalizing store with
  | nil => rfl
  | cons h rest ih => exact (ih _).trans (Store.isSome_registryOf?_release store h pool)

theorem pools_putHandle (s : Session σ) (name : String) (x : Handle) :
    (s.putHandle name x).1.pools = s.pools := by
  rw [putHandle]
  split <;> rfl

theorem pools_putPool (s : Session σ) (name : String) (pool : PoolId) :
    (s.putPool name pool).1.pools = s.pools.put name pool := by
  unfold putPool
  split <;> rfl

variable [ExceptionState σ]

/-- Some operations lead from one session to the other. -/
def Leads (s t : Session σ) : Prop := ∃ ops events, s.run ops = some (t, events)

/-- Some operations lead to the session from the start. -/
def Reachable (s : Session σ) : Prop := Leads {} s

theorem Leads.trans {s t u : Session σ} (h : s.Leads t) (h' : t.Leads u) : s.Leads u := by
  obtain ⟨ops, events, hrun⟩ := h
  induction ops generalizing s events with
  | nil =>
    cases hrun
    exact h'
  | cons op ops ih =>
    obtain ⟨v, hv, hrun⟩ := Option.bind_eq_some_iff.1 hrun
    obtain ⟨w, hw, hrun⟩ := Option.bind_eq_some_iff.1 hrun
    cases hrun
    obtain ⟨later, events, hlater⟩ := ih w.2 hw
    exact ⟨op :: later, v.2 ++ events, by simp [run, hv, hlater]⟩

theorem leads_of_step {s : Session σ} {op : Operation σ} {t : Session σ × List Event}
    (h : s.step op = some t) : s.Leads t.1 :=
  ⟨[op], t.2, by simp [run, h]⟩

/-- A run keeps what every step keeps. -/
theorem Leads.induct {motive : Session σ → Prop} {s t : Session σ} (h : s.Leads t) (hs : motive s)
    (hstep : ∀ {s : Session σ} {op : Operation σ} {t : Session σ × List Event},
      motive s → s.step op = some t → motive t.1) : motive t := by
  obtain ⟨ops, events, hrun⟩ := h
  induction ops generalizing s events with
  | nil =>
    cases hrun
    exact hs
  | cons op ops ih =>
    obtain ⟨u, hu, hrun⟩ := Option.bind_eq_some_iff.1 hrun
    obtain ⟨v, hv, hrun⟩ := Option.bind_eq_some_iff.1 hrun
    cases hrun
    exact ih (hstep hs hu) v.2 hv

/-- Names, staging sets, pools and handles of a session are as its store has them. -/
structure Consistent (s : Session σ) : Prop where
  tidy : s.Tidy
  store : s.holding.Consistent
  pools : s.store.InUse s.pools.values

theorem consistent_empty : Consistent ({} : Session σ) where
  tidy := ⟨NameMap.ordered_nil, NameMap.ordered_nil, fun _ _ h => by cases h⟩
  store := Store.Consistent.empty
  pools := ⟨List.nodup_nil, fun pool => by
    show (none : Option Registry).isSome = true ↔ _
    simp⟩

/-- The next pool is not in use yet. -/
theorem Consistent.registryOf?_nextPool {s : Session σ} (hs : s.Consistent) :
    s.store.registryOf? ⟨s.store.nextPool⟩ = none := by
  cases hr : s.store.registryOf? ⟨s.store.nextPool⟩ with
  | none => rfl
  | some r => exact absurd (hs.store.pool_lt hr) (Nat.lt_irrefl _)

theorem Step.inUse {s : Session σ} (hs : s.Consistent) {t : Session σ × List Event}
    (h : s.Step t) : t.1.store.InUse t.1.pools.values := by
  have hpools := hs.pools
  cases h with
  | newPool name capacity =>
    have hnew := hpools.newPool capacity hs.registryOf?_nextPool
    rw [putPool]
    cases hold : s.pools.get? name with
    | none => exact hnew.perm (NameMap.values_put_of_none _ hold).symm
    | some old => exact (hnew.perm (hs.tidy.pools.values_put_of_some _ hold).symm).dropPool
  | dropPool h => exact (hpools.perm (hs.tidy.pools.values_erase h)).dropPool
  | stage hm => exact hpools
  | @promote m hm pool log p hp name =>
    rw [pools_putHandle]
    exact inUse_putHandle (s := { s with stagings := m, store := p.store })
      (hpools.congr (Store.isSome_registryOf?_promote hp)) name p.handle
  | @share h hh name =>
    rw [pools_putHandle]
    exact inUse_putHandle (s := { s with store := s.store.share h })
      (hpools.congr fun pool => by rw [Store.registryOf?_share]) name h
  | release hh => exact hpools.congr (Store.isSome_registryOf?_release _ _)
  | releaseAll => exact hpools.congr (isSome_registryOf?_releaseAll _ _)

/-- A new pool has the capacity that was asked for. -/
theorem Consistent.exists_newPool {s : Session σ} (hs : s.Consistent) (name : String)
    (capacity : ℕ) : ∃ t pool r, s.step (.newPool name capacity) = some t ∧
      t.1.pools.get? name = some pool ∧ t.1.store.registryOf? pool = some r ∧
      r.capacity = capacity := by
  have hnone := hs.registryOf?_nextPool
  have hnew : (s.store.newPool capacity).2.registryOf? ⟨s.store.nextPool⟩ = some { capacity } := by
    rw [Store.registryOf?_newPool, hnone, if_pos rfl]
    rfl
  refine ⟨_, ⟨s.store.nextPool⟩, { capacity }, rfl, ?_, ?_, rfl⟩
  · rw [pools_putPool, NameMap.get?_put_self]
  · rw [putPool]
    cases hold : s.pools.get? name with
    | none => exact hnew
    | some old =>
      have hne : (⟨s.store.nextPool⟩ : PoolId) ≠ old := by
        rintro rfl
        have hsome := (hs.pools.isSome_iff _).2 (NameMap.mem_values_of_get? hold)
        rw [hnone] at hsome
        cases hsome
      exact (Store.registryOf?_dropPool _ _ _).trans ((if_neg hne).trans hnew)

variable [Std.TransOrd σ]

theorem Consistent.step {s : Session σ} (hs : s.Consistent) {op : Operation σ}
    {t : Session σ × List Event} (h : s.step op = some t) : t.1.Consistent := by
  have hstep := hs.tidy.step h
  exact ⟨hstep.tidy hs.tidy, (hstep.changes hs.tidy).consistent hs.store, hstep.inUse hs⟩

theorem Leads.consistent {s t : Session σ} (h : s.Leads t) (hs : s.Consistent) : t.Consistent :=
  h.induct hs fun hs hstep => hs.step hstep

theorem Reachable.consistent {s : Session σ} (h : s.Reachable) : s.Consistent :=
  Leads.consistent h consistent_empty

/-- The store of a reachable session agrees with the handles that have a name. -/
theorem Reachable.store {s : Session σ} (h : s.Reachable) :
    s.store.Consistent s.handles.values :=
  h.consistent.store

/-! ## A run with collisions -/

/-- The sets `{1}` and `{2}` collide, and a second `{1}` has another hash. The first is cloned, the
second dropped and made again. -/
def collision : List (Operation KeyedState) :=
  [.newPool "p" 0, .intern "p" [⟨1, 7, false, false⟩] "a", .intern "p" [⟨2, 7, true, false⟩] "b",
    .intern "p" [⟨1, 8, false, true⟩] "c", .clone "a" "d", .drop "b",
    .intern "p" [⟨2, 7, false, false⟩] "e"]

theorem isSome_run_collision : (run {} collision).isSome = true := by
  decide +kernel

/-- The session that `collision` leads to. -/
def collided : Session KeyedState := ((run {} collision).get isSome_run_collision).1

theorem reachable_collided : collided.Reachable :=
  ⟨collision, _, (Option.some_get isSome_run_collision).symm⟩

end Session

end PathIdentity
