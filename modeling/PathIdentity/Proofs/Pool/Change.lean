import PathIdentity.Pool.Session
import PathIdentity.Proofs.NameMap
import PathIdentity.Proofs.Pool.Consistent

/-!
# Elementary changes of a store and its live handles

A `Holding` is a store with the list of its live handles. Whatever a session does to it is a
sequence of elementary changes (`Holding.Change`): a pool is made or dropped, a handle is shared or
released, or a staging set is promoted. So what every change keeps, every run of a session keeps;
for `Store.Consistent` this is `Holding.Changes.consistent`.

The steps of a session are sorted by what they do to its holding (`Session.Step`), once for all
operations. The names play no part in the store, but for each name to have one value they have to
ascend, and every staging set that is promoted has to be one of a log: this is `Session.Tidy`.
-/

namespace PathIdentity

variable {σ : Type} [ExceptionState σ]

/-- A store with its live handles. -/
structure Holding (σ : Type) where
  store : Store σ
  live : List Handle

namespace Holding

/-- An elementary change and its events. -/
inductive Change : Holding σ → List Event → Holding σ → Prop
  | newPool (s : Store σ) (live : List Handle) (capacity : ℕ) :
      Change ⟨s, live⟩ [] ⟨(s.newPool capacity).2, live⟩
  | dropPool (s : Store σ) (live : List Handle) (pool : PoolId) :
      Change ⟨s, live⟩ (s.dropPool pool).2 ⟨(s.dropPool pool).1, live⟩
  | share {s : Store σ} {live : List Handle} {h : Handle} (hh : h = .sentinel ∨ h ∈ live) :
      Change ⟨s, live⟩ [] ⟨s.share h, h :: live⟩
  | release (s : Store σ) (live : List Handle) (h : Handle) :
      Change ⟨s, h :: live⟩ (s.release h).2 ⟨(s.release h).1, live⟩
  | promote {s : Store σ} {live : List Handle} {pool : PoolId} {log : List σ} {p : Promotion σ}
      (hp : s.promote pool (.ofList log) = some p) :
      Change ⟨s, live⟩ p.events ⟨p.store, p.handle :: live⟩
  /-- The order of the handles has no meaning. -/
  | reorder (s : Store σ) {live live' : List Handle} (h : live.Perm live') :
      Change ⟨s, live⟩ [] ⟨s, live'⟩

/-- Changes one after another, with all their events. -/
inductive Changes : Holding σ → List Event → Holding σ → Prop
  | refl (a : Holding σ) : Changes a [] a
  | cons {a b c : Holding σ} {events later : List Event} (first : Change a events b)
      (rest : Changes b later c) : Changes a (events ++ later) c

theorem Change.changes {a b : Holding σ} {events : List Event} (h : Change a events b) :
    Changes a events b := by
  have := Changes.cons h (.refl b)
  rwa [List.append_nil] at this

theorem Changes.trans {a b c : Holding σ} {events later : List Event} (h : Changes a events b)
    (h' : Changes b later c) : Changes a (events ++ later) c := by
  induction h with
  | refl => exact h'
  | cons first _ ih =>
    rw [List.append_assoc]
    exact .cons first (ih h')

/-- A change without events, first or last, does not show in the events. -/
theorem Changes.cons_silent {a b c : Holding σ} {events : List Event} (first : Change a [] b)
    (rest : Changes b events c) : Changes a events c := .cons first rest

/-! ## Consistency -/

/-- A holding whose store agrees with its live handles. -/
def Consistent (a : Holding σ) : Prop := a.store.Consistent a.live

variable [Std.TransOrd σ]

theorem Change.consistent {a b : Holding σ} {events : List Event} (h : Change a events b)
    (ha : a.Consistent) : b.Consistent := by
  cases h with
  | newPool s live capacity => exact Store.Consistent.newPool ha capacity
  | dropPool s live pool => exact Store.Consistent.dropPool ha pool
  | @share s live h hh =>
    cases h with
    | sentinel => exact Store.Consistent.sentinel_iff.2 ha
    | entry id => exact Store.Consistent.share ha (hh.resolve_left Handle.noConfusion)
  | release s live h => exact Store.Consistent.release ha
  | promote hp => exact Store.Consistent.promote ha hp
  | reorder s h => exact Store.Consistent.perm ha h

theorem Changes.consistent {a b : Holding σ} {events : List Event} (h : Changes a events b)
    (ha : a.Consistent) : b.Consistent := by
  induction h with
  | refl => exact ha
  | cons first _ ih => exact ih (first.consistent ha)

end Holding

/-! ## Sessions -/

namespace Session

/-- The store of a session with the handles that have a name. -/
def holding (s : Session σ) : Holding σ := ⟨s.store, s.handles.values⟩

/-- Every staging set of a map is one of a log. -/
def Logged (m : NameMap (Staging σ)) : Prop :=
  ∀ (name : String) (set : Staging σ), m.get? name = some set → ∃ log, set = .ofList log

/-- Names have one value each, and staging sets come from logs. -/
structure Tidy (s : Session σ) : Prop where
  pools : s.pools.Ordered
  handles : s.handles.Ordered
  stagings : Logged s.stagings

theorem Logged.put {m : NameMap (Staging σ)} (h : Logged m) (name : String) (log : List σ) :
    Logged (m.put name (.ofList log)) := by
  intro other set hset
  by_cases heq : other = name
  · rw [heq, NameMap.get?_put_self] at hset
    exact ⟨log, (Option.some.inj hset).symm⟩
  · rw [NameMap.get?_put_of_ne heq] at hset
    exact h other set hset

theorem Logged.erase {m : NameMap (Staging σ)} (h : Logged m) (name : String) :
    Logged (m.erase name) := by
  intro other set hset
  by_cases heq : other = name
  · rw [heq, NameMap.get?_erase_self] at hset
    cases hset
  · rw [NameMap.get?_erase_of_ne heq] at hset
    exact h other set hset

/-- What a step does: the next session with the events of the step. -/
inductive Step (s : Session σ) : Session σ × List Event → Prop
  | newPool (name : String) (capacity : ℕ) :
      Step s ({ s with store := (s.store.newPool capacity).2 }.putPool name
        (s.store.newPool capacity).1)
  | dropPool {name : String} {pool : PoolId} (h : s.pools.get? name = some pool) :
      Step s ({ s with store := (s.store.dropPool pool).1, pools := s.pools.erase name },
        (s.store.dropPool pool).2)
  | stage {m : NameMap (Staging σ)} (hm : Logged m) : Step s ({ s with stagings := m }, [])
  | promote {m : NameMap (Staging σ)} (hm : Logged m) {pool : PoolId} {log : List σ}
      {p : Promotion σ} (hp : s.store.promote pool (.ofList log) = some p) (name : String) :
      Step s (({ s with stagings := m, store := p.store }.putHandle name p.handle).1,
        p.events ++ ({ s with stagings := m, store := p.store }.putHandle name p.handle).2)
  | share {h : Handle} (hh : h = .sentinel ∨ h ∈ s.handles.values) (name : String) :
      Step s ({ s with store := s.store.share h }.putHandle name h)
  | release {name : String} {h : Handle} (hh : s.handles.get? name = some h) :
      Step s ({ s with store := (s.store.release h).1, handles := s.handles.erase name },
        (s.store.release h).2)
  | releaseAll :
      Step s ({ s with store := (releaseAll s.store s.handles.values).1, handles := [] },
        (releaseAll s.store s.handles.values).2)

/-- A promotion of a session is one of its store, whose handle then takes its name. -/
theorem promote_eq_some_iff {s : Session σ} {pool : PoolId} {staging : Staging σ} {name : String}
    {t : Session σ × List Event} : s.promote pool staging name = some t ↔
      ∃ p, s.store.promote pool staging = some p ∧
        t = (({ s with store := p.store }.putHandle name p.handle).1,
          p.events ++ ({ s with store := p.store }.putHandle name p.handle).2) := by
  constructor
  · intro h
    obtain ⟨p, hp, ht⟩ := Option.bind_eq_some_iff.1 h
    exact ⟨p, hp, (Option.some.inj ht).symm⟩
  · rintro ⟨p, hp, rfl⟩
    exact Option.bind_eq_some_iff.2 ⟨p, hp, rfl⟩

theorem Tidy.step {s : Session σ} (h : s.Tidy) {op : Operation σ} {t : Session σ × List Event}
    (hstep : s.step op = some t) : s.Step t := by
  cases op with
  | newPool pool capacity =>
    cases hstep
    exact .newPool pool capacity
  | dropPool pool =>
    obtain ⟨id, hid, ht⟩ := Option.bind_eq_some_iff.1 hstep
    cases ht
    exact .dropPool hid
  | newStaging staging =>
    cases hstep
    exact .stage (h.stagings.put staging [])
  | collect staging states =>
    cases hstep
    exact .stage (h.stagings.put staging states)
  | insert staging state =>
    obtain ⟨set, hset, ht⟩ := Option.bind_eq_some_iff.1 hstep
    cases ht
    obtain ⟨log, rfl⟩ := h.stagings _ _ hset
    rw [Staging.insert_ofList]
    exact .stage (h.stagings.put staging _)
  | extend staging states =>
    obtain ⟨set, hset, ht⟩ := Option.bind_eq_some_iff.1 hstep
    cases ht
    obtain ⟨log, rfl⟩ := h.stagings _ _ hset
    rw [Staging.extend_ofList]
    exact .stage (h.stagings.put staging _)
  | clear staging =>
    obtain ⟨set, hset, ht⟩ := Option.bind_eq_some_iff.1 hstep
    cases ht
    exact .stage (h.stagings.put staging [])
  | take staging target =>
    obtain ⟨set, hset, ht⟩ := Option.bind_eq_some_iff.1 hstep
    cases ht
    obtain ⟨log, rfl⟩ := h.stagings _ _ hset
    exact .stage ((h.stagings.put staging []).put target log)
  | takeOver staging source =>
    obtain ⟨set, hset, ht⟩ := Option.bind_eq_some_iff.1 hstep
    obtain ⟨old, hold, ht⟩ := Option.bind_eq_some_iff.1 ht
    cases ht
    obtain ⟨log, rfl⟩ := h.stagings _ _ hset
    exact .stage ((h.stagings.erase source).put staging log)
  | promote pool staging handle =>
    obtain ⟨id, hid, ht⟩ := Option.bind_eq_some_iff.1 hstep
    obtain ⟨set, hset, ht⟩ := Option.bind_eq_some_iff.1 ht
    obtain ⟨p, hp, rfl⟩ := promote_eq_some_iff.1 ht
    obtain ⟨log, rfl⟩ := h.stagings _ _ hset
    exact Step.promote (s := s) (h.stagings.erase staging) hp handle
  | intern pool states handle =>
    obtain ⟨id, hid, ht⟩ := Option.bind_eq_some_iff.1 hstep
    obtain ⟨p, hp, rfl⟩ := promote_eq_some_iff.1 ht
    exact .promote h.stagings hp handle
  | newSentinel handle =>
    cases hstep
    exact .share (Or.inl rfl) handle
  | clone handle target =>
    obtain ⟨x, hx, ht⟩ := Option.bind_eq_some_iff.1 hstep
    cases ht
    exact .share (Or.inr (NameMap.mem_values_of_get? hx)) target
  | drop handle =>
    obtain ⟨x, hx, ht⟩ := Option.bind_eq_some_iff.1 hstep
    cases ht
    exact .release hx
  | dropAll =>
    cases hstep
    exact .releaseAll

/-! ## Steps as changes -/

/-- A handle that is placed under a name, and the release of the old one. -/
theorem putHandle_changes {s : Session σ} (hs : s.handles.Ordered) (name : String) (h : Handle) :
    Holding.Changes ⟨s.store, h :: s.handles.values⟩ (s.putHandle name h).2
      (s.putHandle name h).1.holding := by
  rw [putHandle]
  cases hold : s.handles.get? name with
  | none => exact (Holding.Change.reorder _ (NameMap.values_put_of_none h hold).symm).changes
  | some old =>
    have hperm := (hs.values_put_of_some h hold).symm
    exact .cons_silent (.reorder _ hperm) (Holding.Change.release _ _ old).changes

theorem releaseAll_changes (store : Store σ) (handles : List Handle) :
    Holding.Changes ⟨store, handles⟩ (releaseAll store handles).2
      ⟨(releaseAll store handles).1, []⟩ := by
  induction handles generalizing store with
  | nil => exact .refl _
  | cons h rest ih => exact .cons (.release store rest h) (ih _)

theorem Step.changes {s : Session σ} (hs : s.Tidy) {t : Session σ × List Event} (h : s.Step t) :
    Holding.Changes s.holding t.2 t.1.holding := by
  cases h with
  | newPool name capacity =>
    have hnew := Holding.Change.newPool s.store s.handles.values capacity
    rw [putPool]
    cases hold : s.pools.get? name with
    | none => exact hnew.changes
    | some old => exact .cons_silent hnew (Holding.Change.dropPool _ _ old).changes
  | dropPool h => exact (Holding.Change.dropPool _ _ _).changes
  | stage hm => exact .refl _
  | @promote m hm pool log p hp name =>
    exact .cons (.promote hp)
      (putHandle_changes (s := { s with stagings := m, store := p.store }) hs.handles name p.handle)
  | @share h hh name =>
    exact .cons_silent (.share hh)
      (putHandle_changes (s := { s with store := s.store.share h }) hs.handles name h)
  | @release name h hh =>
    have hperm := hs.handles.values_erase hh
    exact .cons_silent (.reorder _ hperm) (Holding.Change.release _ _ h).changes
  | releaseAll => exact releaseAll_changes s.store s.handles.values

/-! ## Tidiness -/

theorem tidy_putHandle {s : Session σ} (hs : s.Tidy) (name : String) (h : Handle) :
    (s.putHandle name h).1.Tidy := by
  rw [putHandle]
  split <;> exact ⟨hs.pools, hs.handles.put name h, hs.stagings⟩

theorem Step.tidy {s : Session σ} (hs : s.Tidy) {t : Session σ × List Event} (h : s.Step t) :
    t.1.Tidy := by
  cases h with
  | newPool name capacity =>
    rw [putPool]
    split <;> exact ⟨hs.pools.put name _, hs.handles, hs.stagings⟩
  | dropPool h => exact ⟨hs.pools.erase _, hs.handles, hs.stagings⟩
  | stage hm => exact ⟨hs.pools, hs.handles, hm⟩
  | @promote m hm pool log p hp name =>
    exact tidy_putHandle (s := { s with stagings := m, store := p.store })
      ⟨hs.pools, hs.handles, hm⟩ name p.handle
  | @share h hh name =>
    exact tidy_putHandle (s := { s with store := s.store.share h })
      ⟨hs.pools, hs.handles, hs.stagings⟩ name h
  | release hh => exact ⟨hs.pools, hs.handles.erase _, hs.stagings⟩
  | releaseAll => exact ⟨hs.pools, NameMap.ordered_nil, hs.stagings⟩

end Session

end PathIdentity
