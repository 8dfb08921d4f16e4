import PathIdentity.Proofs.Pool.Content
import PathIdentity.Proofs.Pool.History

/-!
# The life of an entry

A store is `Recorded` by the events so far if they are an orderly history, the counters of each
registry count them (`Registry.Accounts`), and the serials that were evicted are those that were
given and have no entry any more. Every elementary change of a consistent store keeps this
(`Holding.Change.recorded`): it emits at most one event, which fits the events before it. So every
run of a session tells the lives of the entries of its pools (`Session.entry_lifecycle`).
-/

namespace PathIdentity

open Event

variable {σ : Type}

/-! ## Registries and events -/

/-- The counters of a registry count the events of its pool. -/
structure Registry.Accounts (r : Registry) (pool : PoolId) (events : List Event) : Prop where
  registered : (serials .registered pool events).length = r.nextSerial
  inserts : r.stats.inserts = r.nextSerial
  hits : r.stats.hits = (serials .reused pool events).length
  evictions : r.stats.evictions = (serials .evicted pool events).length
  promotions : r.stats.promotions = r.stats.sentinelPromotions + r.stats.hits + r.stats.inserts
  live : r.live + r.stats.evictions = r.stats.inserts

/-- Moreover, the serials that were evicted are those without an entry. -/
structure Registry.Recorded (r : Registry) (pool : PoolId) (entries : List (Entry σ))
    (events : List Event) : Prop extends r.Accounts pool events where
  evicted : ∀ serial, serial ∈ serials .evicted pool events ↔
    serial < r.nextSerial ∧ ⟨pool, serial⟩ ∉ entries.map Entry.id

theorem mem_ids_filter_iff {entries : List (Entry σ)} {i id : EntryId} :
    i ∈ (entries.filter fun e => e.id ≠ id).map Entry.id ↔ i ∈ entries.map Entry.id ∧ i ≠ id := by
  simp only [List.mem_map, List.mem_filter, decide_eq_true_eq]
  constructor
  · rintro ⟨e, ⟨he, hne⟩, rfl⟩
    exact ⟨⟨e, he, rfl⟩, hne⟩
  · rintro ⟨⟨e, he, rfl⟩, hne⟩
    exact ⟨e, ⟨he, hne⟩, rfl⟩

namespace Registry.Recorded

variable {r : Registry} {pool : PoolId} {entries entries' : List (Entry σ)}
  {events events' : List Event}

theorem congr (h : r.Recorded pool entries events)
    (hevents : ∀ fate, serials fate pool events' = serials fate pool events)
    (hids : ∀ serial, (⟨pool, serial⟩ : EntryId) ∈ entries'.map Entry.id ↔
      ⟨pool, serial⟩ ∈ entries.map Entry.id) : r.Recorded pool entries' events' where
  registered := hevents .registered ▸ h.registered
  inserts := h.inserts
  hits := hevents .reused ▸ h.hits
  evictions := hevents .evicted ▸ h.evictions
  promotions := h.promotions
  live := h.live
  evicted serial := by rw [hevents, h.evicted, hids]

theorem new {capacity : ℕ} (hevents : ∀ fate, serials fate pool events = []) :
    Registry.Recorded { capacity } pool entries events where
  registered := by rw [hevents]; rfl
  inserts := rfl
  hits := by rw [hevents]; rfl
  evictions := by rw [hevents]; rfl
  promotions := rfl
  live := rfl
  evicted serial := by simp [hevents]

theorem countSentinel (h : r.Recorded pool entries events) :
    r.countPromotion.countSentinel.Recorded pool entries events :=
  { h with
    promotions := by
      have := h.promotions
      simp only [Registry.countSentinel, countPromotion]
      omega }

theorem countHit (h : r.Recorded pool entries events) {e : Entry σ} (hpool : e.id.pool = pool)
    (hash : UInt64) (hids : entries'.map Entry.id = entries.map Entry.id) :
    r.countPromotion.countHit.Recorded pool entries' (events ++ [.reused e.id hash]) where
  registered := by simpa [Registry.countHit, countPromotion] using h.registered
  inserts := h.inserts
  hits := by simpa [Registry.countHit, countPromotion, hpool] using h.hits
  evictions := by simpa [Registry.countHit, countPromotion] using h.evictions
  promotions := by
    have := h.promotions
    simp only [Registry.countHit, countPromotion]
    omega
  live := h.live
  evicted serial := by
    simp only [serials_append, serials_reused, reduceCtorEq, false_and, if_false, List.append_nil,
      hids, h.evicted]
    rfl

theorem register (h : r.Recorded pool entries events) {e : Entry σ}
    (hid : e.id = ⟨pool, r.nextSerial⟩) (size live : ℕ) :
    (r.countPromotion.register e.hash).Recorded pool (entries ++ [e])
      (events ++ [.registered e.id e.hash size live]) where
  registered := by simpa [Registry.register, countPromotion, hid] using h.registered
  inserts := by simpa [Registry.register, countPromotion] using h.inserts
  hits := by simpa [Registry.register, countPromotion] using h.hits
  evictions := by simpa [Registry.register, countPromotion] using h.evictions
  promotions := by
    have := h.promotions
    simp only [Registry.register, countPromotion]
    omega
  live := by
    have := h.live
    simp only [Registry.register, countPromotion]
    omega
  evicted serial := by
    have hserial : serial < r.nextSerial + 1 ∧ serial ≠ r.nextSerial ↔ serial < r.nextSerial := by
      omega
    simp only [serials_append, serials_registered, reduceCtorEq, false_and, if_false,
      List.append_nil, h.evicted, List.map_append, List.map_singleton, List.mem_append,
      List.mem_singleton, hid, EntryId.mk.injEq, true_and, not_or, ← hserial]
    simp only [Registry.register, countPromotion]
    grind

theorem evict (h : r.Recorded pool entries events) {e : Entry σ} (hpool : e.id.pool = pool)
    (hlt : e.id.serial < r.nextSerial) {keep : ℕ → Bool} (hdead : r.dead e.hash keep = 1)
    (hlive : 0 < r.live) (hash : UInt64) (live : ℕ) :
    (r.evict e.hash keep).Recorded pool (entries.filter fun f => f.id ≠ e.id)
      (events ++ [.evicted e.id hash live]) where
  registered := by simpa [Registry.evict] using h.registered
  inserts := h.inserts
  hits := by simpa [Registry.evict] using h.hits
  evictions := by simpa [Registry.evict, hdead, hpool] using h.evictions
  promotions := h.promotions
  live := by
    have := h.live
    simp only [Registry.evict, hdead]
    omega
  evicted serial := by
    have hnext : (r.evict e.hash keep).nextSerial = r.nextSerial := rfl
    rw [hnext, mem_ids_filter_iff, serials_append, List.mem_append, h.evicted, serials_evicted,
      if_pos ⟨rfl, hpool⟩, List.mem_singleton]
    by_cases hserial : serial = e.id.serial
    · simp [hserial, ← hpool, hlt]
    · have hne : (⟨pool, serial⟩ : EntryId) ≠ e.id := fun heq => hserial (by rw [← heq])
      simp [hserial, hne]

end Registry.Recorded

/-! ## Stores and events -/

namespace Store

/-- The store is as the events so far say. -/
structure Recorded (s : Store σ) (events : List Event) : Prop where
  orderly : Orderly events
  pool_lt : ∀ event ∈ events, event.pool.number < s.nextPool
  registry : ∀ {pool r}, s.registryOf? pool = some r → r.Recorded pool s.entries events

namespace Recorded

variable {s s' : Store σ} {events : List Event}

theorem empty : Recorded ({} : Store σ) [] where
  orderly := .nil
  pool_lt := by simp
  registry h := by cases h

/-- Only the registries and the identities of their entries matter. -/
theorem congr (h : s.Recorded events) (hnext : s'.nextPool = s.nextPool)
    (hregistry : ∀ pool, s'.registryOf? pool = s.registryOf? pool)
    (hids : ∀ i : EntryId, (s.registryOf? i.pool).isSome = true →
      (i ∈ s'.entries.map Entry.id ↔ i ∈ s.entries.map Entry.id)) : s'.Recorded events where
  orderly := h.orderly
  pool_lt := hnext ▸ h.pool_lt
  registry {pool r} hr := by
    rw [hregistry] at hr
    exact (h.registry hr).congr (fun _ => rfl) fun serial => hids ⟨pool, serial⟩ (by rw [hr]; rfl)

/-- The registry of one pool changes with events of that pool. -/
theorem update (h : s.Recorded events) {pool : PoolId} {r : Registry} {later : List Event}
    (hlt : pool.number < s.nextPool) (hnext : s'.nextPool = s.nextPool)
    (horderly : Orderly (events ++ later)) (hlater : ∀ event ∈ later, event.pool = pool)
    (hregistry : ∀ other, s'.registryOf? other =
      if other = pool then (s.registryOf? other).map fun _ => r else s.registryOf? other)
    (hids : ∀ i : EntryId, i.pool ≠ pool →
      (i ∈ s'.entries.map Entry.id ↔ i ∈ s.entries.map Entry.id))
    (hr : r.Recorded pool s'.entries (events ++ later)) : s'.Recorded (events ++ later) where
  orderly := horderly
  pool_lt event hevent := by
    rw [hnext]
    rcases List.mem_append.1 hevent with hevent | hevent
    · exact h.pool_lt event hevent
    · rwa [hlater event hevent]
  registry {other r'} hr' := by
    rw [hregistry] at hr'
    split_ifs at hr' with hother
    · obtain ⟨-, -, rfl⟩ := Option.map_eq_some_iff.1 hr'
      exact hother ▸ hr
    · refine (h.registry hr').congr (fun fate => ?_) fun serial => hids _ hother
      have hnil : serials fate other later = [] := by
        refine serials_eq_nil fun event hevent heq => hother ?_
        rw [← heq, hlater event hevent]
      rw [serials_append, hnil, List.append_nil]

theorem newPool (h : s.Recorded events) (capacity : ℕ) :
    (s.newPool capacity).2.Recorded events where
  orderly := h.orderly
  pool_lt event hevent := Nat.lt_succ_of_lt (h.pool_lt event hevent)
  registry {pool r} hr := by
    rw [registryOf?_newPool, Option.or_eq_some_iff] at hr
    rcases hr with hr | ⟨-, hr⟩
    · exact h.registry hr
    · split_ifs at hr with hpool
      cases hr
      refine .new fun fate => serials_eq_nil fun event hevent heq => ?_
      have hlt := h.pool_lt event hevent
      rw [heq, hpool] at hlt
      exact Nat.lt_irrefl _ hlt

theorem changeHandles (h : s.Recorded events) (id : EntryId) (change : ℕ → ℕ) :
    (s.changeHandles id change).Recorded events :=
  h.congr rfl (fun _ => rfl) fun i _ => by rw [ids_changeHandles]

theorem share (h : s.Recorded events) (x : Handle) : (s.share x).Recorded events := by
  cases x with
  | sentinel => exact h
  | entry id => exact h.changeHandles id _

variable [ExceptionState σ] {live : List Handle}

theorem dropPool (h : s.Recorded events) (hs : s.Consistent live) (pool : PoolId) :
    (s.dropPool pool).1.Recorded (events ++ (s.dropPool pool).2) := by
  cases hr : s.registryOf? pool with
  | none =>
    have heq : s.dropPool pool = (s, []) := by rw [Store.dropPool, hr]
    rw [heq, List.append_nil]
    exact h
  | some r =>
    have hevents : (s.dropPool pool).2 = [.poolDropped pool r.live r.stats] := by
      rw [Store.dropPool, hr]
    have hserials (fate : Fate) (other : PoolId) :
        serials fate other (events ++ (s.dropPool pool).2) = serials fate other events := by
      rw [hevents, serials_append, serials_poolDropped, List.append_nil]
    refine ⟨?_, fun event hevent => ?_, fun {other r'} hr' => ?_⟩
    · rw [hevents]
      exact h.orderly.snoc trivial
    · rw [nextPool_dropPool]
      rw [hevents] at hevent
      rcases List.mem_append.1 hevent with hevent | hevent
      · exact h.pool_lt event hevent
      · rw [List.mem_singleton.1 hevent]
        exact hs.pool_lt hr
    · rw [registryOf?_dropPool] at hr'
      split_ifs at hr'
      refine (h.registry hr').congr (fun fate => hserials fate other) fun serial => ?_
      rw [entries_dropPool]

/-- A serial with an entry was registered and not evicted. -/
theorem mem_registered (h : s.Recorded events) (hs : s.Consistent live) {e : Entry σ}
    (he : e ∈ s.entries) {r : Registry} (hr : s.registryOf? e.id.pool = some r) :
    e.id.serial ∈ serials .registered e.id.pool events ∧
      e.id.serial ∉ serials .evicted e.id.pool events := by
  have hrecorded := h.registry hr
  constructor
  · rw [h.orderly.registered_eq_range, List.mem_range, hrecorded.registered]
    exact (hs.lists hr).serial_lt e he rfl
  · rw [hrecorded.evicted]
    exact fun hgone => hgone.2 (List.mem_map_of_mem he)

theorem release {x : Handle} (h : s.Recorded events) (hs : s.Consistent (x :: live)) :
    (s.release x).1.Recorded (events ++ (s.release x).2) := by
  cases x with
  | sentinel => rwa [Store.release, List.append_nil]
  | entry id =>
    obtain ⟨e, he, rfl, ⟨-, heq⟩ | ⟨-, ⟨hnone, heq⟩ | ⟨r, hr, heq⟩⟩⟩ := hs.release_cases
    · rw [heq, List.append_nil]
      exact h.changeHandles e.id (· - 1)
    · rw [heq, List.append_nil]
      refine h.congr rfl (fun _ => rfl) fun i hi => ?_
      rw [entries_removeEntry, mem_ids_filter_iff, and_iff_left]
      rintro rfl
      rw [hnone] at hi
      cases hi
    · have hlists := hs.lists hr
      have hdead := hs.dead_removeEntry he hr
      have hlive : 0 < r.live := hlists.live_pos he rfl
      have hrecorded := h.registry hr
      obtain ⟨hregistered, hevicted⟩ := h.mem_registered hs he hr
      rw [heq]
      refine h.update (hs.pool_lt hr) rfl (h.orderly.snoc ⟨hregistered, hevicted, ?_⟩) ?_
        (fun other => registryOf?_evictFrom (s.removeEntry e.id) e.id.pool other r e) ?_
        (hrecorded.evict rfl (hlists.serial_lt e he rfl) hdead hlive e.hash _)
      · -- The reported count is one less than the counter was.
        have hlive' := hrecorded.live
        have hinserts := hrecorded.inserts
        have hregistered := hrecorded.registered
        have hevictions := hrecorded.evictions
        simp only [Registry.evict, hdead]
        omega
      · intro event hevent
        rw [List.mem_singleton.1 hevent]
        rfl
      · intro i hi
        show i ∈ (s.removeEntry e.id).entries.map Entry.id ↔ _
        rw [entries_removeEntry, mem_ids_filter_iff, and_iff_left]
        rintro rfl
        exact hi rfl

theorem promote (h : s.Recorded events) (hs : s.Consistent live) {pool : PoolId} {log : List σ}
    {p : Promotion σ} (hp : s.promote pool (.ofList log) = some p) :
    p.store.Recorded (events ++ p.events) := by
  obtain ⟨r, hr, ⟨-, rfl⟩ | ⟨-, ⟨e, he, rfl, -, -, rfl⟩ | ⟨-, rfl⟩⟩⟩ := hs.promote_cases hp
  · have hrecorded := (h.registry hr).countSentinel
    rw [← List.append_nil events] at hrecorded
    have horderly : Orderly (events ++ []) := by
      rw [List.append_nil]
      exact h.orderly
    exact h.update (hs.pool_lt hr) rfl horderly (fun _ hevent => by cases hevent)
      (fun other => registryOf?_setRegistry s pool other _) (fun _ _ => Iff.rfl) hrecorded
  · have hids := ids_changeHandles (s.setRegistry e.id.pool r.countPromotion.countHit) e.id (· + 1)
    have hrecorded := (h.registry hr).countHit rfl e.hash hids
    refine h.update (hs.pool_lt hr) rfl (h.orderly.snoc (h.mem_registered hs he hr)) ?_
      (fun other => registryOf?_setRegistry s e.id.pool other _) (fun i _ => ?_) hrecorded
    · intro event hevent
      rw [List.mem_singleton.1 hevent]
      rfl
    · show i ∈ (Store.changeHandles _ e.id (· + 1)).entries.map Entry.id ↔ _
      rw [hids]
      rfl
  · have hrecorded := (h.registry hr).register
      (e := makeEntry ⟨pool, r.nextSerial⟩ (.ofList log)) rfl (Staging.ofList log).members.length
      (r.live + 1)
    refine h.update (hs.pool_lt hr) rfl (h.orderly.snoc ⟨?_, ?_⟩) ?_
      (fun other => registryOf?_insertEntry s pool other _ _) (fun i hi => ?_) hrecorded
    · exact (h.registry hr).registered.symm
    · have hlive := (h.registry hr).live
      have hinserts := (h.registry hr).inserts
      have hevictions := (h.registry hr).evictions
      simp only [makeEntry]
      omega
    · intro event hevent
      rw [List.mem_singleton.1 hevent]
      rfl
    · show i ∈ (s.entries ++ [_]).map Entry.id ↔ _
      rw [List.map_append, List.mem_append, or_iff_left]
      intro hmem
      rw [List.map_singleton, List.mem_singleton] at hmem
      rw [hmem] at hi
      exact hi rfl

end Recorded

end Store

/-! ## Runs -/

section Runs

variable [ExceptionState σ]

theorem Holding.Change.recorded {a b : Holding σ} {events later : List Event}
    (h : Change a later b) (ha : a.Consistent) (hrec : a.store.Recorded events) :
    b.store.Recorded (events ++ later) := by
  cases h with
  | newPool s live capacity =>
    rw [List.append_nil]
    exact hrec.newPool capacity
  | dropPool s live pool => exact hrec.dropPool ha pool
  | share =>
    rw [List.append_nil]
    exact hrec.share _
  | release s live h => exact hrec.release ha
  | promote hp => exact hrec.promote ha hp
  | reorder =>
    rw [List.append_nil]
    exact hrec

variable [Std.TransOrd σ]

theorem Holding.Changes.recorded {a b : Holding σ} {events later : List Event}
    (h : Changes a later b) (ha : a.Consistent) (hrec : a.store.Recorded events) :
    b.store.Recorded (events ++ later) := by
  induction h generalizing events with
  | refl =>
    rw [List.append_nil]
    exact hrec
  | cons first _ ih =>
    rw [← List.append_assoc]
    exact ih (first.consistent ha) (first.recorded ha hrec)

/-- A run of a session is a sequence of elementary changes with the same events. -/
theorem Session.Consistent.run {s t : Session σ} {ops : List (Operation σ)} {events : List Event}
    (hs : s.Consistent) (h : s.run ops = some (t, events)) :
    t.Consistent ∧ Holding.Changes s.holding events t.holding := by
  induction ops generalizing s events with
  | nil =>
    cases h
    exact ⟨hs, .refl _⟩
  | cons op ops ih =>
    obtain ⟨u, hu, h⟩ := Option.bind_eq_some_iff.1 h
    obtain ⟨v, hv, h⟩ := Option.bind_eq_some_iff.1 h
    cases h
    have hchanges := (hs.tidy.step hu).changes hs.tidy
    obtain ⟨hcons, hrest⟩ := ih (hs.step hu) hv
    exact ⟨hcons, hchanges.trans hrest⟩

end Runs

/-! ## Evictions and later promotions -/

namespace Store.Consistent

variable [ExceptionState σ] {s t : Store σ} {live live' : List Handle}

/-- In a pool in use, the release of a handle evicts its entry exactly if it was the last. -/
theorem release_events (h : s.Consistent live) {id : EntryId} (hid : Handle.entry id ∈ live)
    {r : Registry} (hr : s.registryOf? id.pool = some r) :
    (s.release (.entry id)).2 =
      if live.count (.entry id) = 1 then [.evicted id (s.hashOf (.entry id)) (r.live - 1)]
      else [] := by
  have hperm := List.perm_cons_erase hid
  have hcount : live.count (.entry id) = (live.erase (.entry id)).count (.entry id) + 1 := by
    rw [hperm.count_eq, List.count_cons_self]
  obtain ⟨e, he, rfl, hcases⟩ := (h.perm hperm).release_cases
  rw [hashOf_entry ((entryAt?_eq_some_iff h.ids).2 ⟨he, rfl⟩)]
  rcases hcases with ⟨hmore, heq⟩ | ⟨hlast, ⟨hnone, -⟩ | ⟨r', hr', heq⟩⟩
  · have hpos := List.count_pos_iff.2 hmore
    rw [heq, if_neg (by omega)]
  · rw [hnone] at hr
    cases hr
  · rw [hr] at hr'
    cases hr'
    have hdead := h.dead_removeEntry he hr
    have hzero := List.count_eq_zero.2 hlast
    rw [heq, if_pos (by omega), evictFrom, Registry.evict, hdead]

/-- A set that an entry's handle showed is promoted to a later serial once the entry is gone. -/
theorem lt_serial_of_promote [Std.TransOrd σ] (h : s.Consistent live) (hst : s.Later t)
    (ht : t.Consistent live') {e : Entry σ} (he : e ∈ s.entries)
    (hgone : e.id ∉ t.entries.map Entry.id) {log : List σ} {p : Promotion σ}
    (hp : t.promote e.id.pool (.ofList log) = some p)
    (hshows : s.Shows (.entry e.id) (Staging.ofList log).members) :
    ∃ serial, p.handle = .entry ⟨e.id.pool, serial⟩ ∧ e.id.serial < serial := by
  have hissued := h.issued he
  have hentry := (entryAt?_eq_some_iff h.ids).2 ⟨he, rfl⟩
  obtain ⟨hhash, hsame⟩ := (h.shows_entry_iff ((h.held e.id).2 ⟨e, he, rfl⟩)).1 hshows
  rw [hashOf_entry hentry] at hhash
  rw [members_entry hentry] at hsame
  obtain ⟨r, hr, ⟨rfl, rfl⟩ | ⟨-, ⟨f, hf, hpool, hfhash, hfsame, rfl⟩ | ⟨-, rfl⟩⟩⟩ :=
    ht.promote_cases hp
  · obtain ⟨log, hlog⟩ := h.made e he
    exact absurd (List.length_eq_zero_iff.1 (length_eq_of_sameStates hsame)) hlog.members_ne_nil
  · refine ⟨f.id.serial, by rw [← hpool]; rfl, ?_⟩
    by_contra hle
    -- Otherwise the entry was there already when the other one was, with the same content.
    have hfissued : s.Issued f.id := by
      refine ⟨hpool ▸ hissued.1, fun r hr => ?_⟩
      have := hissued.2 r (hpool ▸ hr)
      omega
    obtain ⟨g, hg, hfg⟩ := hst.entry f hf hfissued
    have hgid : f.id = g.id := by rw [hfg]
    have hghash : f.hash = g.hash := by rw [hfg]
    have hgmembers : f.members = g.members := by rw [hfg]
    have hid : g.id = e.id := by
      refine h.unique g hg e he (hgid ▸ hpool) ?_ ?_
      · rw [← hghash, hfhash, hhash]
      · rw [← hgmembers]
        exact sameStates_trans hfsame (sameStates_symm hsame)
    exact hgone (List.mem_map.2 ⟨f, hf, hgid.trans hid⟩)
  · exact ⟨r.nextSerial, rfl, (hissued.later hst).2 r hr⟩

end Store.Consistent

namespace Store.Recorded

variable [ExceptionState σ] {s t : Store σ} {live live' : List Handle} {events later : List Event}

/-- The serials that were evicted are those registered and without a live handle. -/
theorem mem_evicted (h : s.Recorded events) (hs : s.Consistent live) {pool : PoolId} {r : Registry}
    (hr : s.registryOf? pool = some r) (serial : ℕ) :
    (serial ∈ serials .evicted pool events ↔
      serial ∈ serials .registered pool events ∧ Handle.entry ⟨pool, serial⟩ ∉ live) ∧
    (Handle.entry ⟨pool, serial⟩ ∈ live → serial ∈ serials .registered pool events) := by
  have hregistered : serial ∈ serials .registered pool events ↔ serial < r.nextSerial := by
    rw [h.orderly.registered_eq_range, List.mem_range, (h.registry hr).registered]
  rw [hregistered, (h.registry hr).evicted, hs.held, List.mem_map]
  refine ⟨Iff.rfl, ?_⟩
  rintro ⟨e, he, hid⟩
  have hlt := (hs.lists hr).serial_lt e he (by rw [hid])
  rwa [hid] at hlt

/-- Between two moments a serial is evicted exactly if its entry was there or came, and is gone. -/
theorem mem_evicted_later (h : s.Recorded events) (hs : s.Consistent live)
    (ht : t.Recorded (events ++ later)) (htc : t.Consistent live') {pool : PoolId}
    {r r' : Registry} (hr : s.registryOf? pool = some r) (hr' : t.registryOf? pool = some r')
    (serial : ℕ) :
    serial ∈ serials .evicted pool later ↔
      (Handle.entry ⟨pool, serial⟩ ∈ live ∨ serial ∈ serials .registered pool later) ∧
        Handle.entry ⟨pool, serial⟩ ∉ live' := by
  obtain ⟨hbefore, hlive⟩ := h.mem_evicted hs hr serial
  have hafter := (ht.mem_evicted htc hr' serial).1
  have hevicted : (serials .evicted pool (events ++ later)).Nodup := ht.orderly.nodup_evicted
  have hregistered : (serials .registered pool (events ++ later)).Nodup := by
    rw [ht.orderly.registered_eq_range]
    exact List.nodup_range
  rw [serials_append] at hevicted hregistered
  rw [serials_append, serials_append, List.mem_append, List.mem_append] at hafter
  -- No serial is evicted or registered both before and after.
  have hevicted : serial ∈ serials .evicted pool events → serial ∉ serials .evicted pool later :=
    fun hmem => List.disjoint_of_nodup_append hevicted hmem
  have hregistered : serial ∈ serials .registered pool events →
      serial ∉ serials .registered pool later :=
    fun hmem => List.disjoint_of_nodup_append hregistered hmem
  grind

end Store.Recorded

namespace Session

variable [ExceptionState σ] [Std.TransOrd σ]

theorem recorded_of_run {ops : List (Operation σ)} {s : Session σ} {events : List Event}
    (h : run {} ops = some (s, events)) : s.Consistent ∧ s.store.Recorded events := by
  obtain ⟨hs, hchanges⟩ := consistent_empty.run h
  exact ⟨hs, hchanges.recorded consistent_empty.store .empty⟩

/-- Every run tells the lives of the entries of a pool with a name. Its registry counts the events
of the pool: registrations carry the serials from zero in order, and the counter is the number of
entries registered and not evicted. An entry is reused only between its registration and its
eviction, after which it never shows again. Promoting an empty set emits nothing. Dropping a handle
evicts its entry exactly if it is the last one, and however the run goes on with the pool in use, an
entry is evicted exactly if it was alive, or was registered meanwhile, and is not alive any more. A
set with the content of an entry that is gone, its hash and equal states as `Store.Shows` has it and
`Store.contentEq` compares them, is then promoted to a later serial. -/
theorem entry_lifecycle {ops : List (Operation σ)} {s : Session σ} {events : List Event}
    (hrun : run {} ops = some (s, events)) {name : String} {pool : PoolId}
    (hpool : s.pools.get? name = some pool) :
    ∃ r, s.store.registryOf? pool = some r ∧
      (serials .registered pool events = List.range r.nextSerial ∧ r.Accounts pool events ∧
        r.stats.evictions ≤ r.stats.inserts ∧ r.live = r.stats.inserts - r.stats.evictions) ∧
      Lives pool events ∧
      (∀ set : Staging σ, set.isEmpty = true →
        ∃ p, s.store.promote pool set = some p ∧ p.handle = .sentinel ∧ p.events = []) ∧
      (∀ id, Handle.entry id ∈ s.handles.values → id.pool = pool →
        (s.store.release (.entry id)).2 =
          if s.handles.values.count (.entry id) = 1 then
            [.evicted id (s.store.hashOf (.entry id)) (r.live - 1)]
          else []) ∧
      ∀ ops' t later, s.run ops' = some (t, later) → (t.store.registryOf? pool).isSome = true →
        (∀ serial, serial ∈ serials .evicted pool later ↔
          (Handle.entry ⟨pool, serial⟩ ∈ s.handles.values ∨
            serial ∈ serials .registered pool later) ∧
          Handle.entry ⟨pool, serial⟩ ∉ t.handles.values) ∧
        ∀ id, Handle.entry id ∈ s.handles.values → id.pool = pool →
          Handle.entry id ∉ t.handles.values →
          ∀ name' staging set, t.pools.get? name' = some pool →
            t.stagings.get? staging = some set →
            s.store.Shows (.entry id) set.members →
            ∀ handle, ∃ u serial, t.step (.promote name' staging handle) = some u ∧
              u.1.handles.get? handle = some (.entry ⟨pool, serial⟩) ∧ id.serial < serial := by
  obtain ⟨hcons, hrec⟩ := recorded_of_run hrun
  have hstore : s.store.Consistent s.handles.values := hcons.store
  have hsome := (hcons.pools.isSome_iff pool).2 (NameMap.mem_values_of_get? hpool)
  obtain ⟨r, hr⟩ := Option.isSome_iff_exists.1 hsome
  have haccounts := (hrec.registry hr).toAccounts
  refine ⟨r, hr, ⟨?_, haccounts, ?_, ?_⟩, hrec.orderly.lives pool, fun set hset => ?_,
    fun id hid hidpool => ?_, fun ops' t later hrun' huse => ⟨fun serial => ?_, ?_⟩⟩
  · rw [← haccounts.registered]
    exact hrec.orderly.registered_eq_range
  · have := haccounts.live
    omega
  · have := haccounts.live
    omega
  · refine ⟨_, Option.map_eq_some_iff.2 ⟨r, hr, rfl⟩, ?_⟩
    rw [if_pos hset]
    exact ⟨rfl, rfl⟩
  · subst hidpool
    exact hstore.release_events hid hr
  · obtain ⟨r', hr'⟩ := Option.isSome_iff_exists.1 huse
    obtain ⟨htcons, hchanges⟩ := hcons.run hrun'
    exact hrec.mem_evicted_later hstore (hchanges.recorded hcons.store hrec) htcons.store hr hr'
      serial
  · intro id hid hidpool hgone name' staging set hname' hset hshows handle
    subst hidpool
    obtain ⟨htcons, hchanges⟩ := hcons.run hrun'
    have htstore : t.store.Consistent t.handles.values := htcons.store
    obtain ⟨e, he, rfl, -⟩ := hstore.exists_entry hid
    obtain ⟨log, rfl⟩ := htcons.tidy.stagings _ _ hset
    obtain ⟨p, u, hp, hu, -, hhandle, -⟩ := htcons.exists_step_promote hname' hset handle
    have hnot : e.id ∉ t.store.entries.map Entry.id := by
      rw [List.mem_map, ← htstore.held]
      exact hgone
    obtain ⟨serial, hserial, hlt⟩ :=
      hstore.lt_serial_of_promote hchanges.later htstore he hnot hp hshows
    exact ⟨u, serial, hu, hserial ▸ hhandle, hlt⟩

/-- After the run with collisions: the second `{2}` goes too, and is staged again. -/
def regathered : List (Operation KeyedState) :=
  [.drop "e", .collect "x" [⟨2, 7, false, false⟩]]

theorem isSome_run_regathered : (collided.run regathered).isSome = true := by
  decide +kernel

/-- In the run with collisions four entries are registered and one is evicted. The content of the
fourth, which goes later, is promoted to a later serial. -/
theorem entry_lifecycle_collided :
    ∃ events, run {} collision = some (collided, events) ∧
      serials .registered ⟨0⟩ events = [0, 1, 2, 3] ∧ serials .evicted ⟨0⟩ events = [1] ∧
      ∃ t later, collided.run regathered = some (t, later) ∧
        3 ∈ serials .evicted ⟨0⟩ later ∧
        ∃ u serial, t.step (.promote "p" "x" "f") = some u ∧
          u.1.handles.get? "f" = some (.entry ⟨⟨0⟩, serial⟩) ∧ 3 < serial := by
  have hrun := (Option.some_get isSome_run_collision).symm
  have hlater := (Option.some_get isSome_run_regathered).symm
  have hpool : collided.pools.get? "p" = some ⟨0⟩ := by decide +kernel
  obtain ⟨r, -, -, -, -, -, hgoes⟩ := entry_lifecycle hrun hpool
  obtain ⟨hevicted, hpromoted⟩ := hgoes _ _ _ hlater (by decide +kernel)
  have hlive : Handle.entry ⟨⟨0⟩, 3⟩ ∈ collided.handles.values := by decide +kernel
  have hshows : collided.store.Shows (.entry ⟨⟨0⟩, 3⟩)
      (Staging.ofList [(⟨2, 7, false, false⟩ : KeyedState)]).members :=
    ((recorded_of_run hrun).1.store.shows_entry_iff hlive).2
      ⟨by decide +kernel, by decide +kernel⟩
  refine ⟨_, hrun, by decide +kernel, by decide +kernel, _, _, hlater,
    (hevicted 3).2 ⟨.inl hlive, by decide +kernel⟩, ?_⟩
  exact hpromoted ⟨⟨0⟩, 3⟩ hlive rfl (by decide +kernel) "p" "x"
    (.ofList [⟨2, 7, false, false⟩]) (by decide +kernel) rfl hshows "f"

end Session

end PathIdentity
