import PathIdentity.Proofs.Pool.Reachable

/-!
# The content of a handle

`Store.Later s t` says that `t` may follow `s`: an entry of `t` whose identity had been given away
in `s` is an entry of `s` with another count, and identities that were given away stay so. It is a
preorder which every elementary change keeps, so it holds along every run (`Session.Leads.later`).
Hence what a handle shows never changes as long as it is alive.

`Store.Shows s h states` says that `h` has the content of the set `states`. The handle of a
promotion shows the set that was promoted (`Store.Consistent.shows_promote`), and promoting a set
that a live handle of the pool shows gives that handle (`Store.Consistent.promote_of_shows`).
-/

namespace PathIdentity

variable {σ : Type}

namespace Store

/-! ## Later stores -/

/-- The identity has been given away, and will not be given again. -/
def Issued (s : Store σ) (id : EntryId) : Prop :=
  id.pool.number < s.nextPool ∧
    ∀ r, s.registryOf? id.pool = some r → id.serial < r.nextSerial

/-- Pools and entries with an old number are those of the earlier store. -/
structure Later (s t : Store σ) : Prop where
  nextPool_le : s.nextPool ≤ t.nextPool
  registry : ∀ {pool r}, pool.number < s.nextPool → t.registryOf? pool = some r →
    ∃ old, s.registryOf? pool = some old ∧ old.nextSerial ≤ r.nextSerial
  entry : ∀ f ∈ t.entries, s.Issued f.id → ∃ e ∈ s.entries, f = { e with handles := f.handles }

theorem Issued.later {s t : Store σ} {id : EntryId} (h : s.Issued id) (hst : s.Later t) :
    t.Issued id := by
  refine ⟨h.1.trans_le hst.nextPool_le, fun r hr => ?_⟩
  obtain ⟨old, hold, hle⟩ := hst.registry h.1 hr
  exact (h.2 old hold).trans_le hle

theorem Later.refl (s : Store σ) : s.Later s :=
  ⟨le_rfl, fun _ hr => ⟨_, hr, le_rfl⟩, fun f hf _ => ⟨f, hf, rfl⟩⟩

theorem Later.trans {s t u : Store σ} (h : s.Later t) (h' : t.Later u) : s.Later u := by
  refine ⟨h.nextPool_le.trans h'.nextPool_le, fun hpool hr => ?_, fun g hg hissued => ?_⟩
  · obtain ⟨r', hr', hle'⟩ := h'.registry (hpool.trans_le h.nextPool_le) hr
    obtain ⟨r, hr, hle⟩ := h.registry hpool hr'
    exact ⟨r, hr, hle.trans hle'⟩
  · obtain ⟨f, hf, hgf⟩ := h'.entry g hg (hissued.later h)
    have hid : g.id = f.id := by rw [hgf]
    obtain ⟨e, he, hfe⟩ := h.entry f hf (hid ▸ hissued)
    refine ⟨e, he, ?_⟩
    rw [hgf, hfe]

/-! ## Operations -/

theorem later_setRegistry {s : Store σ} {pool : PoolId} {r old : Registry}
    (hold : s.registryOf? pool = some old) (hle : old.nextSerial ≤ r.nextSerial) :
    s.Later (s.setRegistry pool r) := by
  refine ⟨le_rfl, fun {other r'} _ hr => ?_, (Later.refl s).entry⟩
  rw [registryOf?_setRegistry] at hr
  split_ifs at hr with h
  · subst h
    rw [hold] at hr ⊢
    cases hr
    exact ⟨old, rfl, hle⟩
  · exact ⟨r', hr, le_rfl⟩

theorem later_newPool (s : Store σ) (capacity : ℕ) : s.Later (s.newPool capacity).2 := by
  refine ⟨Nat.le_succ _, fun {pool r} hpool hr => ?_, (Later.refl s).entry⟩
  have hne : pool ≠ ⟨s.nextPool⟩ := by
    rintro rfl
    exact Nat.lt_irrefl _ hpool
  rw [registryOf?_newPool, if_neg hne, Option.or_none] at hr
  exact ⟨r, hr, le_rfl⟩

theorem later_dropPool (s : Store σ) (pool : PoolId) : s.Later (s.dropPool pool).1 := by
  refine ⟨by simp, fun {other r} _ hr => ?_, fun f hf _ => ⟨f, by simpa using hf, rfl⟩⟩
  rw [registryOf?_dropPool] at hr
  split_ifs at hr
  exact ⟨r, hr, le_rfl⟩

theorem later_changeHandles (s : Store σ) (id : EntryId) (change : ℕ → ℕ) :
    s.Later (s.changeHandles id change) := by
  refine ⟨le_rfl, (Later.refl s).registry, fun f hf _ => ?_⟩
  rw [entries_changeHandles] at hf
  obtain ⟨e, he, rfl⟩ := List.mem_map.1 hf
  exact ⟨e, he, rfl⟩

theorem later_removeEntry (s : Store σ) (id : EntryId) : s.Later (s.removeEntry id) :=
  ⟨le_rfl, (Later.refl s).registry, fun f hf _ => ⟨f, (List.mem_filter.1 hf).1, rfl⟩⟩

theorem later_share (s : Store σ) (h : Handle) : s.Later (s.share h) := by
  cases h with
  | sentinel => exact Later.refl s
  | entry id => exact later_changeHandles s id _

theorem later_evict (s : Store σ) (e : Entry σ) : s.Later (s.evict e).1 := by
  unfold evict
  split
  · exact Later.refl s
  · rename_i r hr
    split
    · exact Later.refl s
    · exact later_setRegistry hr le_rfl

theorem later_release (s : Store σ) (h : Handle) : s.Later (s.release h).1 := by
  cases h with
  | sentinel => exact Later.refl s
  | entry id =>
    rw [release]
    split
    · exact Later.refl s
    · split
      · exact (later_removeEntry s id).trans (later_evict _ _)
      · exact later_changeHandles s id (· - 1)

variable [ExceptionState σ]

theorem later_promote {s : Store σ} {pool : PoolId} {staging : Staging σ} {p : Promotion σ}
    (hp : s.promote pool staging = some p) : s.Later p.store := by
  obtain ⟨r, hr, rfl⟩ := Option.map_eq_some_iff.1 hp
  split
  · exact later_setRegistry hr le_rfl
  · rw [promoteMembers]
    split
    · rename_i e _
      have hset := later_setRegistry (r := r.countPromotion.countHit) hr le_rfl
      exact hset.trans (later_share _ (.entry e.id))
    · -- The new entry takes the next serial of its pool, which had not been given away.
      have hset := later_setRegistry (r := r.countPromotion.register (setHash staging.members))
        hr (Nat.le_succ _)
      refine ⟨hset.nextPool_le, hset.registry, fun f hf hissued => ?_⟩
      rcases List.mem_append.1 hf with hf | hf
      · exact ⟨f, hf, rfl⟩
      · rw [List.mem_singleton.1 hf] at hissued
        exact absurd (hissued.2 r hr) (Nat.lt_irrefl _)

end Store

/-! ## Runs -/

section Runs

variable [ExceptionState σ]

theorem Holding.Change.later {a b : Holding σ} {events : List Event} (h : Change a events b) :
    a.store.Later b.store := by
  cases h with
  | newPool s live capacity => exact Store.later_newPool s capacity
  | dropPool s live pool => exact Store.later_dropPool s pool
  | share => exact Store.later_share _ _
  | release s live h => exact Store.later_release s h
  | promote hp => exact Store.later_promote hp
  | reorder => exact Store.Later.refl _

theorem Holding.Changes.later {a b : Holding σ} {events : List Event} (h : Changes a events b) :
    a.store.Later b.store := by
  induction h with
  | refl => exact Store.Later.refl _
  | cons first _ ih => exact first.later.trans ih

/-- Whatever a session does, its store is followed by later ones. -/
theorem Session.Leads.later [Std.TransOrd σ] {s t : Session σ} (h : s.Leads t)
    (hs : s.Consistent) : s.store.Later t.store := by
  have hboth : t.Consistent ∧ s.store.Later t.store := by
    refine h.induct (motive := fun u => u.Consistent ∧ s.store.Later u.store)
      ⟨hs, Store.Later.refl _⟩ ?_
    rintro u op v ⟨hu, hlater⟩ hstep
    have hchanges := (hu.tidy.step hstep).changes hu.tidy
    exact ⟨hu.step hstep, hlater.trans hchanges.later⟩
  exact hboth.2

end Runs

namespace Store

/-! ## What a handle shows -/

theorem members_entry {s : Store σ} {id : EntryId} {e : Entry σ} (h : s.entryAt? id = some e) :
    s.members (.entry id) = e.members := by
  simp [members, entryOf?, h]

theorem hashOf_entry {s : Store σ} {id : EntryId} {e : Entry σ} (h : s.entryAt? id = some e) :
    s.hashOf (.entry id) = e.hash := by
  simp [hashOf, entryOf?, h]

theorem flags_entry {s : Store σ} {id : EntryId} {e : Entry σ} (h : s.entryAt? id = some e) :
    s.hasLoop (.entry id) = e.hasLoop ∧ s.hasFilter (.entry id) = e.hasFilter := by
  simp [hasLoop, hasFilter, entryOf?, h]

variable [ExceptionState σ]

/-- The handle has the content of a set: its states in the same places, and its hash. These are what
`contentEq` compares. -/
inductive Shows (s : Store σ) : Handle → List σ → Prop
  | sentinel : Shows s .sentinel []
  | entry {id : EntryId} {e : Entry σ} {states : List σ} (he : s.entryAt? id = some e)
      (hne : states ≠ []) (hhash : e.hash = setHash states)
      (hsame : sameStates e.members states = true) : Shows s (.entry id) states

namespace Shows

variable {s t : Store σ} {h k : Handle} {states : List σ}

theorem sameStates_members (hs : s.Shows h states) : sameStates (s.members h) states = true := by
  cases hs with
  | sentinel => rfl
  | entry he _ _ hsame => rwa [members_entry he]

theorem hashOf_eq_setHash (hs : s.Shows h states) (hne : states ≠ []) :
    s.hashOf h = setHash states := by
  cases hs with
  | sentinel => exact absurd rfl hne
  | entry he _ hhash => rw [hashOf_entry he, hhash]

theorem hashOf_eq (hs : s.Shows h states) (ht : t.Shows k states) : s.hashOf h = t.hashOf k := by
  cases hs with
  | sentinel =>
    cases ht with
    | sentinel => rfl
    | entry _ hne => exact absurd rfl hne
  | entry he hne hhash =>
    cases ht with
    | sentinel => exact absurd rfl hne
    | entry hf _ hhash' => rw [hashOf_entry he, hashOf_entry hf, hhash, hhash']

theorem size_eq (hs : s.Shows h states) : s.size h = states.length :=
  length_eq_of_sameStates hs.sameStates_members

variable [Std.TransOrd σ]

/-- Handles that show one set have the same states in the same places. -/
theorem sameStates_members_members (hs : s.Shows h states) (ht : t.Shows k states) :
    sameStates (s.members h) (t.members k) = true :=
  sameStates_trans hs.sameStates_members (sameStates_symm ht.sameStates_members)

theorem contentEq (hh : s.Shows h states) (hk : s.Shows k states) : s.contentEq h k = true := by
  simp [Store.contentEq, hh.hashOf_eq hk, hh.sameStates_members_members hk]

theorem compare_eq (hh : s.Shows h states) (hk : s.Shows k states) : s.compare h k = .eq := by
  have hsame := compare_eq_iff_sameStates.2 (hh.sameStates_members_members hk)
  have hsize : s.size h = s.size k := hh.size_eq.trans hk.size_eq.symm
  cases hh with
  | sentinel =>
    cases hk with
    | sentinel => rfl
    | entry _ hne => exact absurd rfl hne
  | @entry i _ _ _ hne =>
    cases hk with
    | sentinel => exact absurd rfl hne
    | @entry j =>
      show (if i = j then Ordering.eq else _) = .eq
      rw [hsame, hsize, Std.ReflOrd.compare_self]
      split <;> rfl

/-- If equal states have the same hash, sets with equal states in the same places are shown by the
same handles. -/
theorem congr_of_stateHash (hhash : ∀ a b : σ, Ord.compare a b = .eq → stateHash a = stateHash b)
    {states' : List σ} (hs : s.Shows h states) (hsame : sameStates states states' = true) :
    s.Shows h states' := by
  cases hs with
  | sentinel =>
    cases states' with
    | nil => exact .sentinel
    | cons => cases hsame
  | entry he hne hentry hmembers =>
    refine .entry he ?_ (hentry.trans (setHash_eq_of_sameStates hhash hsame))
      (sameStates_trans hmembers hsame)
    rintro rfl
    exact hne (List.length_eq_zero_iff.1 (length_eq_of_sameStates hsame))

theorem congr [CongruentState σ] {states' : List σ} (hs : s.Shows h states)
    (hsame : sameStates states states' = true) : s.Shows h states' :=
  congr_of_stateHash (fun _ _ => CongruentState.stateHash_eq) hs hsame

end Shows

namespace Consistent

variable {s t : Store σ} {live live' : List Handle}

theorem issued (h : s.Consistent live) {e : Entry σ} (he : e ∈ s.entries) : s.Issued e.id :=
  ⟨h.id_lt e he, fun _ hr => (h.lists hr).serial_lt e he rfl⟩

/-- A live handle to an entry has states. -/
theorem members_ne_nil (h : s.Consistent live) {id : EntryId} (hid : Handle.entry id ∈ live) :
    s.members (.entry id) ≠ [] := by
  obtain ⟨e, he, -, hentry⟩ := h.exists_entry hid
  obtain ⟨log, hlog⟩ := h.made e he
  rw [members_entry hentry]
  exact hlog.members_ne_nil

/-- A live handle shows its own states. -/
theorem shows_members [Std.ReflOrd σ] (h : s.Consistent live) {x : Handle} (hx : x ∈ live) :
    s.Shows x (s.members x) := by
  cases x with
  | sentinel => exact .sentinel
  | entry id =>
    have hne := h.members_ne_nil hx
    obtain ⟨e, he, -, hentry⟩ := h.exists_entry hx
    obtain ⟨log, hlog⟩ := h.made e he
    rw [members_entry hentry] at hne ⊢
    exact .entry hentry hne hlog.hash (sameStates_refl _)

/-- A live handle to an entry shows exactly the sets with its hash and equal states. -/
theorem shows_entry_iff (h : s.Consistent live) {id : EntryId} (hid : Handle.entry id ∈ live)
    {states : List σ} : s.Shows (.entry id) states ↔
      s.hashOf (.entry id) = setHash states ∧ sameStates (s.members (.entry id)) states = true := by
  have hne (hsame : sameStates (s.members (.entry id)) states = true) : states ≠ [] := by
    rintro rfl
    exact h.members_ne_nil hid (List.length_eq_zero_iff.1 (length_eq_of_sameStates hsame))
  constructor
  · intro hs
    have hsame := hs.sameStates_members
    exact ⟨hs.hashOf_eq_setHash (hne hsame), hsame⟩
  · rintro ⟨hhash, hsame⟩
    obtain ⟨e, -, -, hentry⟩ := h.exists_entry hid
    refine .entry hentry (hne hsame) ?_ ?_
    · rwa [hashOf_entry hentry] at hhash
    · rwa [members_entry hentry] at hsame

/-- As long as a handle is alive, nothing about its entry changes but the count. -/
theorem entryOf?_later (h : s.Consistent live) (hst : s.Later t) (ht : t.Consistent live')
    {x : Handle} (hx : x ∈ live) (hx' : x ∈ live') :
    t.entryOf? x = (s.entryOf? x).map fun e => { e with handles := t.refCount x } := by
  cases x with
  | sentinel => rfl
  | entry id =>
    obtain ⟨e, he, hid, hentry⟩ := h.exists_entry hx
    obtain ⟨f, hf, hfid, hfentry⟩ := ht.exists_entry hx'
    have hissued : s.Issued f.id := by
      rw [hfid, ← hid]
      exact h.issued he
    obtain ⟨e', he', hfe⟩ := hst.entry f hf hissued
    have hide : e'.id = e.id := by
      rw [hid, ← hfid, hfe]
    obtain rfl := List.inj_on_of_nodup_map h.ids he' he hide
    rw [refCount, entryOf?, hfentry, entryOf?, hentry]
    exact congrArg some hfe

/-- A handle shows a set as long as it is alive. -/
theorem shows_later (h : s.Consistent live) (hst : s.Later t) (ht : t.Consistent live')
    {x : Handle} {states : List σ} (hx : x ∈ live') (hshows : s.Shows x states) :
    t.Shows x states := by
  cases hshows with
  | sentinel => exact .sentinel
  | @entry id e _ he hne hhash hsame =>
    have hlive : Handle.entry id ∈ live := (h.held id).2 ⟨e, mem_of_entryAt?_eq_some he⟩
    have hlater := h.entryOf?_later hst ht hlive hx
    rw [entryOf?, entryOf?, he] at hlater
    exact .entry hlater hne hhash hsame

variable [Std.TransOrd σ] {pool : PoolId} {log : List σ} {p : Promotion σ}

/-- The handle of a promotion shows the set that was promoted. -/
theorem shows_promote (h : s.Consistent live) (hp : s.promote pool (.ofList log) = some p) :
    p.store.Shows p.handle (Staging.ofList log).members := by
  have hconsistent := h.promote hp
  have hlater := later_promote hp
  obtain ⟨r, hr, ⟨rfl, rfl⟩ | ⟨hlog, ⟨e, he, -, hhash, hsame, rfl⟩ | ⟨-, rfl⟩⟩⟩ :=
    h.promote_cases hp
  · exact .sentinel
  · have hentry : s.entryAt? e.id = some e := (entryAt?_eq_some_iff h.ids).2 ⟨he, rfl⟩
    have hne := fun hnil => hlog (Staging.members_ofList_eq_nil_iff.1 hnil)
    exact h.shows_later hlater hconsistent List.mem_cons_self (.entry hentry hne hhash hsame)
  · refine .entry ((entryAt?_eq_some_iff hconsistent.ids).2
      ⟨List.mem_append_right _ (List.mem_singleton_self _), rfl⟩) ?_ rfl (sameStates_refl _)
    exact fun hnil => hlog (Staging.members_ofList_eq_nil_iff.1 hnil)

/-- A promotion of a set that a handle of the pool shows is a hit: it gives that handle and makes no
entry. -/
theorem promote_of_shows (h : s.Consistent live) (hp : s.promote pool (.ofList log) = some p)
    {x : Handle} (hshows : s.Shows x (Staging.ofList log).members)
    (hpool : x.belongsTo pool = true) :
    p.handle = x ∧ (∀ id, x = .entry id → p.events = [.reused id (s.hashOf x)]) ∧
      ∀ other, (p.store.registryOf? other).map (·.stats.inserts) =
        (s.registryOf? other).map (·.stats.inserts) := by
  obtain ⟨r, hr, ⟨rfl, rfl⟩ | ⟨hlog, hcases⟩⟩ := h.promote_cases hp
  · cases hshows with
    | sentinel =>
      exact ⟨rfl, fun _ heq => Handle.noConfusion heq, map_registryOf?_setRegistry hr rfl⟩
    | entry _ hne => exact absurd rfl hne
  · generalize hmembers : (Staging.ofList log).members = members at hshows hcases
    cases hshows with
    | sentinel => exact absurd (Staging.members_ofList_eq_nil_iff.1 hmembers) hlog
    | @entry id e _ he hne hhash hsame =>
      obtain ⟨hemem, rfl⟩ := mem_of_entryAt?_eq_some he
      have hepool : e.id.pool = pool := of_decide_eq_true hpool
      rcases hcases with ⟨f, hf, hfpool, hfhash, hfsame, rfl⟩ | ⟨hnew, -⟩
      · have hid : f.id = e.id := h.unique f hf e hemem (hfpool.trans hepool.symm)
          (hfhash.trans hhash.symm) (sameStates_trans hfsame (sameStates_symm hsame))
        obtain rfl := List.inj_on_of_nodup_map h.ids hf hemem hid
        refine ⟨rfl, fun id heq => ?_, fun other => ?_⟩
        · rw [hashOf_entry he, ← Handle.entry.inj heq]
          rfl
        · rw [promoteFound, registryOf?_share]
          exact map_registryOf?_setRegistry (r := r.countPromotion.countHit) hr rfl other
      · rw [hnew e hemem hepool hhash] at hsame
        cases hsame

end Consistent

end Store

/-! ## Promotions of a session -/

namespace Session

theorem handles_putHandle (s : Session σ) (name : String) (h : Handle) :
    (s.putHandle name h).1.handles = s.handles.put name h := by
  unfold putHandle
  split <;> rfl

variable [ExceptionState σ] {s : Session σ} {pool staging name : String} {id : PoolId}
  {set : Staging σ}

/-- A promotion under names is one of the pool and the set that have them. -/
theorem step_promote (hpool : s.pools.get? pool = some id)
    (hset : s.stagings.get? staging = some set) (name : String) :
    s.step (.promote pool staging name) =
      { s with stagings := s.stagings.erase staging }.promote id set name := by
  simp [step, hpool, hset]

/-- Promoting a set in a pool that has a name succeeds. -/
theorem Consistent.exists_promotion (hs : s.Consistent) (hpool : s.pools.get? pool = some id)
    (set : Staging σ) : ∃ p, s.store.promote id set = some p := by
  have hsome := (hs.pools.isSome_iff id).2 (NameMap.mem_values_of_get? hpool)
  obtain ⟨r, hr⟩ := Option.isSome_iff_exists.1 hsome
  exact ⟨_, Option.map_eq_some_iff.2 ⟨r, hr, rfl⟩⟩

variable [Std.TransOrd σ]

/-- A handle that is placed under a name still shows its set after the old one is released. -/
theorem shows_putHandle (hs : s.handles.Ordered) {h : Handle}
    (hstore : s.store.Consistent (h :: s.handles.values)) {states : List σ}
    (hshows : s.store.Shows h states) (name : String) :
    (s.putHandle name h).1.store.Shows h states := by
  have hchanges := putHandle_changes hs name h
  refine hstore.shows_later hchanges.later (hchanges.consistent hstore) ?_ hshows
  apply NameMap.mem_values_of_get?
  rw [handles_putHandle, NameMap.get?_put_self]

/-- After a promotion its name has the handle, which shows the set that was promoted. -/
theorem Consistent.promote_shows (hs : s.Consistent) {log : List σ} {p : Promotion σ}
    (hp : s.store.promote id (.ofList log) = some p) {m : NameMap (Staging σ)}
    {t : Session σ × List Event}
    (ht : { s with stagings := m }.promote id (.ofList log) name = some t) :
    t.1.handles.get? name = some p.handle ∧
      t.1.store.Shows p.handle (Staging.ofList log).members := by
  obtain ⟨p', hp', rfl⟩ := promote_eq_some_iff.1 ht
  obtain rfl : p = p' := Option.some.inj (hp.symm.trans hp')
  have hstore : s.store.Consistent s.handles.values := hs.store
  refine ⟨?_, shows_putHandle (s := { s with stagings := m, store := p.store }) hs.tidy.handles
    (hstore.promote hp) (hstore.shows_promote hp) name⟩
  rw [handles_putHandle, NameMap.get?_put_self]

/-- Promoting a named set in a named pool gives a name to a handle that shows the set. -/
theorem Consistent.exists_step_promote (hs : s.Consistent) (hpool : s.pools.get? pool = some id)
    {log : List σ} (hset : s.stagings.get? staging = some (.ofList log)) (name : String) :
    ∃ p t, s.store.promote id (.ofList log) = some p ∧
      s.step (.promote pool staging name) = some t ∧ t.1.Consistent ∧
      t.1.handles.get? name = some p.handle ∧
      t.1.store.Shows p.handle (Staging.ofList log).members := by
  obtain ⟨p, hp⟩ := hs.exists_promotion hpool (.ofList log)
  obtain ⟨t, ht⟩ : ∃ t, s.step (.promote pool staging name) = some t := by
    rw [step_promote hpool hset]
    exact ⟨_, promote_eq_some_iff.2 ⟨p, hp, rfl⟩⟩
  have ht' := ht
  rw [step_promote hpool hset] at ht'
  exact ⟨p, t, hp, ht, hs.step ht, hs.promote_shows hp ht'⟩

end Session

end PathIdentity
