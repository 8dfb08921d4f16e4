import PathIdentity.Proofs.Pool.Agreement
import PathIdentity.Proofs.Pool.Content
import PathIdentity.Proofs.Pool.History

/-!
# Published sets are immutable

A live handle reads the same after any further operations, on whatever pools, staging sets and
handles, but for its count: what it reads is its entry, and an entry never changes in anything else
as long as it has a handle (`Store.Consistent.entryOf?_later`).

For the count there are books to keep. An operation clones handles (`Session.cloned`), it drops
handles (`Session.dropped`), of which one is the old handle of a name that is given another one, and
it may report that a promotion found an entry. The count of an entry goes up by the clones and the
finds and down by the drops, and it changes in no other way (`Session.Consistent.balanced_step`).
Along a run the books add up (`Session.Consistent.balanced_run`).
-/

namespace PathIdentity

open Event (serials)

variable {σ : Type}

namespace Store

/-! ## Reading -/

/-- Everything that a handle shows is the same in both stores, but for its count. -/
structure ReadsAlike (s t : Store σ) (x : Handle) : Prop where
  members : t.members x = s.members x
  size : t.size x = s.size x
  hash : t.hashOf x = s.hashOf x
  hasLoop : t.hasLoop x = s.hasLoop x
  hasFilter : t.hasFilter x = s.hasFilter x
  id : (t.entryOf? x).map (·.id) = (s.entryOf? x).map (·.id)

theorem ReadsAlike.symm {s t : Store σ} {x : Handle} (h : s.ReadsAlike t x) : t.ReadsAlike s x :=
  ⟨h.members.symm, h.size.symm, h.hash.symm, h.hasLoop.symm, h.hasFilter.symm, h.id.symm⟩

theorem ReadsAlike.trans {s t u : Store σ} {x : Handle} (h : s.ReadsAlike t x)
    (h' : t.ReadsAlike u x) : s.ReadsAlike u x :=
  ⟨h'.members.trans h.members, h'.size.trans h.size, h'.hash.trans h.hash,
    h'.hasLoop.trans h.hasLoop, h'.hasFilter.trans h.hasFilter, h'.id.trans h.id⟩

variable [ExceptionState σ]

/-- A handle that is alive in two stores, one later than the other, reads the same in them. -/
theorem Consistent.readsAlike {s t : Store σ} {live live' : List Handle} (h : s.Consistent live)
    (hst : s.Later t) (ht : t.Consistent live') {x : Handle} (hx : x ∈ live) (hx' : x ∈ live') :
    s.ReadsAlike t x := by
  have hentry := h.entryOf?_later hst ht hx hx'
  constructor <;>
    simp [members, size, hashOf, Store.hasLoop, Store.hasFilter, hentry, Function.comp_def,
      Option.any_map]

/-! ## Finds -/

section Finds

variable {pool : PoolId}

omit [ExceptionState σ] in
theorem serials_reused_dropPool (s : Store σ) (other : PoolId) :
    serials .reused pool (s.dropPool other).2 = [] := by
  unfold dropPool
  split
  · rfl
  · exact Event.serials_poolDropped _ _ _

omit [ExceptionState σ] in
theorem serials_reused_evict (s : Store σ) (e : Entry σ) :
    serials .reused pool (s.evict e).2 = [] := by
  unfold evict
  split
  · rfl
  · split
    · rfl
    · simp

omit [ExceptionState σ] in
theorem serials_reused_release (s : Store σ) (x : Handle) :
    serials .reused pool (s.release x).2 = [] := by
  cases x with
  | sentinel => rfl
  | entry id =>
    rw [release]
    split
    · rfl
    · split
      · exact serials_reused_evict _ _
      · rfl

/-- A promotion reports that it found an entry exactly if its handle is one to an entry that was
there. -/
theorem Consistent.count_reused_promote {s : Store σ} {live : List Handle}
    (h : s.Consistent live) {id : EntryId} (hid : s.Issued id) {log : List σ} {p : Promotion σ}
    (hp : s.promote pool (.ofList log) = some p) :
    (serials .reused id.pool p.events).count id.serial = [p.handle].count (.entry id) := by
  obtain ⟨r, hr, ⟨-, rfl⟩ | ⟨-, ⟨e, -, -, -, -, rfl⟩ | ⟨-, rfl⟩⟩⟩ := h.promote_cases hp
  · rfl
  · show (serials .reused id.pool [.reused e.id e.hash]).count id.serial =
      [Handle.entry e.id].count (.entry id)
    obtain ⟨p, n⟩ := id
    obtain ⟨⟨q, m⟩, -⟩ := e
    by_cases hpool : q = p <;> simp [hpool, List.count_singleton]
  · -- The new entry has a serial that had not been given away.
    show (serials .reused id.pool [.registered ⟨pool, r.nextSerial⟩ _ _ _]).count id.serial =
      [Handle.entry ⟨pool, r.nextSerial⟩].count (.entry id)
    have hne : Handle.entry id ≠ .entry ⟨pool, r.nextSerial⟩ := by
      intro heq
      cases heq
      exact Nat.lt_irrefl _ (hid.2 r hr)
    rw [List.count_singleton, if_neg (by simpa using Ne.symm hne)]
    simp

end Finds

end Store

/-! ## Clones and drops -/

namespace Session

/-- The handles that an operation clones. -/
def cloned (s : Session σ) : Operation σ → List Handle
  | .clone handle _ => (s.handles.get? handle).toList
  | _ => []

/-- The handles that an operation drops. A name that is given a handle loses its old one. -/
def dropped (s : Session σ) : Operation σ → List Handle
  | .promote _ _ handle => (s.handles.get? handle).toList
  | .intern _ _ handle => (s.handles.get? handle).toList
  | .newSentinel handle => (s.handles.get? handle).toList
  | .clone _ target => (s.handles.get? target).toList
  | .drop handle => (s.handles.get? handle).toList
  | .dropAll => s.handles.values
  | _ => []

theorem handles_putPool (s : Session σ) (name : String) (pool : PoolId) :
    (s.putPool name pool).1.handles = s.handles := by
  unfold putPool
  split <;> rfl

theorem serials_reused_putPool (s : Session σ) (name : String) (id pool : PoolId) :
    serials .reused pool (s.putPool name id).2 = [] := by
  unfold putPool
  split
  · rfl
  · exact Store.serials_reused_dropPool _ _

theorem serials_reused_putHandle (s : Session σ) (name : String) (x : Handle) (pool : PoolId) :
    serials .reused pool (s.putHandle name x).2 = [] := by
  unfold putHandle
  split
  · rfl
  · exact Store.serials_reused_release _ _

theorem serials_reused_releaseAll (store : Store σ) (handles : List Handle) (pool : PoolId) :
    serials .reused pool (releaseAll store handles).2 = [] := by
  induction handles generalizing store with
  | nil => rfl
  | cons x rest ih =>
    rw [releaseAll, Event.serials_append, Store.serials_reused_release, ih]
    rfl

/-- A name that is given a handle loses its old one. -/
theorem perm_putHandle {s : Session σ} (hs : s.handles.Ordered) (name : String) (x : Handle) :
    ((s.handles.get? name).toList ++ (s.putHandle name x).1.handles.values).Perm
      (x :: s.handles.values) := by
  rw [handles_putHandle]
  exact hs.values_put name x

/-! ## The books of an entry -/

/-- From one session to the other the count of the entry goes up by the handles to it that are
cloned and by the promotions that find it, and down by the handles that are dropped. -/
def Balanced (id : EntryId) (s t : Session σ) (events : List Event)
    (cloned dropped : List Handle) : Prop :=
  t.store.refCount (.entry id) + dropped.count (.entry id) =
    s.store.refCount (.entry id) + cloned.count (.entry id) +
      (serials .reused id.pool events).count id.serial

theorem Balanced.refl (id : EntryId) (s : Session σ) : Balanced id s s [] [] [] := rfl

theorem Balanced.trans {id : EntryId} {s t u : Session σ} {events later : List Event}
    {cloned cloned' dropped dropped' : List Handle} (h : Balanced id s t events cloned dropped)
    (h' : Balanced id t u later cloned' dropped') :
    Balanced id s u (events ++ later) (cloned ++ cloned') (dropped ++ dropped') := by
  unfold Balanced at *
  rw [List.count_append, List.count_append, Event.serials_append, List.count_append]
  omega

variable [ExceptionState σ]

/-- Counts are numbers of handles, so the books balance if the handles that an operation adds are
clones and finds. -/
theorem Consistent.balanced {s t : Session σ} (hs : s.Consistent) (ht : t.Consistent)
    {id : EntryId} {events : List Event} (added : List Handle) {cloned dropped : List Handle}
    (hperm : (dropped ++ t.handles.values).Perm (added ++ s.handles.values))
    (hadded : added.count (.entry id) =
      cloned.count (.entry id) + (serials .reused id.pool events).count id.serial) :
    Balanced id s t events cloned dropped := by
  have hstore : s.store.Consistent s.handles.values := hs.store
  have htstore : t.store.Consistent t.handles.values := ht.store
  have hcount := hperm.count_eq (.entry id)
  rw [List.count_append, List.count_append] at hcount
  rw [Balanced, hstore.refCount_eq_count, htstore.refCount_eq_count]
  omega

/-- Without a promotion all handles that are added are clones, or none to the entry. -/
theorem Consistent.balanced_of_no_finds {s t : Session σ} (hs : s.Consistent) (ht : t.Consistent)
    {id : EntryId} {events : List Event} (hfinds : serials .reused id.pool events = [])
    (added : List Handle) {cloned dropped : List Handle}
    (hperm : (dropped ++ t.handles.values).Perm (added ++ s.handles.values))
    (hadded : added.count (.entry id) = cloned.count (.entry id)) :
    Balanced id s t events cloned dropped := by
  refine hs.balanced ht added hperm ?_
  rw [hfinds, hadded]
  rfl

/-- A promotion under a name adds a handle to the entry that it found. -/
theorem Consistent.balanced_promote {s : Session σ} (hs : s.Consistent) {id : EntryId}
    (hid : s.store.Issued id) {m : NameMap (Staging σ)} {pool : PoolId} {log : List σ}
    {name : String} {t : Session σ × List Event}
    (h : { s with stagings := m }.promote pool (.ofList log) name = some t)
    (ht : t.1.Consistent) :
    Balanced id s t.1 t.2 [] (s.handles.get? name).toList := by
  have hstore : s.store.Consistent s.handles.values := hs.store
  obtain ⟨p, hp, rfl⟩ := promote_eq_some_iff.1 h
  refine hs.balanced ht [p.handle] ?_ ?_
  · exact perm_putHandle (s := { s with stagings := m, store := p.store }) hs.tidy.handles name
      p.handle
  · rw [Event.serials_append, serials_reused_putHandle, List.append_nil, List.count_nil,
      Nat.zero_add, hstore.count_reused_promote hid hp]

variable [Std.TransOrd σ]

/-- The books of an entry that was there balance over every operation. -/
theorem Consistent.balanced_step {s : Session σ} (hs : s.Consistent) {id : EntryId}
    (hid : s.store.Issued id) {op : Operation σ} {t : Session σ × List Event}
    (h : s.step op = some t) : Balanced id s t.1 t.2 (s.cloned op) (s.dropped op) := by
  have ht := hs.step h
  -- Most operations leave the handles alone.
  have hsilent (hhandles : t.1.handles = s.handles)
      (hfinds : serials .reused id.pool t.2 = []) : Balanced id s t.1 t.2 [] [] :=
    hs.balanced_of_no_finds ht hfinds [] (by rw [hhandles]) rfl
  cases op with
  | newPool pool capacity =>
    cases h
    exact hsilent (handles_putPool _ _ _) (serials_reused_putPool _ _ _ _)
  | dropPool pool =>
    obtain ⟨p, -, h⟩ := Option.bind_eq_some_iff.1 h
    cases h
    exact hsilent rfl (Store.serials_reused_dropPool _ _)
  | newStaging staging =>
    cases h
    exact hsilent rfl rfl
  | collect staging states =>
    cases h
    exact hsilent rfl rfl
  | insert staging state =>
    obtain ⟨set, -, h⟩ := Option.bind_eq_some_iff.1 h
    cases h
    exact hsilent rfl rfl
  | extend staging states =>
    obtain ⟨set, -, h⟩ := Option.bind_eq_some_iff.1 h
    cases h
    exact hsilent rfl rfl
  | clear staging =>
    obtain ⟨set, -, h⟩ := Option.bind_eq_some_iff.1 h
    cases h
    exact hsilent rfl rfl
  | take staging target =>
    obtain ⟨set, -, h⟩ := Option.bind_eq_some_iff.1 h
    cases h
    exact hsilent rfl rfl
  | takeOver staging source =>
    obtain ⟨set, -, h⟩ := Option.bind_eq_some_iff.1 h
    obtain ⟨old, -, h⟩ := Option.bind_eq_some_iff.1 h
    cases h
    exact hsilent rfl rfl
  | promote pool staging handle =>
    obtain ⟨p, -, h⟩ := Option.bind_eq_some_iff.1 h
    obtain ⟨set, hset, h⟩ := Option.bind_eq_some_iff.1 h
    obtain ⟨log, rfl⟩ := hs.tidy.stagings _ _ hset
    exact hs.balanced_promote hid h ht
  | intern pool states handle =>
    obtain ⟨p, -, h⟩ := Option.bind_eq_some_iff.1 h
    exact hs.balanced_promote (m := s.stagings) hid h ht
  | newSentinel handle =>
    cases h
    have hperm := perm_putHandle hs.tidy.handles handle .sentinel
    exact hs.balanced_of_no_finds ht (serials_reused_putHandle _ _ _ _) [.sentinel] hperm rfl
  | clone handle target =>
    obtain ⟨x, hx, h⟩ := Option.bind_eq_some_iff.1 h
    cases h
    rw [cloned, hx]
    have hperm := perm_putHandle (s := { s with store := s.store.share x }) hs.tidy.handles target x
    exact hs.balanced_of_no_finds ht (serials_reused_putHandle _ _ _ _) [x] hperm rfl
  | drop handle =>
    obtain ⟨x, hx, h⟩ := Option.bind_eq_some_iff.1 h
    cases h
    rw [dropped, hx]
    have hperm := (hs.tidy.handles.values_erase hx).symm
    exact hs.balanced_of_no_finds ht (Store.serials_reused_release _ _) [] hperm rfl
  | dropAll =>
    cases h
    have hperm : (s.handles.values ++ []).Perm s.handles.values := by rw [List.append_nil]
    exact hs.balanced_of_no_finds ht (serials_reused_releaseAll _ _ _) [] hperm rfl

/-! ## Runs -/

/-- What the operations of a run do to handles, one after another. -/
def along (effect : Session σ → Operation σ → List Handle) (s : Session σ) :
    List (Operation σ) → List Handle
  | [] => []
  | op :: ops => effect s op ++
    match s.step op with
    | none => []
    | some (t, _) => t.along effect ops

/-- The books of an entry that was there balance over every run. -/
theorem Consistent.balanced_run {s t : Session σ} (hs : s.Consistent) {id : EntryId}
    (hid : s.store.Issued id) {ops : List (Operation σ)} {events : List Event}
    (h : s.run ops = some (t, events)) :
    Balanced id s t events (s.along cloned ops) (s.along dropped ops) := by
  induction ops generalizing s events with
  | nil =>
    cases h
    exact .refl id _
  | cons op ops ih =>
    obtain ⟨u, hu, h⟩ := Option.bind_eq_some_iff.1 h
    obtain ⟨v, hv, h⟩ := Option.bind_eq_some_iff.1 h
    cases h
    have hissued := hid.later ((leads_of_step hu).later hs)
    have hrest := ih (hs.step hu) hissued hv
    rw [along, along, hu]
    exact (hs.balanced_step hid hu).trans hrest

/-- In every reachable session a clone of a handle is the same handle. After any further operations
a handle that is still alive reads as it did, whatever became of its pool, of other handles and of
sets that were promoted since. The count of its entry has gone up by one for each handle to it that
was cloned and each promotion that found it, and down by one for each that was dropped, and it has
not changed otherwise. -/
theorem published_immutable {s : Session σ} (hs : s.Reachable) :
    (∀ name x, s.handles.get? name = some x → ∀ target, ∃ t,
      s.step (.clone name target) = some t ∧ t.1.handles.get? target = some x ∧
        s.store.ReadsAlike t.1.store x) ∧
    ∀ ops t events, s.run ops = some (t, events) →
      (∀ x ∈ s.handles.values, x ∈ t.handles.values → s.store.ReadsAlike t.store x) ∧
      ∀ id, Handle.entry id ∈ s.handles.values →
        t.store.refCount (.entry id) + (s.along dropped ops).count (.entry id) =
          s.store.refCount (.entry id) + (s.along cloned ops).count (.entry id) +
            (serials .reused id.pool events).count id.serial := by
  have hcons := hs.consistent
  have hstore := hs.store
  have hreads {t : Session σ} (ht : s.Leads t) {x : Handle} (hx : x ∈ s.handles.values)
      (hx' : x ∈ t.handles.values) : s.store.ReadsAlike t.store x :=
    hstore.readsAlike (ht.later hcons) (ht.consistent hcons).store hx hx'
  refine ⟨fun name x hname target => ?_, fun ops t events hrun => ⟨fun x hx hx' => ?_, ?_⟩⟩
  · have hx := NameMap.mem_values_of_get? hname
    obtain ⟨t, ht⟩ : ∃ t, s.step (.clone name target) = some t :=
      ⟨_, Option.bind_eq_some_iff.2 ⟨x, hname, rfl⟩⟩
    have htarget : t.1.handles.get? target = some x := by
      obtain ⟨y, hy, h⟩ := Option.bind_eq_some_iff.1 ht
      cases h
      rw [handles_putHandle, NameMap.get?_put_self, ← hy, hname]
    exact ⟨t, ht, htarget, hreads (leads_of_step ht) hx (NameMap.mem_values_of_get? htarget)⟩
  · exact hreads ⟨ops, events, hrun⟩ hx hx'
  · intro id hid
    obtain ⟨e, he, rfl, -⟩ := hstore.exists_entry hid
    exact hcons.balanced_run (hstore.issued he) hrun

/-! ## A handle that outlives its pool -/

/-- After the run with collisions: the set of `"a"` is promoted again with other flags, `"a"` is
cloned, `"a"` and the clone that it had are dropped, and so is the pool. -/
def outliving : List (Operation KeyedState) :=
  [.intern "p" [⟨1, 7, true, true⟩] "f", .clone "a" "g", .drop "a", .drop "d", .dropPool "p"]

theorem isSome_run_outliving : (collided.run outliving).isSome = true := by
  decide +kernel

/-- The session that `outliving` leads to. -/
def outlived : Session KeyedState := ((collided.run outliving).get isSome_run_outliving).1

/-- The handles `"f"` and `"g"` read as `"a"` did, without a loop and without a filter, and count as
many as `"a"` and `"d"`. -/
theorem published_immutable_outlived :
    collided.Reachable ∧ ∃ events, collided.run outliving = some (outlived, events) ∧
      collided.store.ReadsAlike outlived.store (.entry ⟨⟨0⟩, 0⟩) ∧
      outlived.store.hasLoop (.entry ⟨⟨0⟩, 0⟩) = false ∧
      outlived.store.refCount (.entry ⟨⟨0⟩, 0⟩) + 2 =
        collided.store.refCount (.entry ⟨⟨0⟩, 0⟩) + 1 + 1 := by
  have hrun : collided.run outliving =
      some (outlived, ((collided.run outliving).get isSome_run_outliving).2) :=
    (Option.some_get isSome_run_outliving).symm
  have hlive : Handle.entry ⟨⟨0⟩, 0⟩ ∈ collided.handles.values := by decide +kernel
  have hlive' : Handle.entry ⟨⟨0⟩, 0⟩ ∈ outlived.handles.values := by decide +kernel
  have hloop : collided.store.hasLoop (.entry ⟨⟨0⟩, 0⟩) = false := by decide +kernel
  have hdropped : (collided.along dropped outliving).count (.entry ⟨⟨0⟩, 0⟩) = 2 := by
    decide +kernel
  have hcloned : (collided.along cloned outliving).count (.entry ⟨⟨0⟩, 0⟩) = 1 := by
    decide +kernel
  have hfound : (serials .reused ⟨0⟩
      ((collided.run outliving).get isSome_run_outliving).2).count 0 = 1 := by
    decide +kernel
  obtain ⟨hreads, hcounts⟩ := (published_immutable reachable_collided).2 outliving outlived _ hrun
  have hcount := hcounts _ hlive
  rw [hdropped, hcloned, hfound] at hcount
  have hreads := hreads _ hlive hlive'
  exact ⟨reachable_collided, _, hrun, hreads, hreads.hasLoop.trans hloop, hcount⟩

end Session

end PathIdentity
