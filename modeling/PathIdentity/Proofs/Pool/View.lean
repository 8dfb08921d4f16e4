import PathIdentity.Proofs.Pool.Lookup

/-!
# What a store has of a pool

The view of a pool (`Store.view`) is its registry, while the pool is in use, with its entries by
serial. It does not show the number of the pool. Each elementary change of a store changes the view
of one pool, by a function of that view, so

* an operation on one pool leaves the views of all others as they are (`Store.onlyAt_release` and
  its likes), and
* where a pool has the same view in two stores, whatever its number, the same operation leads to the
  same view again and reports the same events (`Store.shown_release_congr` and its likes).
-/

namespace PathIdentity

variable {σ : Type}

/-- An entry without the number of its pool. -/
def Entry.unpooled (e : Entry σ) : Entry σ := { e with id := ⟨⟨0⟩, e.id.serial⟩ }

theorem Entry.unpooled_eq_iff {e f : Entry σ} :
    f.unpooled = e.unpooled ↔ f.id.serial = e.id.serial ∧ f.members = e.members ∧
      f.hash = e.hash ∧ f.hasLoop = e.hasLoop ∧ f.hasFilter = e.hasFilter ∧
      f.handles = e.handles := by
  simp [unpooled]

/-- An event without the number of its pool. -/
def Event.unpooled : Event → Event
  | reused entry hash => reused ⟨⟨0⟩, entry.serial⟩ hash
  | registered entry hash size live => registered ⟨⟨0⟩, entry.serial⟩ hash size live
  | evicted entry hash live => evicted ⟨⟨0⟩, entry.serial⟩ hash live
  | poolDropped _ live stats => poolDropped ⟨0⟩ live stats

/-- Handles to entries of the same serial, in pools that a relation relates. -/
inductive Handle.Mirrors (r : PoolId → PoolId → Prop) : Handle → Handle → Prop
  | sentinel : Mirrors r .sentinel .sentinel
  | entry {p q : PoolId} (h : r p q) (serial : ℕ) :
      Mirrors r (.entry ⟨p, serial⟩) (.entry ⟨q, serial⟩)

/-- A pool without its number. -/
@[ext]
structure PoolView (σ : Type) where
  /-- The registry, while the pool is in use. -/
  registry? : Option Registry
  /-- The entry of a serial. -/
  entryAt? : ℕ → Option (Entry σ)

namespace PoolView

/-- The view of a pool that was not made yet. -/
def blank : PoolView σ := ⟨none, fun _ => none⟩

/-- The view with another registry. -/
def setRegistry (v : PoolView σ) (r : Registry) : PoolView σ :=
  { v with registry? := v.registry?.map fun _ => r }

/-- The view with the number of handles of an entry changed. -/
def changeHandles (v : PoolView σ) (serial : ℕ) (change : ℕ → ℕ) : PoolView σ :=
  let changed (e : Entry σ) : Entry σ := { e with handles := change e.handles }
  { v with entryAt? n := if n = serial then (v.entryAt? n).map changed else v.entryAt? n }

/-- The view without an entry. -/
def removeEntry (v : PoolView σ) (serial : ℕ) : PoolView σ :=
  { v with entryAt? n := if n = serial then none else v.entryAt? n }

/-- The view with an entry, unless there is one with its serial. -/
def addEntry (v : PoolView σ) (e : Entry σ) : PoolView σ :=
  { v with entryAt? n := (v.entryAt? n).or (if n = e.id.serial then some e.unpooled else none) }

end PoolView

namespace Store

/-- What there is of a pool. -/
def view (s : Store σ) (pool : PoolId) : PoolView σ where
  registry? := s.registryOf? pool
  entryAt? serial := (s.entryAt? ⟨pool, serial⟩).map Entry.unpooled

/-! ## Elementary changes -/

theorem view_setRegistry (s : Store σ) (pool other : PoolId) (r : Registry) :
    (s.setRegistry pool r).view other =
      if other = pool then (s.view other).setRegistry r else s.view other := by
  simp only [view, registryOf?_setRegistry]
  split_ifs <;> rfl

theorem view_changeHandles (s : Store σ) (id : EntryId) (change : ℕ → ℕ) (pool : PoolId) :
    (s.changeHandles id change).view pool =
      if pool = id.pool then (s.view pool).changeHandles id.serial change else s.view pool := by
  obtain ⟨own, serial⟩ := id
  ext1
  · split_ifs <;> rfl
  · funext n
    by_cases hpool : pool = own <;> by_cases hn : n = serial <;>
      simp [view, PoolView.changeHandles, entryAt?_changeHandles, hpool, hn, Entry.unpooled,
        Function.comp_def]

theorem view_removeEntry (s : Store σ) (id : EntryId) (pool : PoolId) :
    (s.removeEntry id).view pool =
      if pool = id.pool then (s.view pool).removeEntry id.serial else s.view pool := by
  obtain ⟨own, serial⟩ := id
  ext1
  · split_ifs <;> rfl
  · funext n
    by_cases hpool : pool = own <;> by_cases hn : n = serial <;>
      simp [view, PoolView.removeEntry, entryAt?_removeEntry, hpool, hn]

theorem view_insertEntry (s : Store σ) (pool other : PoolId) (r : Registry) {e : Entry σ}
    (hpool : e.id.pool = pool) :
    (s.insertEntry pool r e).view other =
      if other = pool then ((s.view other).setRegistry (r.register e.hash)).addEntry e
      else s.view other := by
  obtain ⟨⟨own, serial⟩, members, hash, hasLoop, hasFilter, handles⟩ := e
  obtain rfl : own = pool := hpool
  ext1
  · rw [view, registryOf?_insertEntry]
    split_ifs <;> rfl
  · funext n
    by_cases hother : other = own <;> by_cases hn : n = serial <;>
      simp [view, entryAt?_insertEntry, hother, hn, PoolView.addEntry, PoolView.setRegistry]

theorem view_newPool (s : Store σ) (capacity : ℕ) (pool : PoolId) :
    (s.newPool capacity).2.view pool =
      if pool = ⟨s.nextPool⟩ then
        { s.view pool with registry? := (s.registryOf? pool).or (some { capacity }) }
      else s.view pool := by
  simp only [view, registryOf?_newPool]
  split_ifs <;> simp <;> rfl

theorem view_newPool_of_ne {s : Store σ} (capacity : ℕ) {pool : PoolId}
    (hpool : pool.number ≠ s.nextPool) : (s.newPool capacity).2.view pool = s.view pool := by
  rw [view_newPool, if_neg fun heq => hpool (by rw [heq])]

theorem view_dropPool (s : Store σ) (pool other : PoolId) :
    (s.dropPool pool).1.view other =
      if other = pool then { s.view other with registry? := none } else s.view other := by
  have hentry (serial : ℕ) :
      (s.dropPool pool).1.entryAt? ⟨other, serial⟩ = s.entryAt? ⟨other, serial⟩ := by
    rw [entryAt?, entries_dropPool]
    rfl
  simp only [view, registryOf?_dropPool, hentry]
  split_ifs <;> rfl

/-! ## Other pools -/

/-- The two stores differ in one pool at most. -/
structure OnlyAt (pool : PoolId) (s t : Store σ) : Prop where
  nextPool : t.nextPool = s.nextPool
  view : ∀ {other}, other ≠ pool → t.view other = s.view other

variable {s t u : Store σ} {pool p q : PoolId}

theorem OnlyAt.refl (pool : PoolId) (s : Store σ) : OnlyAt pool s s := ⟨rfl, fun _ => rfl⟩

theorem OnlyAt.trans (h : OnlyAt pool s t) (h' : OnlyAt pool t u) : OnlyAt pool s u :=
  ⟨h'.nextPool.trans h.nextPool, fun hne => (h'.view hne).trans (h.view hne)⟩

theorem onlyAt_setRegistry (s : Store σ) (pool : PoolId) (r : Registry) :
    OnlyAt pool s (s.setRegistry pool r) :=
  ⟨rfl, fun hne => by rw [view_setRegistry, if_neg hne]⟩

theorem onlyAt_changeHandles (s : Store σ) (id : EntryId) (change : ℕ → ℕ) :
    OnlyAt id.pool s (s.changeHandles id change) :=
  ⟨rfl, fun hne => by rw [view_changeHandles, if_neg hne]⟩

theorem onlyAt_insertEntry (s : Store σ) (r : Registry) {e : Entry σ} (hpool : e.id.pool = pool) :
    OnlyAt pool s (s.insertEntry pool r e) :=
  ⟨rfl, fun hne => by rw [view_insertEntry s pool _ r hpool, if_neg hne]⟩

theorem onlyAt_dropPool (s : Store σ) (pool : PoolId) : OnlyAt pool s (s.dropPool pool).1 :=
  ⟨nextPool_dropPool s pool, fun hne => by rw [view_dropPool, if_neg hne]⟩

theorem onlyAt_evict (s : Store σ) (e : Entry σ) : OnlyAt e.id.pool s (s.evict e).1 := by
  unfold evict
  split
  · exact .refl _ s
  · split
    · exact .refl _ s
    · exact onlyAt_setRegistry s _ _

theorem onlyAt_release (s : Store σ) (id : EntryId) :
    OnlyAt id.pool s (s.release (.entry id)).1 := by
  rw [release]
  split
  · exact .refl _ s
  · rename_i e he
    obtain ⟨-, rfl⟩ := mem_of_entryAt?_eq_some he
    split
    · have hremove : OnlyAt e.id.pool s (s.removeEntry e.id) :=
        ⟨rfl, fun hne => by rw [view_removeEntry, if_neg hne]⟩
      exact hremove.trans (onlyAt_evict (s.removeEntry e.id) e)
    · exact onlyAt_changeHandles s e.id (· - 1)

theorem onlyAt_promote [ExceptionState σ] {staging : Staging σ} {x : Promotion σ}
    (hx : s.promote pool staging = some x) : OnlyAt pool s x.store := by
  obtain ⟨r, -, rfl⟩ := Option.map_eq_some_iff.1 hx
  split
  · exact onlyAt_setRegistry s pool _
  · rw [promoteMembers]
    split
    · rename_i e he
      obtain ⟨-, rfl, -⟩ := of_find?_eq_some he
      exact (onlyAt_setRegistry s _ _).trans (onlyAt_changeHandles _ e.id (· + 1))
    · exact onlyAt_insertEntry s r.countPromotion
        (e := makeEntry ⟨pool, r.nextSerial⟩ staging) rfl

theorem handle_promote [ExceptionState σ] {staging : Staging σ} {x : Promotion σ}
    (hx : s.promote pool staging = some x) :
    x.handle = .sentinel ∨ ∃ serial, x.handle = .entry ⟨pool, serial⟩ := by
  obtain ⟨r, -, rfl⟩ := Option.map_eq_some_iff.1 hx
  split
  · exact Or.inl rfl
  · rw [promoteMembers]
    split
    · rename_i e he
      obtain ⟨-, rfl, -⟩ := of_find?_eq_some he
      exact Or.inr ⟨e.id.serial, rfl⟩
    · exact Or.inr ⟨_, rfl⟩

/-! ## Pools that were not made yet -/

/-- A store shows nothing of the pools that it will make. -/
def Fresh (s : Store σ) : Prop := ∀ pool : PoolId, s.nextPool ≤ pool.number → s.view pool = .blank

theorem Fresh.onlyAt (h : s.Fresh) (hlt : pool.number < s.nextPool) (hst : OnlyAt pool s t) :
    t.Fresh := by
  intro other hother
  rw [hst.nextPool] at hother
  rw [hst.view (by rintro rfl; omega), h other hother]

theorem Fresh.newPool (h : s.Fresh) (capacity : ℕ) : (s.newPool capacity).2.Fresh := by
  intro pool hpool
  have hpool : s.nextPool + 1 ≤ pool.number := hpool
  rw [view_newPool_of_ne capacity (by omega), h pool (by omega)]

theorem Fresh.view_newPool_self (h : s.Fresh) (capacity : ℕ) :
    (s.newPool capacity).2.view ⟨s.nextPool⟩ = ⟨some { capacity }, fun _ => none⟩ := by
  have hblank := h ⟨s.nextPool⟩ (Nat.le_refl _)
  have hregistry : s.registryOf? ⟨s.nextPool⟩ = none := congrArg PoolView.registry? hblank
  rw [view_newPool, if_pos rfl, hblank, hregistry]
  rfl

/-! ## The same pool in two stores -/

theorem registryOf?_of_view (h : t.view q = s.view p) : t.registryOf? q = s.registryOf? p :=
  congrArg PoolView.registry? h

theorem map_entryAt?_of_view (h : t.view q = s.view p) (serial : ℕ) :
    (t.entryAt? ⟨q, serial⟩).map Entry.unpooled = (s.entryAt? ⟨p, serial⟩).map Entry.unpooled :=
  congrFun (congrArg PoolView.entryAt? h) serial

/-- What a change of a store shows of a pool: its view after the change, and the events. -/
def shown (pool : PoolId) (a : Store σ × List Event) : PoolView σ × List Event :=
  (a.1.view pool, a.2.map Event.unpooled)

theorem shown_dropPool_congr (h : t.view q = s.view p) :
    shown q (t.dropPool q) = shown p (s.dropPool p) := by
  refine Prod.ext ?_ ?_
  · simp only [shown, view_dropPool, if_true, h]
  · simp only [shown, dropPool, registryOf?_of_view h]
    cases s.registryOf? p <;> rfl

theorem shown_evict_congr (h : t.view q = s.view p) {e f : Entry σ} (he : e.id.pool = p)
    (hf : f.id.pool = q) (hef : f.unpooled = e.unpooled) :
    shown q (t.evict f) = shown p (s.evict e) := by
  subst he hf
  obtain ⟨hserial, -, hhash, -⟩ := Entry.unpooled_eq_iff.1 hef
  have hkeep (serial : ℕ) : (t.entryAt? ⟨f.id.pool, serial⟩).isSome =
      (s.entryAt? ⟨e.id.pool, serial⟩).isSome := by
    simpa using congrArg Option.isSome (map_entryAt?_of_view h serial)
  rw [evict, evict, registryOf?_of_view h, hhash]
  cases s.registryOf? e.id.pool with
  | none => simp [shown, h]
  | some r =>
    cases hbucket : r.buckets.get? e.hash with
    | none => simp [shown, hbucket, h]
    | some bucket => simp [shown, hbucket, view_setRegistry, h, hkeep, hserial, Event.unpooled]

theorem shown_release_congr (h : t.view q = s.view p) (serial : ℕ) :
    shown q (t.release (.entry ⟨q, serial⟩)) = shown p (s.release (.entry ⟨p, serial⟩)) := by
  have hentry := map_entryAt?_of_view h serial
  cases hs : s.entryAt? ⟨p, serial⟩ with
  | none =>
    rw [hs, Option.map_none, Option.map_eq_none_iff] at hentry
    simp [shown, release, hs, hentry, h]
  | some e =>
    rw [hs, Option.map_some, Option.map_eq_some_iff] at hentry
    obtain ⟨f, ht, hef⟩ := hentry
    obtain ⟨-, -, -, -, -, hhandles⟩ := Entry.unpooled_eq_iff.1 hef
    obtain ⟨-, he⟩ := mem_of_entryAt?_eq_some hs
    obtain ⟨-, hf⟩ := mem_of_entryAt?_eq_some ht
    by_cases hlast : e.handles ≤ 1
    · rw [release_of_last hs hlast, release_of_last ht (hhandles ▸ hlast)]
      refine shown_evict_congr ?_ (by rw [he]) (by rw [hf]) hef
      simp only [view_removeEntry, if_true, h]
    · have hshared : 1 < e.handles := by omega
      rw [release_of_shared hs hshared, release_of_shared ht (hhandles ▸ hshared)]
      simp only [shown, view_changeHandles, if_true, h]

variable [ExceptionState σ]

theorem map_find?_of_view (h : t.view q = s.view p) (r : Registry) (hash : UInt64)
    (members : List σ) : (t.find? q r hash members).map Entry.unpooled =
      (s.find? p r hash members).map Entry.unpooled := by
  have hfind (s : Store σ) (pool : PoolId) :
      (s.find? pool r hash members).map Entry.unpooled =
        ((r.bucket hash).filterMap (s.view pool).entryAt?).find? fun e =>
          sameStates e.members members := by
    have hview : (s.view pool).entryAt? = fun serial =>
        (s.entryAt? ⟨pool, serial⟩).map Entry.unpooled := rfl
    rw [hview, ← List.map_filterMap, List.find?_map]
    rfl
  rw [hfind, hfind, h]

/-- Promotions that give the same entry of a pool and show the same of it. -/
def PromotedAlike (r : PoolId → PoolId → Prop) (p q : PoolId) (x y : Promotion σ) : Prop :=
  x.handle.Mirrors r y.handle ∧ shown q (y.store, y.events) = shown p (x.store, x.events)

theorem promoteMembers_congr {r : PoolId → PoolId → Prop} (hpq : r p q) (h : t.view q = s.view p)
    (old : Registry) (staging : Staging σ) :
    PromotedAlike r p q (s.promoteMembers p old staging) (t.promoteMembers q old staging) := by
  have hfind := map_find?_of_view h old (setHash staging.members) staging.members
  rw [promoteMembers, promoteMembers]
  cases hs : s.find? p old (setHash staging.members) staging.members with
  | none =>
    rw [hs, Option.map_none, Option.map_eq_none_iff] at hfind
    rw [hfind]
    refine ⟨.entry hpq _, Prod.ext ?_ rfl⟩
    have hs' := view_insertEntry s p p old (e := makeEntry ⟨p, old.nextSerial⟩ staging) rfl
    have ht' := view_insertEntry t q q old (e := makeEntry ⟨q, old.nextSerial⟩ staging) rfl
    rw [if_pos rfl] at hs' ht'
    rw [h] at ht'
    exact ht'.trans hs'.symm
  | some e =>
    rw [hs, Option.map_some, Option.map_eq_some_iff] at hfind
    obtain ⟨f, ht, hef⟩ := hfind
    rw [ht]
    obtain ⟨hserial, -⟩ := Entry.unpooled_eq_iff.1 hef
    obtain ⟨-, rfl, -⟩ := of_find?_eq_some hs
    obtain ⟨-, rfl, -⟩ := of_find?_eq_some ht
    refine ⟨?_, Prod.ext ?_ ?_⟩
    · have hid : f.id = ⟨f.id.pool, e.id.serial⟩ := by rw [← hserial]
      show Handle.Mirrors r (.entry e.id) (.entry f.id)
      rw [hid]
      exact .entry hpq e.id.serial
    · simp only [share, shown, view_changeHandles, view_setRegistry, if_true, h, hserial]
    · simp [shown, Event.unpooled, hserial]

theorem promote_congr {r : PoolId → PoolId → Prop} (hpq : r p q) (h : t.view q = s.view p)
    (staging : Staging σ) :
    Option.Rel (PromotedAlike r p q) (s.promote p staging) (t.promote q staging) := by
  rw [promote, promote, registryOf?_of_view h]
  cases s.registryOf? p with
  | none => exact .none
  | some old =>
    refine .some ?_
    split
    · refine ⟨.sentinel, ?_⟩
      simp [shown, view_setRegistry, h]
    · exact promoteMembers_congr hpq h _ staging

end Store

end PathIdentity
