import PathIdentity.Proofs.Pool.Change
import PathIdentity.Proofs.Pool.View

/-!
# One owner's part of a session

The names of a session may belong to several owners, of which each works with its own pools, staging
sets and handles only (`Operation.Within`). A session in which one of them works alone mirrors its
part of a session in which all of them work (`Session.Mirrors`): under its names both have the same
pools and handles, whose views are the same though their numbers are not, and no other name of the
whole session leads to one of these pools.

An operation of the owner succeeds in both sessions or in none, keeps the relation and reports the
same events (`Session.Mirrors.step`). An operation of anybody else keeps it as well, while the
session of the owner stays as it is (`Session.Mirrors.step_foreign`). No law is asked of the states.
-/

namespace PathIdentity

/-! ## Names -/

/-- A name of a session with its kind. -/
inductive Slot where
  | pool (name : String)
  | staging (name : String)
  | handle (name : String)
deriving DecidableEq

/-- Whether all names that an operation reads or fills are among those of an owner. Dropping all
handles is nobody's own operation. -/
def Operation.Within {σ : Type} (own : Slot → Prop) : Operation σ → Prop
  | newPool pool _ => own (.pool pool)
  | dropPool pool => own (.pool pool)
  | newStaging staging => own (.staging staging)
  | collect staging _ => own (.staging staging)
  | insert staging _ => own (.staging staging)
  | extend staging _ => own (.staging staging)
  | clear staging => own (.staging staging)
  | take staging target => own (.staging staging) ∧ own (.staging target)
  | takeOver staging source => own (.staging staging) ∧ own (.staging source)
  | promote pool staging handle => own (.pool pool) ∧ own (.staging staging) ∧ own (.handle handle)
  | intern pool _ handle => own (.pool pool) ∧ own (.handle handle)
  | newSentinel handle => own (.handle handle)
  | clone handle target => own (.handle handle) ∧ own (.handle target)
  | drop handle => own (.handle handle)
  | dropAll => False

theorem Operation.Within.mono {σ : Type} {own own' : Slot → Prop} {op : Operation σ}
    (h : op.Within own) (hown : ∀ slot, own slot → own' slot) : op.Within own' := by
  cases op with
  | take | takeOver | intern | clone => exact ⟨hown _ h.1, hown _ h.2⟩
  | promote => exact ⟨hown _ h.1, hown _ h.2.1, hown _ h.2.2⟩
  | dropAll => exact h.elim
  | _ => exact hown _ h

theorem optionRel_iff {α β : Type} {r : α → β → Prop} {x : Option α} {y : Option β} :
    Option.Rel r x y ↔ x = none ∧ y = none ∨ ∃ a b, x = some a ∧ y = some b ∧ r a b := by
  constructor
  · rintro (h | -)
    · exact Or.inr ⟨_, _, rfl, rfl, h⟩
    · exact Or.inl ⟨rfl, rfl⟩
  · rintro (⟨rfl, rfl⟩ | ⟨a, b, rfl, rfl, h⟩)
    · exact .none
    · exact .some h

theorem optionRel_bind {α β γ δ : Type} {r : α → β → Prop} {r' : γ → δ → Prop} {x : Option α}
    {y : Option β} {f : α → Option γ} {g : β → Option δ} (h : Option.Rel r x y)
    (hfg : ∀ a b, r a b → Option.Rel r' (f a) (g b)) : Option.Rel r' (x >>= f) (y >>= g) := by
  cases h with
  | some h => exact hfg _ _ h
  | none => exact .none

namespace NameMap

variable {α : Type} {own : String → Prop} {r r' : α → α → Prop} {foreign foreign' : α → Prop}
  {m n : NameMap α} {name : String} {a b : α}

/-- The maps have related values under the own names; the second has foreign values under others. -/
structure Mirrors (own : String → Prop) (r : α → α → Prop) (foreign : α → Prop)
    (m n : NameMap α) : Prop where
  related : ∀ name, own name → Option.Rel r (m.get? name) (n.get? name)
  others : ∀ name, ¬ own name → ∀ a, n.get? name = some a → foreign a

namespace Mirrors

theorem nil : Mirrors own r foreign [] [] where
  related _ _ := .none
  others _ _ _ h := by cases h

theorem mono (h : Mirrors own r foreign m n) (hr : ∀ a b, r a b → r' a b)
    (hforeign : ∀ a, foreign a → foreign' a) : Mirrors own r' foreign' m n where
  related name hname := by
    obtain ⟨hm, hn⟩ | ⟨a, b, hm, hn, hab⟩ := optionRel_iff.1 (h.related name hname)
    · rw [hm, hn]
      exact .none
    · rw [hm, hn]
      exact .some (hr a b hab)
  others name hname a ha := hforeign a (h.others name hname a ha)

theorem put (h : Mirrors own r foreign m n) (hname : own name) (hab : r a b) :
    Mirrors own r foreign (m.put name a) (n.put name b) where
  related other hother := by
    by_cases heq : other = name
    · rw [heq, get?_put_self, get?_put_self]
      exact .some hab
    · rw [get?_put_of_ne heq, get?_put_of_ne heq]
      exact h.related other hother
  others other hother c hc := by
    have hne : other ≠ name := fun heq => hother (heq ▸ hname)
    rw [get?_put_of_ne hne] at hc
    exact h.others other hother c hc

theorem erase (h : Mirrors own r foreign m n) (hname : own name) :
    Mirrors own r foreign (m.erase name) (n.erase name) where
  related other hother := by
    by_cases heq : other = name
    · rw [heq, get?_erase_self, get?_erase_self]
      exact .none
    · rw [get?_erase_of_ne heq, get?_erase_of_ne heq]
      exact h.related other hother
  others other hother c hc := by
    have hne : other ≠ name := fun heq => hother (heq ▸ hname)
    rw [get?_erase_of_ne hne] at hc
    exact h.others other hother c hc

theorem put_foreign (h : Mirrors own r foreign m n) (hname : ¬ own name) (hb : foreign b) :
    Mirrors own r foreign m (n.put name b) where
  related other hother := by
    have hne : other ≠ name := fun heq => hname (heq ▸ hother)
    rw [get?_put_of_ne hne]
    exact h.related other hother
  others other hother c hc := by
    by_cases heq : other = name
    · rw [heq, get?_put_self] at hc
      exact Option.some.inj hc ▸ hb
    · rw [get?_put_of_ne heq] at hc
      exact h.others other hother c hc

theorem erase_foreign (h : Mirrors own r foreign m n) (hname : ¬ own name) :
    Mirrors own r foreign m (n.erase name) where
  related other hother := by
    have hne : other ≠ name := fun heq => hname (heq ▸ hother)
    rw [get?_erase_of_ne hne]
    exact h.related other hother
  others other hother c hc := by
    by_cases heq : other = name
    · rw [heq, get?_erase_self] at hc
      cases hc
    · rw [get?_erase_of_ne heq] at hc
      exact h.others other hother c hc

end Mirrors

end NameMap

variable {σ : Type}

/-! ## Stores -/

/-- A pool, made before the pool of the number `next`, that a relation relates to no pool. -/
structure Foreign (r : PoolId → PoolId → Prop) (next : ℕ) (pool : PoolId) : Prop where
  lt : pool.number < next
  not_rel : ∀ p, ¬ r p pool

/-- A handle to an entry of a foreign pool, or the sentinel. -/
def Handle.Foreign (r : PoolId → PoolId → Prop) (next : ℕ) : Handle → Prop
  | sentinel => True
  | entry id => PathIdentity.Foreign r next id.pool

namespace Store

/-- Related pools, which have their numbers in different stores, look the same. -/
structure Mirrors (r : PoolId → PoolId → Prop) (s t : Store σ) : Prop where
  view : ∀ {p q}, r p q → t.view q = s.view p
  eq_iff : ∀ {p q p' q'}, r p q → r p' q' → (p = p' ↔ q = q')
  lt : ∀ {p q}, r p q → p.number < s.nextPool ∧ q.number < t.nextPool
  fresh_left : s.Fresh
  fresh_right : t.Fresh

/-- The relation of pools after each store has made one. -/
def relMade (r : PoolId → PoolId → Prop) (s t : Store σ) (p q : PoolId) : Prop :=
  r p q ∨ p = ⟨s.nextPool⟩ ∧ q = ⟨t.nextPool⟩

namespace Mirrors

theorem empty : Mirrors (fun _ _ => False) ({} : Store σ) {} where
  view h := h.elim
  eq_iff h := h.elim
  lt h := h.elim
  fresh_left _ _ := rfl
  fresh_right _ _ := rfl

variable {r : PoolId → PoolId → Prop} {s t s' t' : Store σ} {p q : PoolId}

/-- Related pools may change together. -/
theorem update (h : s.Mirrors r t) (hpq : r p q) (hs : OnlyAt p s s') (ht : OnlyAt q t t')
    (hview : t'.view q = s'.view p) : s'.Mirrors r t' where
  view {p' q'} hpq' := by
    by_cases hp : p' = p
    · have hq : q' = q := (h.eq_iff hpq' hpq).1 hp
      rw [hp, hq, hview]
    · have hq : q' ≠ q := fun hq => hp ((h.eq_iff hpq' hpq).2 hq)
      rw [hs.view hp, ht.view hq, h.view hpq']
  eq_iff := h.eq_iff
  lt := by
    rw [hs.nextPool, ht.nextPool]
    exact h.lt
  fresh_left := h.fresh_left.onlyAt (h.lt hpq).1 hs
  fresh_right := h.fresh_right.onlyAt (h.lt hpq).2 ht

/-- A foreign pool may change. -/
theorem update_foreign (h : s.Mirrors r t) (hq : Foreign r t.nextPool q) (ht : OnlyAt q t t') :
    s.Mirrors r t' where
  view {p' q'} hpq' := by
    have hne : q' ≠ q := fun heq => hq.not_rel p' (heq ▸ hpq')
    rw [ht.view hne, h.view hpq']
  eq_iff := h.eq_iff
  lt := by
    rw [ht.nextPool]
    exact h.lt
  fresh_left := h.fresh_left
  fresh_right := h.fresh_right.onlyAt hq.lt ht

theorem newPool (h : s.Mirrors r t) (capacity : ℕ) :
    (s.newPool capacity).2.Mirrors (relMade r s t) (t.newPool capacity).2 where
  view {p q} hpq := by
    rcases hpq with hpq | ⟨rfl, rfl⟩
    · have hlt := h.lt hpq
      rw [view_newPool_of_ne capacity (by omega), view_newPool_of_ne capacity (by omega),
        h.view hpq]
    · rw [h.fresh_left.view_newPool_self, h.fresh_right.view_newPool_self]
  eq_iff {p q p' q'} hpq hpq' := by
    rcases hpq with hpq | ⟨rfl, rfl⟩ <;> rcases hpq' with hpq' | ⟨rfl, rfl⟩
    · exact h.eq_iff hpq hpq'
    · have hlt := h.lt hpq
      constructor <;> rintro rfl <;> simp at hlt
    · have hlt := h.lt hpq'
      constructor <;> rintro rfl <;> simp at hlt
    · exact iff_of_true rfl rfl
  lt {p q} hpq := by
    show p.number < s.nextPool + 1 ∧ q.number < t.nextPool + 1
    rcases hpq with hpq | ⟨rfl, rfl⟩
    · have hlt := h.lt hpq
      omega
    · exact ⟨Nat.lt_succ_self _, Nat.lt_succ_self _⟩
  fresh_left := h.fresh_left.newPool capacity
  fresh_right := h.fresh_right.newPool capacity

theorem newPool_foreign (h : s.Mirrors r t) (capacity : ℕ) :
    s.Mirrors r (t.newPool capacity).2 where
  view {p q} hpq := by
    have hlt := h.lt hpq
    rw [view_newPool_of_ne capacity (by omega), h.view hpq]
  eq_iff := h.eq_iff
  lt {p q} hpq := by
    have hlt := h.lt hpq
    exact ⟨hlt.1, Nat.lt_succ_of_lt hlt.2⟩
  fresh_left := h.fresh_left
  fresh_right := h.fresh_right.newPool capacity

end Mirrors

end Store

/-! ## Sessions -/

theorem Foreign.newPool {r : PoolId → PoolId → Prop} {s t : Store σ} {pool : PoolId}
    (h : Foreign r t.nextPool pool) : Foreign (Store.relMade r s t) (t.nextPool + 1) pool where
  lt := Nat.lt_succ_of_lt h.lt
  not_rel p hp := by
    rcases hp with hp | ⟨-, rfl⟩
    · exact h.not_rel p hp
    · exact Nat.lt_irrefl _ h.lt

namespace Session

/-- What an owner has in a session `s` is what it has in a session `t` of many owners. -/
structure Mirrors (own : Slot → Prop) (r : PoolId → PoolId → Prop) (s t : Session σ) : Prop where
  store : s.store.Mirrors r t.store
  pools : s.pools.Mirrors (fun name => own (.pool name)) r (Foreign r t.store.nextPool) t.pools
  stagings : s.stagings.Mirrors (fun name => own (.staging name)) Eq (fun _ => True) t.stagings
  handles : s.handles.Mirrors (fun name => own (.handle name)) (Handle.Mirrors r)
    (Handle.Foreign r t.store.nextPool) t.handles

/-- The sessions mirror each other under some relation of their pools. -/
def Mirrored (own : Slot → Prop) (s t : Session σ) : Prop := ∃ r, Mirrors own r s t

theorem mirrored_empty (own : Slot → Prop) : Mirrored own ({} : Session σ) {} :=
  ⟨_, .empty, .nil, .nil, .nil⟩

/-- Sessions that mirror each other, after the same events. -/
def Alike (own : Slot → Prop) (a b : Session σ × List Event) : Prop :=
  Mirrored own a.1 b.1 ∧ b.2.map Event.unpooled = a.2.map Event.unpooled

namespace Mirrors

variable {own : Slot → Prop} {r : PoolId → PoolId → Prop} {s t : Session σ} {a b : Store σ}
  {p q : PoolId} {x y : Handle}

/-! ### Own changes -/

theorem update (h : Mirrors own r s t) (hpq : r p q) (hs : Store.OnlyAt p s.store a)
    (ht : Store.OnlyAt q t.store b) (hview : b.view q = a.view p) :
    Mirrors own r { s with store := a } { t with store := b } where
  store := h.store.update hpq hs ht hview
  pools := ht.nextPool.symm ▸ h.pools
  stagings := h.stagings
  handles := ht.nextPool.symm ▸ h.handles

theorem share (h : Mirrors own r s t) (hxy : x.Mirrors r y) :
    Mirrors own r { s with store := s.store.share x } { t with store := t.store.share y } := by
  cases hxy with
  | sentinel => exact h
  | @entry p q hpq serial =>
    refine h.update hpq (Store.onlyAt_changeHandles s.store ⟨p, serial⟩ (· + 1))
      (Store.onlyAt_changeHandles t.store ⟨q, serial⟩ (· + 1)) ?_
    simp only [Store.share, Store.view_changeHandles, if_true, h.store.view hpq]

theorem release (h : Mirrors own r s t) (hxy : x.Mirrors r y) :
    Mirrors own r { s with store := (s.store.release x).1 }
      { t with store := (t.store.release y).1 } ∧
    (t.store.release y).2.map Event.unpooled = (s.store.release x).2.map Event.unpooled := by
  cases hxy with
  | sentinel => exact ⟨h, rfl⟩
  | @entry p q hpq serial =>
    have hshown := Store.shown_release_congr (h.store.view hpq) serial
    exact ⟨h.update hpq (Store.onlyAt_release s.store ⟨p, serial⟩)
      (Store.onlyAt_release t.store ⟨q, serial⟩) (congrArg Prod.fst hshown),
      congrArg Prod.snd hshown⟩

theorem dropPool (h : Mirrors own r s t) (hpq : r p q) :
    Mirrors own r { s with store := (s.store.dropPool p).1 }
      { t with store := (t.store.dropPool q).1 } ∧
    (t.store.dropPool q).2.map Event.unpooled = (s.store.dropPool p).2.map Event.unpooled := by
  have hshown := Store.shown_dropPool_congr (h.store.view hpq)
  exact ⟨h.update hpq (Store.onlyAt_dropPool s.store p) (Store.onlyAt_dropPool t.store q)
    (congrArg Prod.fst hshown), congrArg Prod.snd hshown⟩

theorem newPool (h : Mirrors own r s t) (capacity : ℕ) :
    Mirrors own (Store.relMade r s.store t.store)
      { s with store := (s.store.newPool capacity).2 }
      { t with store := (t.store.newPool capacity).2 } where
  store := h.store.newPool capacity
  pools := h.pools.mono (fun _ _ => Or.inl) fun _ => Foreign.newPool
  stagings := h.stagings
  handles := by
    refine h.handles.mono (fun x y hxy => ?_) fun x hx => ?_
    · cases hxy with
      | sentinel => exact .sentinel
      | entry hpq serial => exact .entry (Or.inl hpq) serial
    · cases x with
      | sentinel => trivial
      | entry id => exact Foreign.newPool hx

/-! ### Own names -/

theorem putHandle (h : Mirrors own r s t) {name : String} (hname : own (.handle name))
    (hxy : x.Mirrors r y) : Alike own (s.putHandle name x) (t.putHandle name y) := by
  have hput : Mirrors own r { s with handles := s.handles.put name x }
      { t with handles := t.handles.put name y } :=
    { h with handles := h.handles.put hname hxy }
  rw [Session.putHandle, Session.putHandle]
  obtain ⟨hs, ht⟩ | ⟨old, old', hs, ht, hold⟩ := optionRel_iff.1 (h.handles.related name hname)
  · rw [hs, ht]
    exact ⟨⟨r, hput⟩, rfl⟩
  · rw [hs, ht]
    obtain ⟨hreleased, hevents⟩ := hput.release hold
    exact ⟨⟨r, hreleased⟩, hevents⟩

theorem putPool (h : Mirrors own r s t) {name : String} (hname : own (.pool name))
    (hpq : r p q) : Alike own (s.putPool name p) (t.putPool name q) := by
  have hput : Mirrors own r { s with pools := s.pools.put name p }
      { t with pools := t.pools.put name q } :=
    { h with pools := h.pools.put hname hpq }
  rw [Session.putPool, Session.putPool]
  obtain ⟨hs, ht⟩ | ⟨old, old', hs, ht, hold⟩ := optionRel_iff.1 (h.pools.related name hname)
  · rw [hs, ht]
    exact ⟨⟨r, hput⟩, rfl⟩
  · rw [hs, ht]
    obtain ⟨hdropped, hevents⟩ := hput.dropPool hold
    exact ⟨⟨r, hdropped⟩, hevents⟩

theorem putStaging (h : Mirrors own r s t) {name : String} (hname : own (.staging name))
    (set : Staging σ) : Mirrors own r (s.putStaging name set) (t.putStaging name set) :=
  { h with stagings := h.stagings.put hname rfl }

variable [ExceptionState σ]

theorem promote (h : Mirrors own r s t) (hpq : r p q) (set : Staging σ) {name : String}
    (hname : own (.handle name)) :
    Option.Rel (Alike own) (s.promote p set name) (t.promote q set name) := by
  obtain ⟨hs, ht⟩ | ⟨x, y, hs, ht, hhandle, hshown⟩ :=
    optionRel_iff.1 (Store.promote_congr hpq (h.store.view hpq) set)
  · simp only [Session.promote, hs, ht]
    exact .none
  · simp only [Session.promote, hs, ht]
    have hpromoted := h.update hpq (Store.onlyAt_promote hs) (Store.onlyAt_promote ht)
      (congrArg Prod.fst hshown)
    obtain ⟨hput, hevents⟩ := hpromoted.putHandle hname hhandle
    refine .some ⟨hput, ?_⟩
    rw [List.map_append, List.map_append, hevents]
    exact congrArg (· ++ _) (congrArg Prod.snd hshown)

/-- An own operation succeeds in both sessions, with the same events, or in none. -/
theorem step (h : Mirrors own r s t) {op : Operation σ} (hop : op.Within own) :
    Option.Rel (Alike own) (s.step op) (t.step op) := by
  cases op with
  | newPool pool capacity =>
    -- From here on the new pools are related as well.
    exact .some ((h.newPool capacity).putPool hop (Or.inr ⟨rfl, rfl⟩))
  | dropPool pool =>
    refine optionRel_bind (h.pools.related pool hop) fun p q hpq => .some ?_
    obtain ⟨hdropped, hevents⟩ := h.dropPool hpq
    exact ⟨⟨r, { hdropped with pools := hdropped.pools.erase hop }⟩, hevents⟩
  | newStaging staging => exact .some ⟨⟨r, h.putStaging hop _⟩, rfl⟩
  | collect staging states => exact .some ⟨⟨r, h.putStaging hop _⟩, rfl⟩
  | insert staging state =>
    refine optionRel_bind (h.stagings.related staging hop) fun set _ hset => .some ?_
    exact hset ▸ ⟨⟨r, h.putStaging hop _⟩, rfl⟩
  | extend staging states =>
    refine optionRel_bind (h.stagings.related staging hop) fun set _ hset => .some ?_
    exact hset ▸ ⟨⟨r, h.putStaging hop _⟩, rfl⟩
  | clear staging =>
    refine optionRel_bind (h.stagings.related staging hop) fun _ _ _ => .some ?_
    exact ⟨⟨r, h.putStaging hop _⟩, rfl⟩
  | take staging target =>
    refine optionRel_bind (h.stagings.related staging hop.1) fun set _ hset => .some ?_
    exact hset ▸ ⟨⟨r, (h.putStaging hop.1 _).putStaging hop.2 _⟩, rfl⟩
  | takeOver staging source =>
    refine optionRel_bind (h.stagings.related source hop.2) fun set _ hset => ?_
    have herased : Mirrors own r { s with stagings := s.stagings.erase source }
        { t with stagings := t.stagings.erase source } :=
      { h with stagings := h.stagings.erase hop.2 }
    refine optionRel_bind (herased.stagings.related staging hop.1) fun _ _ _ => .some ?_
    exact hset ▸ ⟨⟨r, herased.putStaging hop.1 _⟩, rfl⟩
  | promote pool staging handle =>
    refine optionRel_bind (h.pools.related pool hop.1) fun p q hpq => ?_
    refine optionRel_bind (h.stagings.related staging hop.2.1) fun set _ hset => ?_
    have herased : Mirrors own r { s with stagings := s.stagings.erase staging }
        { t with stagings := t.stagings.erase staging } :=
      { h with stagings := h.stagings.erase hop.2.1 }
    exact hset ▸ herased.promote hpq set hop.2.2
  | intern pool states handle =>
    refine optionRel_bind (h.pools.related pool hop.1) fun p q hpq => ?_
    exact h.promote hpq _ hop.2
  | newSentinel handle => exact .some (h.putHandle hop .sentinel)
  | clone handle target =>
    refine optionRel_bind (h.handles.related handle hop.1) fun x y hxy => .some ?_
    exact (h.share hxy).putHandle hop.2 hxy
  | drop handle =>
    refine optionRel_bind (h.handles.related handle hop) fun x y hxy => .some ?_
    obtain ⟨hreleased, hevents⟩ := h.release hxy
    exact ⟨⟨r, { hreleased with handles := hreleased.handles.erase hop }⟩, hevents⟩
  | dropAll => exact hop.elim

end Mirrors

/-! ### Operations of others -/

namespace Mirrors

variable {own : Slot → Prop} {r : PoolId → PoolId → Prop} {s t : Session σ} {b : Store σ}
  {q : PoolId} {y : Handle}

theorem update_foreign (h : Mirrors own r s t) (hq : Foreign r t.store.nextPool q)
    (ht : Store.OnlyAt q t.store b) : Mirrors own r s { t with store := b } where
  store := h.store.update_foreign hq ht
  pools := ht.nextPool.symm ▸ h.pools
  stagings := h.stagings
  handles := ht.nextPool.symm ▸ h.handles

theorem share_foreign (h : Mirrors own r s t) (hy : y.Foreign r t.store.nextPool) :
    Mirrors own r s { t with store := t.store.share y } := by
  cases y with
  | sentinel => exact h
  | entry id => exact h.update_foreign hy (Store.onlyAt_changeHandles t.store id (· + 1))

theorem release_foreign (h : Mirrors own r s t) (hy : y.Foreign r t.store.nextPool) :
    Mirrors own r s { t with store := (t.store.release y).1 } := by
  cases y with
  | sentinel => exact h
  | entry id => exact h.update_foreign hy (Store.onlyAt_release t.store id)

/-- The new pool is foreign. -/
theorem newPool_foreign (h : Mirrors own r s t) (capacity : ℕ) :
    Mirrors own r s { t with store := (t.store.newPool capacity).2 } ∧
      Foreign r (t.store.newPool capacity).2.nextPool (t.store.newPool capacity).1 := by
  have hgrow {q : PoolId} (hq : Foreign r t.store.nextPool q) :
      Foreign r (t.store.nextPool + 1) q := ⟨Nat.lt_succ_of_lt hq.lt, hq.not_rel⟩
  refine ⟨{ store := h.store.newPool_foreign capacity, stagings := h.stagings,
            pools := h.pools.mono (fun _ _ => id) fun _ => hgrow, handles := ?_ },
    Nat.lt_succ_self _, fun p hp => Nat.lt_irrefl _ (h.store.lt hp).2⟩
  refine h.handles.mono (fun _ _ => id) fun x hx => ?_
  cases x with
  | sentinel => trivial
  | entry id => exact hgrow hx

theorem putHandle_foreign (h : Mirrors own r s t) {name : String} (hname : ¬ own (.handle name))
    (hy : y.Foreign r t.store.nextPool) : Mirrors own r s (t.putHandle name y).1 := by
  have hput : Mirrors own r s { t with handles := t.handles.put name y } :=
    { h with handles := h.handles.put_foreign hname hy }
  rw [Session.putHandle]
  split
  · exact hput
  · rename_i old hold
    exact hput.release_foreign (h.handles.others name hname old hold)

theorem putPool_foreign (h : Mirrors own r s t) {name : String} (hname : ¬ own (.pool name))
    (hq : Foreign r t.store.nextPool q) : Mirrors own r s (t.putPool name q).1 := by
  have hput : Mirrors own r s { t with pools := t.pools.put name q } :=
    { h with pools := h.pools.put_foreign hname hq }
  rw [Session.putPool]
  split
  · exact hput
  · rename_i old hold
    exact hput.update_foreign (h.pools.others name hname old hold)
      (Store.onlyAt_dropPool t.store old)

theorem putStaging_foreign (h : Mirrors own r s t) {name : String} (hname : ¬ own (.staging name))
    (set : Staging σ) : Mirrors own r s (t.putStaging name set) :=
  { h with stagings := h.stagings.put_foreign hname trivial }

theorem eraseStaging_foreign (h : Mirrors own r s t) {name : String}
    (hname : ¬ own (.staging name)) :
    Mirrors own r s { t with stagings := t.stagings.erase name } :=
  { h with stagings := h.stagings.erase_foreign hname }

variable [ExceptionState σ]

theorem promote_foreign (h : Mirrors own r s t) (hq : Foreign r t.store.nextPool q)
    {set : Staging σ} {name : String} (hname : ¬ own (.handle name))
    {u : Session σ × List Event} (hu : t.promote q set name = some u) : Mirrors own r s u.1 := by
  obtain ⟨y, hy, rfl⟩ := promote_eq_some_iff.1 hu
  have honly := Store.onlyAt_promote hy
  refine (h.update_foreign hq honly).putHandle_foreign hname ?_
  show y.handle.Foreign r y.store.nextPool
  rw [honly.nextPool]
  obtain hhandle | ⟨serial, hhandle⟩ := Store.handle_promote hy
  · rw [hhandle]
    trivial
  · rw [hhandle]
    exact hq

/-- An operation within the names of others leaves what the owner has. -/
theorem step_foreign (h : Mirrors own r s t) {op : Operation σ}
    (hop : op.Within fun slot => ¬ own slot) {u : Session σ × List Event}
    (hu : t.step op = some u) : Mirrors own r s u.1 := by
  cases op with
  | newPool pool capacity =>
    cases hu
    obtain ⟨hmade, hnew⟩ := h.newPool_foreign capacity
    exact hmade.putPool_foreign hop hnew
  | dropPool pool =>
    obtain ⟨q, hq, hu⟩ := Option.bind_eq_some_iff.1 hu
    cases hu
    have hdropped := h.update_foreign (h.pools.others pool hop q hq)
      (Store.onlyAt_dropPool t.store q)
    exact { hdropped with pools := hdropped.pools.erase_foreign hop }
  | newStaging staging | collect staging states =>
    cases hu
    exact h.putStaging_foreign hop _
  | insert staging state | extend staging states | clear staging =>
    obtain ⟨set, hset, hu⟩ := Option.bind_eq_some_iff.1 hu
    cases hu
    exact h.putStaging_foreign hop _
  | take staging target =>
    obtain ⟨set, hset, hu⟩ := Option.bind_eq_some_iff.1 hu
    cases hu
    exact (h.putStaging_foreign hop.1 _).putStaging_foreign hop.2 _
  | takeOver staging source =>
    obtain ⟨set, hset, hu⟩ := Option.bind_eq_some_iff.1 hu
    obtain ⟨old, hold, hu⟩ := Option.bind_eq_some_iff.1 hu
    cases hu
    exact (h.eraseStaging_foreign hop.2).putStaging_foreign hop.1 _
  | promote pool staging handle =>
    obtain ⟨q, hq, hu⟩ := Option.bind_eq_some_iff.1 hu
    obtain ⟨set, hset, hu⟩ := Option.bind_eq_some_iff.1 hu
    exact (h.eraseStaging_foreign hop.2.1).promote_foreign (h.pools.others pool hop.1 q hq)
      hop.2.2 hu
  | intern pool states handle =>
    obtain ⟨q, hq, hu⟩ := Option.bind_eq_some_iff.1 hu
    exact h.promote_foreign (h.pools.others pool hop.1 q hq) hop.2 hu
  | newSentinel handle =>
    cases hu
    exact h.putHandle_foreign hop trivial
  | clone handle target =>
    obtain ⟨y, hy, hu⟩ := Option.bind_eq_some_iff.1 hu
    cases hu
    have hforeign := h.handles.others handle hop.1 y hy
    refine (h.share_foreign hforeign).putHandle_foreign hop.2 ?_
    cases y with
    | sentinel => trivial
    | entry id => exact hforeign
  | drop handle =>
    obtain ⟨y, hy, hu⟩ := Option.bind_eq_some_iff.1 hu
    cases hu
    have hreleased := h.release_foreign (h.handles.others handle hop y hy)
    exact { hreleased with handles := hreleased.handles.erase_foreign hop }
  | dropAll => exact hop.elim

end Mirrors

end Session

end PathIdentity
