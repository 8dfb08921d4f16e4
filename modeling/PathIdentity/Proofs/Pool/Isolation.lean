import Mathlib.Logic.Function.Basic
import PathIdentity.Pool.Handle
import PathIdentity.Proofs.Pool.Mirror

/-!
# Pools are isolated

Some clients take turns in a session (`Session.play`), each with pools, staging sets and handles of
its own. In its turn a client performs an operation or asks what a pool, a staging set or a handle
shows and how two handles are related (`Query`). An operation answers with its events; the numbers
of pools, which depend on who made a pool first, show nowhere.

Whatever the order of the turns, every client gets the answers that it gets when it is alone, and
leaves its pools as it leaves them when it is alone (`Session.clients_isolated`).
-/

namespace PathIdentity

variable {σ : Type}

/-! ## Turns -/

/-- What can be asked about a session. -/
inductive Query where
  | pool (name : String)
  | owns (pool handle : String)
  | staging (name : String)
  | handle (name : String)
  | relate (a b : String)

/-- What a handle shows. -/
structure HandleInfo (σ : Type) where
  isSentinel : Bool
  serial? : Option ℕ
  refCount : ℕ
  size : ℕ
  members : List σ
  hash : UInt64
  hasLoop : Bool
  hasFilter : Bool

/-- An answer. -/
inductive Answer (σ : Type) where
  | done (events : List Event)
  | pool (registry : Registry)
  | owns (answer : Bool)
  | staging (set : Staging σ)
  | handle (info : HandleInfo σ)
  | relation (order : Ordering) (eq contentEq samePool : Bool)

/-- What a client does in its turn. -/
inductive Action (σ : Type) where
  | operate (op : Operation σ)
  | ask (query : Query)

/-- Whether a query names only what an owner has. -/
def Query.Within (own : Slot → Prop) : Query → Prop
  | .pool name => own (.pool name)
  | .owns p h => own (.pool p) ∧ own (.handle h)
  | .staging name => own (.staging name)
  | .handle name => own (.handle name)
  | .relate a b => own (.handle a) ∧ own (.handle b)

/-- Whether an action names only what an owner has. -/
def Action.Within (own : Slot → Prop) : Action σ → Prop
  | .operate op => op.Within own
  | .ask query => query.Within own

theorem Action.Within.mono {own own' : Slot → Prop} {action : Action σ}
    (h : action.Within own) (hown : ∀ slot, own slot → own' slot) : action.Within own' := by
  cases action with
  | operate op => exact Operation.Within.mono h hown
  | ask query =>
    cases query with
    | pool | staging | handle => exact hown _ h
    | owns | relate => exact ⟨hown _ h.1, hown _ h.2⟩

/-- What a handle shows in a store. -/
def Store.info (s : Store σ) (h : Handle) : HandleInfo σ where
  isSentinel := h.isSentinel
  serial? := h.serial?
  refCount := s.refCount h
  size := s.size h
  members := s.members h
  hash := s.hashOf h
  hasLoop := s.hasLoop h
  hasFilter := s.hasFilter h

namespace Session

variable [ExceptionState σ]

/-- The answer to a query; there is none if a name is not in use. -/
def ask (s : Session σ) : Query → Option (Answer σ)
  | .pool name => do
    let id ← s.pools.get? name
    let r ← s.store.registryOf? id
    return .pool r
  | .owns pool handle => do
    let id ← s.pools.get? pool
    let h ← s.handles.get? handle
    return .owns (h.belongsTo id)
  | .staging name => do
    let set ← s.stagings.get? name
    return .staging set
  | .handle name => do
    let h ← s.handles.get? name
    return .handle (s.store.info h)
  | .relate a b => do
    let x ← s.handles.get? a
    let y ← s.handles.get? b
    return .relation (s.store.compare x y) (x = y) (s.store.contentEq x y) (x.samePool y)

/-- The session after an action, and the answer. -/
def act (s : Session σ) : Action σ → Option (Session σ × Answer σ)
  | .operate op => do
    let (t, events) ← s.step op
    return (t, .done (events.map Event.unpooled))
  | .ask query => do
    let answer ← s.ask query
    return (s, answer)

/-- The session after some actions, and the answers in order. -/
def play (s : Session σ) : List (Action σ) → Option (Session σ × List (Answer σ))
  | [] => some (s, [])
  | action :: rest => do
    let (s, answer) ← s.act action
    let (s, answers) ← s.play rest
    return (s, answer :: answers)

end Session

/-- What belongs to the turns of a client. -/
def turns {ι α : Type} [DecidableEq ι] (i : ι) (l : List (ι × α)) : List α :=
  (l.filter (·.1 = i)).map (·.2)

theorem turns_cons {ι α : Type} [DecidableEq ι] (i j : ι) (a : α) (l : List (ι × α)) :
    turns i ((j, a) :: l) = if j = i then a :: turns i l else turns i l := by
  by_cases h : j = i <;> simp [turns, h]

theorem optionRel_bind_eq {α β γ : Type} {r : α → β → Prop} {x : Option α} {y : Option β}
    {f : α → Option γ} {g : β → Option γ} (h : Option.Rel r x y)
    (hfg : ∀ a b, r a b → g b = f a) : y >>= g = x >>= f := by
  cases h with
  | some h => exact hfg _ _ h
  | none => rfl

/-! ## Answers -/

theorem Store.info_congr {r : PoolId → PoolId → Prop} {s t : Store σ} (h : s.Mirrors r t)
    {x y : Handle} (hxy : x.Mirrors r y) : t.info y = s.info x := by
  cases hxy with
  | sentinel => rfl
  | @entry p q hpq serial =>
    have hentry := Store.map_entryAt?_of_view (h.view hpq) serial
    cases hs : s.entryAt? ⟨p, serial⟩ with
    | none =>
      rw [hs, Option.map_none, Option.map_eq_none_iff] at hentry
      simp [info, refCount, size, members, hashOf, Store.hasLoop, Store.hasFilter, entryOf?, hs,
        hentry, Handle.isSentinel, Handle.serial?]
    | some e =>
      rw [hs, Option.map_some, Option.map_eq_some_iff] at hentry
      obtain ⟨f, ht, hef⟩ := hentry
      obtain ⟨hserial, hmembers, hhash, hloop, hfilter, hhandles⟩ := Entry.unpooled_eq_iff.1 hef
      simp [info, refCount, size, members, hashOf, Store.hasLoop, Store.hasFilter, entryOf?, hs,
        ht, Handle.isSentinel, Handle.serial?, hmembers, hhash, hloop, hfilter, hhandles]

namespace Session

variable {own : Slot → Prop} {r : PoolId → PoolId → Prop} {s t : Session σ}

namespace Mirrors

theorem map_view_get? (h : Mirrors own r s t) {name : String} (hname : own (.pool name)) :
    (t.pools.get? name).map t.store.view = (s.pools.get? name).map s.store.view := by
  obtain ⟨hs, ht⟩ | ⟨p, q, hs, ht, hpq⟩ := optionRel_iff.1 (h.pools.related name hname)
  · rw [hs, ht]
    rfl
  · rw [hs, ht, Option.map_some, Option.map_some, h.store.view hpq]

theorem belongsTo_eq (h : Mirrors own r s t) {p q : PoolId} (hpq : r p q) {x y : Handle}
    (hxy : x.Mirrors r y) : y.belongsTo q = x.belongsTo p := by
  cases hxy with
  | sentinel => rfl
  | entry hpq' serial => simp [Handle.belongsTo, h.store.eq_iff hpq' hpq]

variable [ExceptionState σ]

/-- Two handles are related as those that mirror them. -/
theorem relation_eq (h : Mirrors own r s t) {x y x' y' : Handle} (hx : x.Mirrors r x')
    (hy : y.Mirrors r y') :
    t.store.compare x' y' = s.store.compare x y ∧ (x' = y' ↔ x = y) ∧
      t.store.contentEq x' y' = s.store.contentEq x y ∧ x'.samePool y' = x.samePool y := by
  have hinfo := Store.info_congr h.store hx
  have hinfo' := Store.info_congr h.store hy
  simp only [Store.info, HandleInfo.mk.injEq] at hinfo hinfo'
  obtain ⟨-, -, -, hsize, hmembers, hhash, -⟩ := hinfo
  obtain ⟨-, -, -, hsize', hmembers', hhash', -⟩ := hinfo'
  have hcontent : t.store.contentEq x' y' = s.store.contentEq x y := by
    rw [Store.contentEq, Store.contentEq, hmembers, hhash, hmembers', hhash']
  cases hx with
  | sentinel =>
    cases hy with
    | sentinel => exact ⟨rfl, Iff.rfl, hcontent, rfl⟩
    | entry hpq serial => exact ⟨rfl, by simp, hcontent, rfl⟩
  | @entry p q hpq serial =>
    cases hy with
    | sentinel => exact ⟨rfl, by simp, hcontent, rfl⟩
    | @entry p' q' hpq' serial' =>
      have heq := h.store.eq_iff hpq hpq'
      refine ⟨?_, by simp [heq], hcontent, by simp [Handle.samePool, heq]⟩
      simp only [Store.compare, EntryId.mk.injEq, hsize, hsize', hmembers, hmembers', heq]

theorem ask (h : Mirrors own r s t) {query : Query} (hquery : query.Within own) :
    t.ask query = s.ask query := by
  cases query with
  | pool name =>
    refine optionRel_bind_eq (h.pools.related name hquery) fun p q hpq => ?_
    rw [Store.registryOf?_of_view (h.store.view hpq)]
  | owns pool handle =>
    refine optionRel_bind_eq (h.pools.related pool hquery.1) fun p q hpq => ?_
    refine optionRel_bind_eq (h.handles.related handle hquery.2) fun x y hxy => ?_
    rw [h.belongsTo_eq hpq hxy]
  | staging name =>
    refine optionRel_bind_eq (h.stagings.related name hquery) fun _ _ hset => ?_
    rw [hset]
  | handle name =>
    refine optionRel_bind_eq (h.handles.related name hquery) fun x y hxy => ?_
    rw [Store.info_congr h.store hxy]
  | relate a b =>
    refine optionRel_bind_eq (h.handles.related a hquery.1) fun x x' hx => ?_
    refine optionRel_bind_eq (h.handles.related b hquery.2) fun y y' hy => ?_
    obtain ⟨hcompare, heq, hcontent, hpool⟩ := h.relation_eq hx hy
    simp only [hcompare, heq, hcontent, hpool]

end Mirrors

/-! ## A client among others -/

variable [ExceptionState σ]

theorem Mirrored.act (h : Mirrored own s t) {action : Action σ} (haction : action.Within own) :
    Option.Rel (fun a b => Mirrored own a.1 b.1 ∧ b.2 = a.2) (s.act action) (t.act action) := by
  obtain ⟨r, h⟩ := h
  cases action with
  | operate op =>
    refine optionRel_bind (h.step haction) fun a b hab => .some ⟨hab.1, ?_⟩
    exact congrArg Answer.done hab.2
  | ask query =>
    rw [Session.act, Session.act, h.ask haction]
    cases s.ask query with
    | none => exact .none
    | some answer => exact .some ⟨⟨r, h⟩, rfl⟩

theorem Mirrored.act_foreign (h : Mirrored own s t) {action : Action σ}
    (haction : action.Within fun slot => ¬ own slot) {u : Session σ × Answer σ}
    (hu : t.act action = some u) : Mirrored own s u.1 := by
  obtain ⟨r, h⟩ := h
  cases action with
  | operate op =>
    obtain ⟨v, hv, hu⟩ := Option.bind_eq_some_iff.1 hu
    cases hu
    exact ⟨r, h.step_foreign haction hv⟩
  | ask query =>
    obtain ⟨answer, -, hu⟩ := Option.bind_eq_some_iff.1 hu
    cases hu
    exact ⟨r, h⟩

theorem play_cons (s : Session σ) (action : Action σ) (rest : List (Action σ)) :
    s.play (action :: rest) = (s.act action).bind fun u =>
      (u.1.play rest).map fun v => (v.1, u.2 :: v.2) := by
  cases hact : s.act action with
  | none => simp [play, hact]
  | some u =>
    cases hplay : u.1.play rest <;> simp [play, hact, hplay]

variable {ι : Type} [DecidableEq ι] {owner : Slot → ι}

/-- The turns of each client, after the first turn of all. -/
theorem play_turns_cons {alone : ι → Session σ} {i : ι} {action : Action σ}
    {u : Session σ × Answer σ} (hu : (alone i).act action = some u) (rest : List (ι × Action σ))
    (j : ι) :
    (alone j).play (turns j ((i, action) :: rest)) =
      ((Function.update alone i u.1 j).play (turns j rest)).map fun w =>
        (w.1, if i = j then u.2 :: w.2 else w.2) := by
  by_cases hj : i = j
  · subst hj
    simp only [turns_cons, if_true, play_cons, hu, Option.bind_some, Function.update_self]
  · simp [turns_cons, hj, Function.update_of_ne (Ne.symm hj)]

/-- Every client gets in its turns what it gets when it is alone, and if a turn fails, it is one in
which the client fails when it is alone. -/
theorem play_turns {schedule : List (ι × Action σ)}
    (hown : ∀ turn ∈ schedule, turn.2.Within fun slot => owner slot = turn.1)
    {alone : ι → Session σ} {s : Session σ}
    (h : ∀ i, Mirrored (fun slot => owner slot = i) (alone i) s) :
    (s.play (schedule.map (·.2)) = none ∧ ∃ i, (alone i).play (turns i schedule) = none) ∨
      ∃ t answers, s.play (schedule.map (·.2)) = some (t, answers) ∧
        ∀ i, ∃ u, (alone i).play (turns i schedule) =
          some (u, turns i ((schedule.map (·.1)).zip answers)) ∧
          Mirrored (fun slot => owner slot = i) u t := by
  -- The sessions of all clients go along, as any of them may have the next turn.
  induction schedule generalizing alone s with
  | nil => exact Or.inr ⟨s, [], rfl, fun i => ⟨alone i, rfl, h i⟩⟩
  | cons turn rest ih =>
    obtain ⟨i, action⟩ := turn
    obtain ⟨haction, hown⟩ := List.forall_mem_cons.1 hown
    obtain ⟨hu, hv⟩ | ⟨u, v, hu, hv, hmirrored, hanswer⟩ := optionRel_iff.1 ((h i).act haction)
    · refine Or.inl ⟨?_, i, ?_⟩
      · rw [List.map_cons, play_cons, hv, Option.bind_none]
      · rw [turns_cons, if_pos rfl, play_cons, hu, Option.bind_none]
    -- Only the session of the client whose turn it is moves on.
    have hnext (j : ι) :
        Mirrored (fun slot => owner slot = j) (Function.update alone i u.1 j) v.1 := by
      by_cases hj : j = i
      · subst hj
        rw [Function.update_self]
        exact hmirrored
      · rw [Function.update_of_ne hj]
        exact (h j).act_foreign (haction.mono fun slot hi hj' => hj (hj'.symm.trans hi)) hv
    obtain ⟨hfail, j, hj⟩ | ⟨t, answers, hplay, hturns⟩ := ih hown hnext
    · refine Or.inl ⟨?_, j, ?_⟩
      · rw [List.map_cons, play_cons, hv, Option.bind_some, hfail, Option.map_none]
      · rw [play_turns_cons hu, hj, Option.map_none]
    · refine Or.inr ⟨t, v.2 :: answers, ?_, fun j => ?_⟩
      · rw [List.map_cons, play_cons, hv, Option.bind_some, hplay, Option.map_some]
      · obtain ⟨w, hw, hmirrored⟩ := hturns j
        refine ⟨w, ?_, hmirrored⟩
        rw [play_turns_cons hu, hw, Option.map_some, List.map_cons, List.zip_cons_cons, turns_cons,
          hanswer]

/-- Clients that share a session, each with pools, staging sets and handles of its own, do not
notice each other, in whatever order they take their turns: the session goes through exactly if each
client alone goes through, each gets the answers that it gets alone, and at the end its pools, and
whatever it can ask about, are as if it had been alone. -/
theorem clients_isolated {schedule : List (ι × Action σ)}
    (hown : ∀ turn ∈ schedule, turn.2.Within fun slot => owner slot = turn.1) :
    ((play {} (schedule.map (·.2))).isSome = true ↔
      ∀ i, (play {} (turns i schedule)).isSome = true) ∧
    ∀ t answers, play {} (schedule.map (·.2)) = some (t, answers) → ∀ i, ∃ u,
      play {} (turns i schedule) = some (u, turns i ((schedule.map (·.1)).zip answers)) ∧
      (∀ name, owner (.pool name) = i →
        (t.pools.get? name).map t.store.view = (u.pools.get? name).map u.store.view) ∧
      ∀ query : Query, query.Within (fun slot => owner slot = i) → t.ask query = u.ask query := by
  obtain ⟨hfail, i, hi⟩ | ⟨t, answers, hplay, hturns⟩ :=
    play_turns hown fun i => mirrored_empty fun slot => owner slot = i
  · refine ⟨iff_of_false ?_ fun hall => ?_, fun t answers hplay => ?_⟩
    · rw [hfail]
      exact Bool.false_ne_true
    · have hsome := hall i
      rw [hi] at hsome
      exact Bool.false_ne_true hsome
    · rw [hfail] at hplay
      cases hplay
  · refine ⟨iff_of_true (by rw [hplay]; rfl) fun i => ?_, fun t' answers' hplay' i => ?_⟩
    · obtain ⟨u, hu, -⟩ := hturns i
      rw [hu]
      rfl
    · rw [hplay] at hplay'
      cases hplay'
      obtain ⟨u, hu, r, hmirrors⟩ := hturns i
      exact ⟨u, hu, fun name hname => hmirrors.map_view_get? hname, fun query => hmirrors.ask⟩

/-- Whether a slot belongs to the second of two clients. -/
def secondOwns : Slot → Bool
  | .pool name => name = "q"
  | .staging name => name = "t"
  | .handle name => name = "x" || name = "y"

/-- Two clients make the same set. The second drops its pool while the set has a handle, and the
handle while the set of the first is alive. -/
def interleaved : List (Bool × Action KeyedState) :=
  [(false, .operate (.newPool "p" 0)), (true, .operate (.newPool "q" 4)),
    (true, .operate (.intern "q" [⟨1, 7, true, false⟩] "x")),
    (false, .operate (.collect "s" [⟨1, 7, true, false⟩])),
    (true, .operate (.clone "x" "y")), (false, .operate (.promote "p" "s" "a")),
    (true, .ask (.relate "x" "y")), (true, .operate (.drop "y")),
    (false, .operate (.clone "a" "b")), (true, .operate (.dropPool "q")),
    (false, .ask (.handle "b")), (true, .operate (.drop "x")), (false, .ask (.pool "p"))]

theorem isSome_play_interleaved : (play {} (interleaved.map (·.2))).isSome = true := by
  decide +kernel

theorem clients_isolated_interleaved :
    (∀ turn ∈ interleaved, turn.2.Within fun slot => secondOwns slot = turn.1) ∧
      ∃ t answers u, play {} (interleaved.map (·.2)) = some (t, answers) ∧
        play {} (turns false interleaved) =
          some (u, turns false ((interleaved.map (·.1)).zip answers)) ∧
        (t.pools.get? "p").map t.store.view = (u.pools.get? "p").map u.store.view ∧
        t.store.refCount (.entry ⟨⟨0⟩, 0⟩) = 2 ∧ t.store.entryAt? ⟨⟨1⟩, 0⟩ = none := by
  have hown : ∀ turn ∈ interleaved, turn.2.Within fun slot => secondOwns slot = turn.1 := by
    simp [interleaved, Action.Within, Operation.Within, Query.Within, secondOwns]
  have hplay := (Option.some_get isSome_play_interleaved).symm
  obtain ⟨u, hu, hpools, -⟩ := (clients_isolated hown).2 _ _ hplay false
  refine ⟨hown, _, _, u, hplay, hu, hpools "p" rfl, ?_, ?_⟩
  · decide +kernel
  · exact Option.isNone_iff_eq_none.1 (by decide +kernel)

end Session

end PathIdentity
