import PathIdentity.Proofs.Pool.Content
import Mathlib.Data.Set.Card

/-!
# Staging sets as plain insertion logs

What the staging sets of a run hold can be told from plain lists. `Operation.log` keeps a list of
states for each name: an insertion adds to the end, clearing and taking leave an empty list, and a
list that is taken or taken over moves as a whole. `Staging.Gathers set log` says how a set is read
off such a list: its members are the first ones of their classes of equal states, ascending, and its
flags look at all of the list, at states that were turned away too.

Every step takes sets that are those of the lists to sets that are those of the lists after it
(`Session.Follows.step`), so this holds along every run (`Session.stagings_refine_logs`).
-/

namespace PathIdentity

/-! ## Classes of equal states -/

section Classes

variable {σ : Type} [Ord σ]

/-- The state stands in the list before all states that are equal to it. -/
def IsFirst (log : List σ) (x : σ) : Prop :=
  ∃ before after, log = before ++ x :: after ∧ ∀ y ∈ before, compare y x ≠ .eq

/-- The states that are equal to a state. -/
def classOf (x : σ) : Set σ := {y | compare x y = .eq}

/-- The classes of equal states that a list meets. -/
def classes (log : List σ) : Set (Set σ) := classOf '' {x | x ∈ log}

theorem isFirst_append_singleton_iff {log : List σ} {state x : σ} :
    IsFirst (log ++ [state]) x ↔
      IsFirst log x ∨ x = state ∧ ∀ y ∈ log, compare y state ≠ .eq := by
  constructor
  · rintro ⟨before, after, heq, hbefore⟩
    cases after using List.reverseRecOn with
    | nil =>
      obtain ⟨rfl, hx⟩ := List.append_inj' heq rfl
      obtain rfl : state = x := (List.cons.inj hx).1
      exact Or.inr ⟨rfl, hbefore⟩
    | append_singleton after last =>
      rw [← List.cons_append, ← List.append_assoc] at heq
      obtain ⟨rfl, -⟩ := List.append_inj' heq rfl
      exact Or.inl ⟨before, after, rfl, hbefore⟩
  · rintro (⟨before, after, rfl, hbefore⟩ | ⟨rfl, hlog⟩)
    · exact ⟨before, after ++ [state], by simp, hbefore⟩
    · exact ⟨log, [], rfl, hlog⟩

/-- An insertion into an ascending list adds the state if none is equal to it, and nothing else. -/
theorem mem_insertState_iff [Std.TransOrd σ] {states : List σ} (h : Ascending states)
    {state x : σ} : x ∈ insertState state states ↔
      x ∈ states ∨ x = state ∧ ∀ y ∈ states, compare y state ≠ .eq := by
  induction states with
  | nil => simp [insertState]
  | cons other rest ih =>
    obtain ⟨hother, hrest⟩ := List.pairwise_cons.1 h
    rw [insertState]
    split
    · -- The state is below the first one, and so below all.
      rename_i hlt
      have hne : ∀ y ∈ other :: rest, compare y state ≠ .eq := fun y hy heq =>
        h.ne_of_lt_head hlt y hy (Std.OrientedCmp.eq_symm heq)
      rw [List.mem_cons, or_comm, and_iff_left hne]
    · rename_i heq
      have hnot : ¬ ∀ y ∈ other :: rest, compare y state ≠ .eq := fun hne =>
        hne other List.mem_cons_self (Std.OrientedCmp.eq_symm heq)
      rw [iff_self_or]
      exact fun hx => absurd hx.2 hnot
    · rename_i hgt
      have hne : compare other state ≠ .eq := by
        rw [Std.OrientedCmp.lt_of_gt hgt]
        exact Ordering.noConfusion
      rw [List.mem_cons, ih hrest, List.forall_mem_cons, and_iff_right hne, List.mem_cons, or_assoc]

variable [Std.TransOrd σ]

theorem classOf_eq_of_compare {x y : σ} (h : compare x y = .eq) : classOf x = classOf y := by
  ext z
  exact ⟨fun hz => Std.TransCmp.eq_trans (Std.OrientedCmp.eq_symm h) hz, Std.TransCmp.eq_trans h⟩

/-- An ascending list has one state of each class. -/
theorem Ascending.length_eq_ncard_classes {states log : List σ} (h : Ascending states)
    (hlog : SameMembership log states) : states.length = (classes log).ncard := by
  classical
  have hclasses : classes log = ((states.map classOf).toFinset : Set (Set σ)) := by
    ext c
    simp only [classes, Set.mem_image, Set.mem_ofPred_eq, List.coe_toFinset, List.mem_map]
    constructor
    · rintro ⟨x, hx, rfl⟩
      obtain ⟨y, hy, heq⟩ := hlog.1 x hx
      exact ⟨y, hy, (classOf_eq_of_compare heq).symm⟩
    · rintro ⟨y, hy, rfl⟩
      obtain ⟨x, hx, heq⟩ := hlog.2 y hy
      exact ⟨x, hx, classOf_eq_of_compare heq⟩
  have hnodup : (states.map classOf).Nodup := by
    refine List.pairwise_map.2 (List.Pairwise.imp (fun {a b} hlt heq => ?_) h)
    have hb : b ∈ classOf a := heq ▸ (Std.ReflOrd.compare_self : compare b b = .eq)
    have hab : compare a b = .eq := hb
    rw [hlt] at hab
    cases hab
  rw [hclasses, Set.ncard_coe_finset, List.toFinset_card_of_nodup hnodup, List.length_map]

end Classes

/-! ## Reading a set off a list -/

variable {σ : Type} [ExceptionState σ]

namespace Staging

/-- The set is the one of a list of inserted states. -/
structure Gathers (set : Staging σ) (log : List σ) : Prop where
  ascending : Ascending set.members
  mem_iff : ∀ x, x ∈ set.members ↔ IsFirst log x
  size : set.size = (classes log).ncard
  isEmpty : set.isEmpty = true ↔ log = []
  hasLoop : set.hasLoop = true ↔ ∃ x ∈ log, ExceptionState.isLoop x = true
  hasFilter : set.hasFilter = true ↔ ∃ x ∈ log, ExceptionState.isFilter x = true

theorem mem_ofList_iff [Std.TransOrd σ] {log : List σ} {x : σ} :
    x ∈ (ofList log).members ↔ IsFirst log x := by
  induction log using List.reverseRecOn with
  | nil => simp [IsFirst, empty]
  | append_singleton log state ih =>
    have hequal : (∀ y ∈ (ofList log).members, compare y state ≠ .eq) ↔
        ∀ y ∈ log, compare y state ≠ .eq := by
      refine ⟨fun h y hy heq => ?_, fun h y hy => h y (mem_of_mem_ofList hy)⟩
      obtain ⟨z, hz, hyz⟩ := (sameMembership_ofList log).1 y hy
      exact h z hz (Std.TransCmp.eq_trans (Std.OrientedCmp.eq_symm hyz) heq)
    rw [← insert_ofList, isFirst_append_singleton_iff, ← ih, ← hequal]
    exact mem_insertState_iff (ascending_ofList log)

theorem gathers_ofList [Std.TransOrd σ] (log : List σ) : (ofList log).Gathers log where
  ascending := ascending_ofList log
  mem_iff _ := mem_ofList_iff
  size := (ascending_ofList log).length_eq_ncard_classes (sameMembership_ofList log)
  isEmpty := isEmpty_ofList_iff
  hasLoop := by rw [(flags_ofList log).1, List.any_eq_true]
  hasFilter := by rw [(flags_ofList log).2, List.any_eq_true]

end Staging

/-! ## Lists instead of sets -/

/-- The lists after an operation. -/
def Operation.log (logs : NameMap (List σ)) : Operation σ → NameMap (List σ)
  | .newStaging staging => logs.put staging []
  | .collect staging states => logs.put staging states
  | .insert staging state => logs.put staging ((logs.get? staging).getD [] ++ [state])
  | .extend staging states => logs.put staging ((logs.get? staging).getD [] ++ states)
  | .clear staging => logs.put staging []
  | .take staging target => (logs.put staging []).put target ((logs.get? staging).getD [])
  | .takeOver staging source => (logs.erase source).put staging ((logs.get? source).getD [])
  | .promote _ staging _ => logs.erase staging
  | _ => logs

/-- The lists after operations. -/
def Operation.logs (ops : List (Operation σ)) : NameMap (List σ) := ops.foldl Operation.log []

namespace Session

omit [ExceptionState σ] in
theorem stagings_putHandle (s : Session σ) (name : String) (x : Handle) :
    (s.putHandle name x).1.stagings = s.stagings := by
  unfold putHandle
  split <;> rfl

omit [ExceptionState σ] in
theorem stagings_putPool (s : Session σ) (name : String) (pool : PoolId) :
    (s.putPool name pool).1.stagings = s.stagings := by
  unfold putPool
  split <;> rfl

/-- Each name has the set of its list. -/
def Follows (sets : NameMap (Staging σ)) (logs : NameMap (List σ)) : Prop :=
  ∀ name, sets.get? name = (logs.get? name).map .ofList

namespace Follows

variable {sets : NameMap (Staging σ)} {logs : NameMap (List σ)}

theorem put (h : Follows sets logs) (name : String) (log : List σ) :
    Follows (sets.put name (.ofList log)) (logs.put name log) := by
  intro other
  by_cases heq : other = name
  · rw [heq, NameMap.get?_put_self, NameMap.get?_put_self, Option.map_some]
  · rw [NameMap.get?_put_of_ne heq, NameMap.get?_put_of_ne heq, h other]

theorem erase (h : Follows sets logs) (name : String) :
    Follows (sets.erase name) (logs.erase name) := by
  intro other
  by_cases heq : other = name
  · rw [heq, NameMap.get?_erase_self, NameMap.get?_erase_self, Option.map_none]
  · rw [NameMap.get?_erase_of_ne heq, NameMap.get?_erase_of_ne heq, h other]

theorem eq_ofList (h : Follows sets logs) {name : String} {set : Staging σ}
    (hset : sets.get? name = some set) : set = .ofList ((logs.get? name).getD []) := by
  rw [h name] at hset
  obtain ⟨log, hlog, rfl⟩ := Option.map_eq_some_iff.1 hset
  rw [hlog, Option.getD_some]

/-- A step takes the sets of the lists to those of the lists after it. -/
theorem step {s : Session σ} (h : Follows s.stagings logs) {op : Operation σ}
    {t : Session σ × List Event} (hstep : s.step op = some t) :
    Follows t.1.stagings (op.log logs) := by
  cases op with
  | newPool pool capacity =>
    cases hstep
    rw [stagings_putPool]
    exact h
  | dropPool pool =>
    obtain ⟨id, -, ht⟩ := Option.bind_eq_some_iff.1 hstep
    cases ht
    exact h
  | newStaging staging =>
    cases hstep
    exact h.put staging []
  | collect staging states =>
    cases hstep
    exact h.put staging states
  | insert staging state =>
    obtain ⟨set, hset, ht⟩ := Option.bind_eq_some_iff.1 hstep
    cases ht
    rw [h.eq_ofList hset, Staging.insert_ofList]
    exact h.put staging _
  | extend staging states =>
    obtain ⟨set, hset, ht⟩ := Option.bind_eq_some_iff.1 hstep
    cases ht
    rw [h.eq_ofList hset, Staging.extend_ofList]
    exact h.put staging _
  | clear staging =>
    obtain ⟨set, -, ht⟩ := Option.bind_eq_some_iff.1 hstep
    cases ht
    exact h.put staging []
  | take staging target =>
    obtain ⟨set, hset, ht⟩ := Option.bind_eq_some_iff.1 hstep
    cases ht
    rw [h.eq_ofList hset]
    exact (h.put staging []).put target _
  | takeOver staging source =>
    obtain ⟨set, hset, ht⟩ := Option.bind_eq_some_iff.1 hstep
    obtain ⟨old, -, ht⟩ := Option.bind_eq_some_iff.1 ht
    cases ht
    rw [h.eq_ofList hset]
    exact (h.erase source).put staging _
  | promote pool staging handle =>
    obtain ⟨id, -, ht⟩ := Option.bind_eq_some_iff.1 hstep
    obtain ⟨set, -, ht⟩ := Option.bind_eq_some_iff.1 ht
    obtain ⟨p, -, rfl⟩ := promote_eq_some_iff.1 ht
    rw [stagings_putHandle]
    exact h.erase staging
  | intern pool states handle =>
    obtain ⟨id, -, ht⟩ := Option.bind_eq_some_iff.1 hstep
    obtain ⟨p, -, rfl⟩ := promote_eq_some_iff.1 ht
    rw [stagings_putHandle]
    exact h
  | newSentinel handle =>
    cases hstep
    rw [stagings_putHandle]
    exact h
  | clone handle target =>
    obtain ⟨x, -, ht⟩ := Option.bind_eq_some_iff.1 hstep
    cases ht
    rw [stagings_putHandle]
    exact h
  | drop handle =>
    obtain ⟨x, -, ht⟩ := Option.bind_eq_some_iff.1 hstep
    cases ht
    exact h
  | dropAll =>
    cases hstep
    exact h

theorem run {s t : Session σ} (h : Follows s.stagings logs) {ops : List (Operation σ)}
    {events : List Event} (hrun : s.run ops = some (t, events)) :
    Follows t.stagings (ops.foldl Operation.log logs) := by
  induction ops generalizing s logs events with
  | nil =>
    cases hrun
    exact h
  | cons op ops ih =>
    obtain ⟨u, hu, hrun⟩ := Option.bind_eq_some_iff.1 hrun
    obtain ⟨v, hv, hrun⟩ := Option.bind_eq_some_iff.1 hrun
    cases hrun
    exact ih (h.step hu) hv

end Follows

/-! ## Runs -/

/-- After any operations the names of staging sets are those of the plain lists, and each set is the
one of its list. So an empty set has no flag, and if equal states are classified alike, the flags of
a set are those of its members. A promotion of the set is a promotion of these members. -/
theorem stagings_refine_logs [Std.TransOrd σ] {ops : List (Operation σ)} {s : Session σ}
    {events : List Event} (h : run {} ops = some (s, events)) :
    (∀ name, (s.stagings.get? name).isSome = ((Operation.logs ops).get? name).isSome) ∧
    ∀ name set, s.stagings.get? name = some set →
      ∃ log, (Operation.logs ops).get? name = some log ∧ set.Gathers log ∧
        (set.isEmpty = true → set.hasLoop = false ∧ set.hasFilter = false) ∧
        ((∀ a b : σ, compare a b = .eq → ExceptionState.isLoop a = ExceptionState.isLoop b ∧
            ExceptionState.isFilter a = ExceptionState.isFilter b) →
          set.hasLoop = set.members.any ExceptionState.isLoop ∧
            set.hasFilter = set.members.any ExceptionState.isFilter) ∧
        ∀ pool handle t, s.step (.promote pool name handle) = some t →
          ∃ id p, s.pools.get? pool = some id ∧ s.store.promote id set = some p ∧
            t.1.handles.get? handle = some p.handle := by
  have hfollows : Follows s.stagings (Operation.logs ops) :=
    Follows.run (s := {}) (fun _ => rfl) h
  refine ⟨fun name => by rw [hfollows name, Option.isSome_map], fun name set hset => ?_⟩
  have hname := hset
  rw [hfollows name] at hname
  obtain ⟨log, hlog, rfl⟩ := Option.map_eq_some_iff.1 hname
  obtain ⟨hloop, hfilter⟩ := Staging.flags_ofList log
  refine ⟨log, hlog, Staging.gathers_ofList log, fun hempty => ?_, fun halike => ⟨?_, ?_⟩,
    fun pool handle t ht => ?_⟩
  · rw [Staging.isEmpty_ofList_iff.1 hempty]
    exact ⟨rfl, rfl⟩
  · rw [hloop, Staging.any_members_ofList fun a b hab => (halike a b hab).1]
  · rw [hfilter, Staging.any_members_ofList fun a b hab => (halike a b hab).2]
  · obtain ⟨id, hpool, -⟩ := Option.bind_eq_some_iff.1 ht
    rw [step_promote hpool hset] at ht
    obtain ⟨p, hp, rfl⟩ := promote_eq_some_iff.1 ht
    exact ⟨id, p, hpool, hp, by rw [handles_putHandle, NameMap.get?_put_self]⟩

/-! ## A set that is handed over -/

/-- Of two states with the key 2 the second is a loop state. The set is taken from `"x"`, and it
takes the place of another one. -/
def handingOver : List (Operation KeyedState) :=
  [.newStaging "x", .insert "x" ⟨2, 7, false, false⟩,
    .extend "x" [⟨1, 5, false, false⟩, ⟨2, 8, true, false⟩], .take "x" "y",
    .insert "x" ⟨3, 9, false, true⟩, .collect "z" [⟨4, 4, false, false⟩], .takeOver "z" "y"]

theorem isSome_run_handingOver : (run {} handingOver).isSome = true := by
  decide +kernel

/-- The session that `handingOver` leads to. -/
def handedOver : Session KeyedState := ((run {} handingOver).get isSome_run_handingOver).1

/-- The set has the first state with the key 2, and the flag of the second one. -/
theorem stagings_refine_logs_handedOver :
    ∃ events, run {} handingOver = some (handedOver, events) ∧
      ∃ set, handedOver.stagings.get? "z" = some set ∧
        set.Gathers [⟨2, 7, false, false⟩, ⟨1, 5, false, false⟩, ⟨2, 8, true, false⟩] ∧
        set.members.map KeyedState.hash = [5, 7] ∧ set.hasLoop = true ∧
        set.members.any ExceptionState.isLoop = false := by
  have hrun := (Option.some_get isSome_run_handingOver).symm
  have hmap : (handedOver.stagings.get? "z").map (fun set =>
      (set.members.map KeyedState.hash, set.hasLoop, set.members.any ExceptionState.isLoop)) =
      some ([5, 7], true, false) := by
    decide +kernel
  obtain ⟨set, hset, hreads⟩ := Option.map_eq_some_iff.1 hmap
  obtain ⟨log, hlog, hgathers, -⟩ := (stagings_refine_logs hrun).2 "z" set hset
  obtain rfl : log = _ := Option.some.inj hlog.symm
  simp only [Prod.mk.injEq] at hreads
  exact ⟨_, hrun, set, hset, hgathers, hreads⟩

end Session

end PathIdentity
