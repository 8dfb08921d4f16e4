import PathIdentity.Proofs.Pool.Immutable

/-!
# Inserting a state that is already there

A state that has an equal one in a staging set is turned away, but its classification is added to
the flags of the set first. So the members stay, and with them the handle of a promotion, its
members and its hash; a flag that was down may come up. If the promotion makes an entry, the entry
has the flags of the set, raised or not; if it finds one, the flags are those of the entry.

The order of the states says nothing about their classification. Such an insertion is unnoticed in
all reachable sessions exactly if equal states are classified alike
(`Session.reinsertion_unnoticed_iff`).
-/

namespace PathIdentity

variable {σ : Type}

/-! ## The set -/

/-- A state with an equal one in an ascending list is not added. -/
theorem Ascending.insertState_eq_self [Ord σ] [Std.TransOrd σ] {states : List σ}
    (h : Ascending states) {state : σ} (hstate : ∃ y ∈ states, compare state y = .eq) :
    PathIdentity.insertState state states = states := by
  obtain ⟨y, hy, heq⟩ := hstate
  induction states with
  | nil => cases hy
  | cons other rest ih =>
    rw [PathIdentity.insertState]
    split
    · rename_i hlt
      exact absurd heq (h.ne_of_lt_head hlt y hy)
    · rfl
    · rename_i hgt
      have hrest : y ∈ rest := by
        refine (List.mem_cons.1 hy).resolve_left ?_
        rintro rfl
        rw [hgt] at heq
        cases heq
      rw [ih (List.pairwise_cons.1 h).2 hrest]

namespace Staging

/-- Everything that is seen of a staging set is the same. -/
structure ReadsAlike (a b : Staging σ) : Prop where
  members : b.members = a.members
  size : b.size = a.size
  isEmpty : b.isEmpty = a.isEmpty
  hasLoop : b.hasLoop = a.hasLoop
  hasFilter : b.hasFilter = a.hasFilter

theorem ReadsAlike.refl (a : Staging σ) : a.ReadsAlike a := ⟨rfl, rfl, rfl, rfl, rfl⟩

variable [ExceptionState σ]

/-- The set with the classification of a state in its flags. -/
def raise (set : Staging σ) (state : σ) : Staging σ :=
  { set with
    hasLoop := set.hasLoop || ExceptionState.isLoop state
    hasFilter := set.hasFilter || ExceptionState.isFilter state }

theorem insert_eq_raise [Std.TransOrd σ] {log : List σ} {state : σ}
    (hstate : ∃ y ∈ (ofList log).members, compare state y = .eq) :
    (ofList log).insert state = (ofList log).raise state := by
  rw [insert, (ascending_ofList log).insertState_eq_self hstate, raise]

/-- A state raises no flag if the flags that it is classified by are up. -/
theorem raise_eq_self_iff {set : Staging σ} {state : σ} :
    set.raise state = set ↔ (ExceptionState.isLoop state = true → set.hasLoop = true) ∧
      (ExceptionState.isFilter state = true → set.hasFilter = true) := by
  obtain ⟨members, hasLoop, hasFilter⟩ := set
  simp [raise]

/-- If equal states are classified alike, a state that is already there raises no flag: the log of
the set has a state that is classified like it. -/
theorem raise_eq_self [Std.TransOrd σ]
    (halike : ∀ a b : σ, compare a b = .eq → ExceptionState.isLoop a = ExceptionState.isLoop b ∧
      ExceptionState.isFilter a = ExceptionState.isFilter b)
    {log : List σ} {state : σ} (hstate : ∃ y ∈ (ofList log).members, compare state y = .eq) :
    (ofList log).raise state = ofList log := by
  obtain ⟨y, hy, heq⟩ := hstate
  have hlog := mem_of_mem_ofList hy
  obtain ⟨hloop, hfilter⟩ := halike state y heq
  rw [raise_eq_self_iff, (flags_ofList log).1, (flags_ofList log).2, hloop, hfilter]
  exact ⟨fun h => List.any_eq_true.2 ⟨y, hlog, h⟩, fun h => List.any_eq_true.2 ⟨y, hlog, h⟩⟩

end Staging

/-! ## Promotions of the set -/

variable [ExceptionState σ]

namespace Store

/-- Of two sets with the same members, which are not empty, either both have the same promotion, to
a handle that is alive, or each has a promotion that makes its entry. -/
theorem Consistent.promote_of_members_eq {s : Store σ} {live : List Handle} (h : s.Consistent live)
    {pool : PoolId} {a b : Staging σ} (hne : a.isEmpty = false) (hab : b.members = a.members)
    {p : Promotion σ} (hp : s.promote pool a = some p) :
    p.handle ∈ live ∧ s.promote pool b = some p ∨
      ∃ r, s.registryOf? pool = some r ∧ p = s.promoteNew pool r a ∧
        s.promote pool b = some (s.promoteNew pool r b) := by
  have hne' : b.isEmpty = false := by
    rw [← hne, Staging.isEmpty, Staging.isEmpty, hab]
  obtain ⟨r, hr, rfl⟩ := Option.map_eq_some_iff.1 hp
  have hb : s.promote pool b = some (s.promoteMembers pool r.countPromotion b) := by
    rw [Store.promote, hr, Option.map_some, hne', if_neg Bool.false_ne_true]
  rw [hb, hne, if_neg Bool.false_ne_true, promoteMembers, promoteMembers, hab]
  cases hfind : s.find? pool r.countPromotion (setHash a.members) a.members with
  | some e =>
    obtain ⟨he, -⟩ := h.of_find?_eq_some hr rfl hfind
    exact Or.inl ⟨(h.held e.id).2 ⟨e, he, rfl⟩, rfl⟩
  | none =>
    refine Or.inr ⟨r, hr, rfl, ?_⟩
    rw [← hab]
    rfl

/-- A promotion that makes an entry gives it a new identity and the content of the set. -/
theorem Consistent.entryOf?_promoteNew {s : Store σ} {live : List Handle} (h : s.Consistent live)
    {pool : PoolId} {r : Registry} (hr : s.registryOf? pool = some r) (set : Staging σ) :
    (s.promoteNew pool r set).handle ∉ live ∧
      (s.promoteNew pool r set).store.entryOf? (s.promoteNew pool r set).handle =
        some (makeEntry ⟨pool, r.nextSerial⟩ set) := by
  have hfresh := (h.lists hr).ne_next rfl
  constructor
  · intro hlive
    obtain ⟨e, he, hid⟩ := (h.held _).1 hlive
    exact hfresh e he hid
  · have hnone : s.entryAt? ⟨pool, r.nextSerial⟩ = none :=
      List.find?_eq_none.2 fun e he => by simpa using hfresh e he
    show (s.insertEntry pool r.countPromotion (makeEntry _ set)).entryAt? ⟨pool, r.nextSerial⟩ = _
    rw [entryAt?_insertEntry, hnone, Option.none_or]
    exact if_pos rfl

/-- Promotions of a set, not empty, and of the set with raised flags have the same handle, with the
same members and hash. If the handle is alive before, the promotions are the same; if not, its flags
are those of the set in each case. -/
theorem Consistent.promote_raise {s : Store σ} {live : List Handle} (h : s.Consistent live)
    {pool : PoolId} {set : Staging σ} (hne : set.isEmpty = false) {state : σ} {p q : Promotion σ}
    (hp : s.promote pool set = some p) (hq : s.promote pool (set.raise state) = some q) :
    q.handle = p.handle ∧ q.store.members p.handle = p.store.members p.handle ∧
      q.store.hashOf p.handle = p.store.hashOf p.handle ∧ (p.handle ∈ live → q = p) ∧
      (p.handle ∉ live →
        p.store.hasLoop p.handle = set.hasLoop ∧ p.store.hasFilter p.handle = set.hasFilter ∧
        q.store.hasLoop p.handle = (set.raise state).hasLoop ∧
        q.store.hasFilter p.handle = (set.raise state).hasFilter) := by
  rcases h.promote_of_members_eq (b := set.raise state) hne rfl hp with
    ⟨hlive, hsame⟩ | ⟨r, hr, rfl, hnew⟩
  · obtain rfl := Option.some.inj (hq.symm.trans hsame)
    exact ⟨rfl, rfl, rfl, fun _ => rfl, fun hdead => absurd hlive hdead⟩
  · obtain rfl := Option.some.inj (hq.symm.trans hnew)
    obtain ⟨hdead, hentry⟩ := h.entryOf?_promoteNew hr set
    obtain ⟨-, hentry'⟩ := h.entryOf?_promoteNew hr (set.raise state)
    have hhandle : (s.promoteNew pool r (set.raise state)).handle =
        (s.promoteNew pool r set).handle := rfl
    rw [hhandle] at hentry'
    refine ⟨hhandle, ?_, ?_, fun hlive => absurd hlive hdead, fun _ => ⟨?_, ?_, ?_, ?_⟩⟩
    · rw [members, members, hentry, hentry']
      rfl
    · rw [hashOf, hashOf, hentry, hentry']
      rfl
    · rw [hasLoop, hentry]
      rfl
    · rw [hasFilter, hentry]
      rfl
    · rw [hasLoop, hentry']
      rfl
    · rw [hasFilter, hentry']
      rfl

end Store

namespace Session

variable [Std.TransOrd σ]

/-- Promoting a named set gives a name to the handle of the promotion, which reads as it does before
the old handle of the name is dropped. -/
theorem Consistent.step_promote_reads {s : Session σ} (hs : s.Consistent) {pool staging : String}
    {id : PoolId} {set : Staging σ} (hpool : s.pools.get? pool = some id)
    (hset : s.stagings.get? staging = some set) (name : String) :
    ∃ p u, s.store.promote id set = some p ∧ s.step (.promote pool staging name) = some u ∧
      u.1.handles.get? name = some p.handle ∧ p.store.ReadsAlike u.1.store p.handle := by
  obtain ⟨log, rfl⟩ := hs.tidy.stagings _ _ hset
  obtain ⟨p, u, hp, hu, huc, hname, -⟩ := hs.exists_step_promote hpool hset name
  have hu' := hu
  rw [step_promote hpool hset] at hu'
  obtain ⟨p', hp', rfl⟩ := promote_eq_some_iff.1 hu'
  obtain rfl : p = p' := Option.some.inj (hp.symm.trans hp')
  have hstore : s.store.Consistent s.handles.values := hs.store
  have hchanges := putHandle_changes
    (s := { s with stagings := s.stagings.erase staging, store := p.store }) hs.tidy.handles name
    p.handle
  exact ⟨p, _, hp, hu, hname, (hstore.promote hp).readsAlike hchanges.later huc.store
    List.mem_cons_self (NameMap.mem_values_of_get? hname)⟩

/-- Promoting the set of a name gives the handle `h` in both sessions. -/
structure PromoteAlike (s t : Session σ) (pool staging name : String)
    (u v : Session σ × List Event) (h : Handle) : Prop where
  first : s.step (.promote pool staging name) = some u
  second : t.step (.promote pool staging name) = some v
  named_first : u.1.handles.get? name = some h
  named_second : v.1.handles.get? name = some h

/-- The sessions have sets under the name that read alike, and so do the handles of their
promotions. -/
def Unnoticed (s t : Session σ) (staging : String) : Prop :=
  (∃ a b, s.stagings.get? staging = some a ∧ t.stagings.get? staging = some b ∧ a.ReadsAlike b) ∧
    ∀ {pool : String} {id : PoolId}, s.pools.get? pool = some id → ∀ name, ∃ u v h,
      s.PromoteAlike t pool staging name u v h ∧ u.1.store.ReadsAlike v.1.store h

section Insertion

variable {s : Session σ} {staging : String} {set : Staging σ} {state : σ}

/-- Inserting a state that is already there raises the flags of the set. -/
theorem Consistent.step_insert (hs : s.Consistent) (hset : s.stagings.get? staging = some set)
    (hstate : ∃ y ∈ set.members, compare state y = .eq) :
    s.step (.insert staging state) = some (s.putStaging staging (set.raise state), []) := by
  obtain ⟨log, rfl⟩ := hs.tidy.stagings _ _ hset
  rw [← Staging.insert_eq_raise hstate]
  exact Option.bind_eq_some_iff.2 ⟨_, hset, rfl⟩

/-- The promotions of the set before and after the insertion give one handle, with the same members
and hash. If the set is not raised or the handle is alive before, the handle reads the same after
both; if it is not alive before, its flags are those of the set in each case. -/
theorem Consistent.promotions_raise (hs : s.Consistent) (hset : s.stagings.get? staging = some set)
    (hstate : ∃ y ∈ set.members, compare state y = .eq) {pool : String} {id : PoolId}
    (hpool : s.pools.get? pool = some id) (name : String) :
    ∃ u v h, s.PromoteAlike (s.putStaging staging (set.raise state)) pool staging name u v h ∧
      v.1.store.members h = u.1.store.members h ∧ v.1.store.hashOf h = u.1.store.hashOf h ∧
      (set.raise state = set ∨ h ∈ s.handles.values → u.1.store.ReadsAlike v.1.store h) ∧
      (h ∉ s.handles.values →
        u.1.store.hasLoop h = set.hasLoop ∧ u.1.store.hasFilter h = set.hasFilter ∧
        v.1.store.hasLoop h = (set.raise state).hasLoop ∧
        v.1.store.hasFilter h = (set.raise state).hasFilter) := by
  have ht : (s.putStaging staging (set.raise state)).Consistent :=
    hs.step (hs.step_insert hset hstate)
  have hset' : (s.putStaging staging (set.raise state)).stagings.get? staging =
      some (set.raise state) := NameMap.get?_put_self _ _ _
  obtain ⟨p, u, hp, hu, hname, hreads⟩ := hs.step_promote_reads hpool hset name
  obtain ⟨q, v, hq, hv, hname', hreads'⟩ := ht.step_promote_reads hpool hset' name
  have hq : s.store.promote id (set.raise state) = some q := hq
  have hstore : s.store.Consistent s.handles.values := hs.store
  obtain ⟨y, hy, -⟩ := hstate
  have hne : set.isEmpty = false := by
    rw [Staging.isEmpty, List.isEmpty_eq_false_iff]
    exact List.ne_nil_of_mem hy
  obtain ⟨hhandle, hmembers, hhash, hlive, hdead⟩ := hstore.promote_raise hne hp hq
  rw [hhandle] at hname' hreads'
  refine ⟨u, v, p.handle, ⟨hu, hv, hname, hname'⟩, ?_, ?_, fun hsame => ?_, fun hnew => ?_⟩
  · rw [hreads'.members, hmembers, hreads.members]
  · rw [hreads'.hash, hhash, hreads.hash]
  · have heq : q = p := by
      refine hsame.elim (fun hraise => ?_) hlive
      rw [hraise] at hq
      exact Option.some.inj (hq.symm.trans hp)
    rw [heq] at hreads'
    exact hreads.symm.trans hreads'
  · rw [hreads.hasLoop, hreads.hasFilter, hreads'.hasLoop, hreads'.hasFilter]
    exact hdead hnew

end Insertion

/-! ## When the insertion is unnoticed -/

/-- Wherever a state has an equal one in a set, inserting it is unnoticed. -/
def ReinsertionsUnnoticed (σ : Type) [ExceptionState σ] : Prop :=
  ∀ {s : Session σ}, s.Reachable → ∀ {staging : String} {set : Staging σ},
    s.stagings.get? staging = some set → ∀ {state : σ},
    (∃ y ∈ set.members, compare state y = .eq) →
    ∃ t, s.step (.insert staging state) = some (t, []) ∧ s.Unnoticed t staging

/-- Of equal states the second is inserted into the set of the first. -/
theorem ReinsertionsUnnoticed.classified (h : ReinsertionsUnnoticed σ) {a b : σ}
    (hab : compare a b = .eq) :
    (ExceptionState.isLoop b = true → ExceptionState.isLoop a = true) ∧
      (ExceptionState.isFilter b = true → ExceptionState.isFilter a = true) := by
  have hstep : ({} : Session σ).step (.collect "x" [a]) =
      some (putStaging {} "x" (.ofList [a]), []) := rfl
  have hs : (putStaging {} "x" (.ofList [a])).Reachable := leads_of_step hstep
  have hset : (putStaging {} "x" (.ofList [a])).stagings.get? "x" = some (.ofList [a]) :=
    NameMap.get?_put_self _ _ _
  have hb : ∃ y ∈ (Staging.ofList [a]).members, compare b y = .eq :=
    ⟨a, List.mem_singleton_self a, Std.OrientedCmp.eq_symm hab⟩
  obtain ⟨t, ht, ⟨x, y, hx, hy, hxy⟩, -⟩ := h hs hset hb
  rw [hs.consistent.step_insert hset hb] at ht
  cases ht
  obtain rfl := Option.some.inj (hset.symm.trans hx)
  obtain rfl := Option.some.inj ((NameMap.get?_put_self _ _ _).symm.trans hy)
  have hraise : (Staging.ofList [a]).raise b = .ofList [a] := by
    rw [Staging.raise, Staging.mk.injEq]
    exact ⟨rfl, hxy.hasLoop, hxy.hasFilter⟩
  have hflags : (Staging.ofList [a]).hasLoop = ExceptionState.isLoop a ∧
      (Staging.ofList [a]).hasFilter = ExceptionState.isFilter a := by
    simpa using Staging.flags_ofList [a]
  rw [← hflags.1, ← hflags.2]
  exact Staging.raise_eq_self_iff.1 hraise

/-- In every reachable session inserting a state with an equal one in the set leaves the members of
the set, and its promotions give the same handle, members and hash as without the insertion. It is a
no-op for the set exactly if it raises no flag; a flag that it raises is also that of the handle,
unless the promotion finds an entry. So such insertions are always unnoticed exactly if equal states
are classified alike; that the order of the states is total does not suffice. -/
theorem reinsertion_unnoticed_iff :
    (∀ {s : Session σ}, s.Reachable → ∀ {staging : String} {set : Staging σ},
      s.stagings.get? staging = some set → ∀ {state : σ},
      (∃ y ∈ set.members, compare state y = .eq) →
      ∃ t, s.step (.insert staging state) = some (t, []) ∧
        t.stagings.get? staging = some (set.raise state) ∧
        (set.raise state = set ↔ (ExceptionState.isLoop state = true → set.hasLoop = true) ∧
          (ExceptionState.isFilter state = true → set.hasFilter = true)) ∧
        ∀ {pool : String} {id : PoolId}, s.pools.get? pool = some id → ∀ name, ∃ u v h,
          s.PromoteAlike t pool staging name u v h ∧
          v.1.store.members h = u.1.store.members h ∧ v.1.store.hashOf h = u.1.store.hashOf h ∧
          (set.raise state = set ∨ h ∈ s.handles.values → u.1.store.ReadsAlike v.1.store h) ∧
          (h ∉ s.handles.values →
            u.1.store.hasLoop h = set.hasLoop ∧ u.1.store.hasFilter h = set.hasFilter ∧
            v.1.store.hasLoop h = (set.raise state).hasLoop ∧
            v.1.store.hasFilter h = (set.raise state).hasFilter)) ∧
    (ReinsertionsUnnoticed σ ↔
      ∀ a b : σ, compare a b = .eq → ExceptionState.isLoop a = ExceptionState.isLoop b ∧
        ExceptionState.isFilter a = ExceptionState.isFilter b) := by
  refine ⟨fun {s} hs {staging set} hset {state} hstate => ?_, fun h a b hab => ?_,
    fun halike {s} hs {staging set} hset {state} hstate => ?_⟩
  · exact ⟨_, hs.consistent.step_insert hset hstate, NameMap.get?_put_self _ _ _,
      Staging.raise_eq_self_iff, hs.consistent.promotions_raise hset hstate⟩
  · have hba := h.classified hab
    have hab := h.classified (Std.OrientedCmp.eq_symm hab)
    exact ⟨Bool.eq_iff_iff.2 ⟨hab.1, hba.1⟩, Bool.eq_iff_iff.2 ⟨hab.2, hba.2⟩⟩
  · have hraise : set.raise state = set := by
      obtain ⟨log, rfl⟩ := hs.consistent.tidy.stagings _ _ hset
      exact Staging.raise_eq_self halike hstate
    refine ⟨_, hs.consistent.step_insert hset hstate,
      ⟨set, set.raise state, hset, NameMap.get?_put_self _ _ _, ?_⟩, fun hpool name => ?_⟩
    · rw [hraise]
      exact .refl set
    · obtain ⟨u, v, h, hpromote, -, -, hreads, -⟩ :=
        hs.consistent.promotions_raise hset hstate hpool name
      exact ⟨u, v, h, hpromote, hreads (Or.inl hraise)⟩

/-! ## States that are inserted twice -/

/-- A set with a filter state and a loop state. -/
def arming : List (Operation MatcherState) :=
  [.newPool "p" 0, .collect "x" [⟨⟨1⟩, .filter, 0⟩, ⟨⟨2⟩, .loop, 3⟩]]

theorem isSome_run_arming : (run {} arming).isSome = true := by
  decide +kernel

/-- The session that `arming` leads to. -/
def armed : Session MatcherState := ((run {} arming).get isSome_run_arming).1

/-- Equal matcher states are classified alike, so inserting one of them again is unnoticed. -/
theorem reinsertion_unnoticed_armed :
    armed.Reachable ∧ ∃ t, armed.step (.insert "x" ⟨⟨2⟩, .loop, 3⟩) = some (t, []) ∧
      armed.Unnoticed t "x" := by
  have hreachable : armed.Reachable := ⟨arming, _, (Option.some_get isSome_run_arming).symm⟩
  have hset : armed.stagings.get? "x" =
      some (.ofList [⟨⟨1⟩, .filter, 0⟩, ⟨⟨2⟩, .loop, 3⟩]) := rfl
  have halike (a b : MatcherState) (h : compare a b = .eq) :
      ExceptionState.isLoop a = ExceptionState.isLoop b ∧
        ExceptionState.isFilter a = ExceptionState.isFilter b :=
    ⟨CongruentState.isLoop_eq h, CongruentState.isFilter_eq h⟩
  exact ⟨hreachable, reinsertion_unnoticed_iff.2.2 halike hreachable hset (by decide +kernel)⟩

/-- A set with a state of the key 1, which is no loop state. -/
def keying : List (Operation KeyedState) :=
  [.newPool "p" 0, .collect "x" [⟨1, 1, false, false⟩]]

theorem isSome_run_keying : (run {} keying).isSome = true := by
  decide +kernel

/-- The session that `keying` leads to. -/
def keyed : Session KeyedState := ((run {} keying).get isSome_run_keying).1

/-- The equal state that is inserted is a loop state. The set has the flag then, and so has the
handle of its promotion, whose members have no loop state. -/
theorem reinsertion_noticed_keyed :
    keyed.Reachable ∧
      (keyed.stagings.get? "x").any (·.members.any (compare ⟨1, 1, true, false⟩ · == .eq)) = true ∧
      (¬ ∃ t, keyed.step (.insert "x" ⟨1, 1, true, false⟩) = some (t, []) ∧
        keyed.Unnoticed t "x") ∧
      (keyed.run [.promote "p" "x" "h"]).map
        (fun t => t.1.store.hasLoop (.entry ⟨⟨0⟩, 0⟩)) = some false ∧
      (keyed.run [.insert "x" ⟨1, 1, true, false⟩, .promote "p" "x" "h"]).map
        (fun t => (t.1.store.hasLoop (.entry ⟨⟨0⟩, 0⟩),
          (t.1.store.members (.entry ⟨⟨0⟩, 0⟩)).any (·.isLoop))) = some (true, false) := by
  have hstep : keyed.step (.insert "x" ⟨1, 1, true, false⟩) =
      some (keyed.putStaging "x" ⟨[⟨1, 1, false, false⟩], true, false⟩, []) := rfl
  refine ⟨⟨keying, _, (Option.some_get isSome_run_keying).symm⟩, by decide +kernel, ?_,
    by decide +kernel, by decide +kernel⟩
  rintro ⟨t, ht, ⟨a, b, ha, hb, hab⟩, -⟩
  cases hstep.symm.trans ht
  cases ha
  cases hb
  cases hab.hasLoop

end Session

end PathIdentity
