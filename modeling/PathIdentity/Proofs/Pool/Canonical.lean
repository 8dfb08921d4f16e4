import PathIdentity.Proofs.Pool.Content

/-!
# Promotion forgets how a set was made

Where equal states are hashed and classified alike, what the handle of a promotion shows depends on
the membership of the staging set alone: not on the order and the number of its insertions, nor on
what the session, or another session, did before. If the set is promoted again in its pool while
the handle is alive, the promotion is a hit (`Session.Consistent.promote_hit`).

The members of a staging set ascend, so the membership gives them up to equal states, and with them
the hash. The flags of an entry are those of the set that made it; with states classified alike they
are also those of the members.
-/

namespace PathIdentity

variable {σ : Type} [ExceptionState σ]

namespace Store.Consistent

variable [Std.TransOrd σ] {s : Store σ} {live : List Handle}

/-- The flags of a live handle are those of its members, which ascend. -/
theorem flags_eq_any [CongruentState σ] (h : s.Consistent live) {x : Handle} (hx : x ∈ live) :
    Ascending (s.members x) ∧ s.hasLoop x = (s.members x).any ExceptionState.isLoop ∧
      s.hasFilter x = (s.members x).any ExceptionState.isFilter := by
  cases x with
  | sentinel => exact ⟨List.Pairwise.nil, rfl, rfl⟩
  | entry id =>
    obtain ⟨e, he, -, hentry⟩ := h.exists_entry hx
    obtain ⟨log, hlog⟩ := h.made e he
    rw [members_entry hentry, (flags_entry hentry).1, (flags_entry hentry).2, hlog.members,
      hlog.hasLoop, hlog.hasFilter]
    exact ⟨Staging.ascending_ofList log, Staging.hasLoop_ofList_eq_any_members log,
      Staging.hasFilter_ofList_eq_any_members log⟩

omit [Std.TransOrd σ] in
theorem belongsTo_promote (h : s.Consistent live) {pool : PoolId} {log : List σ} {p : Promotion σ}
    (hp : s.promote pool (.ofList log) = some p) : p.handle.belongsTo pool = true := by
  obtain ⟨r, -, ⟨-, rfl⟩ | ⟨-, ⟨e, -, hpool, -, -, rfl⟩ | ⟨-, rfl⟩⟩⟩ := h.promote_cases hp
  · rfl
  · exact decide_eq_true hpool
  · exact decide_eq_true rfl

end Store.Consistent

namespace Session

omit [ExceptionState σ] in
theorem map_registryOf?_putHandle {α : Type} {f : Registry → α}
    (hf : ∀ (r : Registry) (hash : UInt64) (keep : ℕ → Bool), f (r.evict hash keep) = f r)
    (s : Session σ) (name : String) (h : Handle) (pool : PoolId) :
    ((s.putHandle name h).1.store.registryOf? pool).map f = (s.store.registryOf? pool).map f := by
  unfold putHandle
  split
  · rfl
  · exact Store.map_registryOf?_release hf s.store _ pool

variable [Std.TransOrd σ]

/-- If a live handle shows a set, promoting the set in the pool of the handle is a hit: it gives the
handle and reports it, no entry is made, and no entry of the session is new. -/
theorem Consistent.promote_hit {s : Session σ} (hs : s.Consistent) {id : PoolId} {log : List σ}
    {x : Handle} (hx : x ∈ s.handles.values)
    (hshows : s.store.Shows x (Staging.ofList log).members) (hpool : x.belongsTo id = true)
    {p : Promotion σ} (hp : s.store.promote id (.ofList log) = some p)
    {m : NameMap (Staging σ)} {name : String} {t : Session σ × List Event}
    (ht : { s with stagings := m }.promote id (.ofList log) name = some t) (htc : t.1.Consistent) :
    p.handle = x ∧
      (∀ i, x = .entry i → ∃ later, t.2 = .reused i (s.store.hashOf x) :: later) ∧
      (∀ e ∈ t.1.store.entries, ∃ f ∈ s.store.entries, f.id = e.id) ∧
      ∀ pool, (t.1.store.registryOf? pool).map (·.stats.inserts) =
        (s.store.registryOf? pool).map (·.stats.inserts) := by
  have hstore : s.store.Consistent s.handles.values := hs.store
  have htstore : t.1.store.Consistent t.1.handles.values := htc.store
  obtain ⟨hhandle, hevents, hinserts⟩ := hstore.promote_of_shows hp hshows hpool
  obtain ⟨p', hp', rfl⟩ := promote_eq_some_iff.1 ht
  obtain rfl : p = p' := Option.some.inj (hp.symm.trans hp')
  refine ⟨hhandle, fun i hi => ?_, fun e he => ?_, fun pool => ?_⟩
  · refine ⟨({ s with stagings := m, store := p.store }.putHandle name p.handle).2, ?_⟩
    show p.events ++ _ = _
    rw [hevents i hi]
    rfl
  · -- An entry of the session has a live handle, and the new handle was alive before.
    have hlive := (htstore.held e.id).2 ⟨e, he, rfl⟩
    refine (hstore.held e.id).1 ?_
    obtain ⟨entry, hmem, hentry⟩ := List.mem_map.1 hlive
    rw [handles_putHandle] at hmem
    rcases NameMap.mem_put hmem with rfl | hmem
    · have hx' : p.handle = .entry e.id := hentry
      rwa [← hx', hhandle]
    · exact hentry ▸ List.mem_map_of_mem hmem
  · have hput := map_registryOf?_putHandle (f := (·.stats.inserts)) (fun _ _ _ => rfl)
      { s with stagings := m, store := p.store } name p.handle pool
    exact hput.trans (hinserts pool)

/-- Sets with the same membership, made in any two reachable sessions, have promotions that show the
same, and flags that tell whether a member is classified so; where both handles are alive they are
equal in content and order. If the first handle is alive when the second set is promoted in the same
pool, that is a hit: it gives the same handle, and no entry is added. -/
theorem promotion_forgets_history [CongruentState σ] {a b : Session σ} (ha : a.Reachable)
    (hb : b.Reachable) {pool pool' staging staging' : String} {p q : PoolId} {x y : Staging σ}
    (hp : a.pools.get? pool = some p) (hq : b.pools.get? pool' = some q)
    (hx : a.stagings.get? staging = some x) (hy : b.stagings.get? staging' = some y)
    (hxy : SameMembership x.members y.members) (name name' : String) :
    ∃ s t h k, a.step (.promote pool staging name) = some s ∧ s.1.handles.get? name = some h ∧
      b.step (.promote pool' staging' name') = some t ∧ t.1.handles.get? name' = some k ∧
      (s.1.store.hashOf h = t.1.store.hashOf k ∧ s.1.store.size h = t.1.store.size k ∧
        sameStates (s.1.store.members h) (t.1.store.members k) = true ∧
        s.1.store.hasLoop h = t.1.store.hasLoop k ∧
        s.1.store.hasFilter h = t.1.store.hasFilter k) ∧
      (Ascending (s.1.store.members h) ∧ Ascending (t.1.store.members k) ∧
        sameStates (s.1.store.members h) x.members = true ∧
        s.1.store.hasLoop h = (s.1.store.members h).any ExceptionState.isLoop ∧
        s.1.store.hasFilter h = (s.1.store.members h).any ExceptionState.isFilter) ∧
      (∀ c : Session σ, s.1.Leads c → t.1.Leads c → h ∈ c.handles.values → k ∈ c.handles.values →
        c.store.contentEq h k = true ∧ c.store.compare h k = .eq) ∧
      (p = q → s.1.Leads b → h ∈ b.handles.values →
        k = h ∧ k.serial? = h.serial? ∧
        (∀ id, h = .entry id → ∃ later, t.2 = .reused id (b.store.hashOf h) :: later) ∧
        (∀ e ∈ t.1.store.entries, ∃ f ∈ b.store.entries, f.id = e.id) ∧
        (t.1.store.registryOf? q).map (·.stats.inserts) =
          (b.store.registryOf? q).map (·.stats.inserts)) := by
  have hac := ha.consistent
  have hbc := hb.consistent
  obtain ⟨log, rfl⟩ := hac.tidy.stagings _ _ hx
  obtain ⟨log', rfl⟩ := hbc.tidy.stagings _ _ hy
  -- Both sets ascend, so they hold equal states in the same places.
  have hsame : sameStates (Staging.ofList log).members (Staging.ofList log').members = true :=
    hxy.sameStates (Staging.ascending_ofList log) (Staging.ascending_ofList log')
  obtain ⟨f, s, hf, hs, hsc, hname, hshows⟩ := hac.exists_step_promote hp hx name
  obtain ⟨g, t, hg, ht, htc, hname', hshows'⟩ := hbc.exists_step_promote hq hy name'
  have hfirst : s.1.store.Shows f.handle (Staging.ofList log').members := hshows.congr hsame
  have hstates := hfirst.sameStates_members_members hshows'
  have hsstore : s.1.store.Consistent s.1.handles.values := hsc.store
  have htstore : t.1.store.Consistent t.1.handles.values := htc.store
  obtain ⟨hascending, hloop, hfilter⟩ :=
    hsstore.flags_eq_any (NameMap.mem_values_of_get? hname)
  obtain ⟨hascending', hloop', hfilter'⟩ := htstore.flags_eq_any (NameMap.mem_values_of_get? hname')
  refine ⟨s, t, f.handle, g.handle, hs, hname, ht, hname', ⟨hfirst.hashOf_eq hshows',
    hfirst.size_eq.trans hshows'.size_eq.symm, hstates, ?_, ?_⟩,
    ⟨hascending, hascending', hshows.sameStates_members, hloop, hfilter⟩, ?_, ?_⟩
  · rw [hloop, hloop', any_eq_of_sameStates (fun _ _ => CongruentState.isLoop_eq) hstates]
  · rw [hfilter, hfilter', any_eq_of_sameStates (fun _ _ => CongruentState.isFilter_eq) hstates]
  · intro c hsc' htc' hh hk
    have hcstore : c.store.Consistent c.handles.values := (hsc'.consistent hsc).store
    have hh := hsstore.shows_later (hsc'.later hsc) hcstore hh hfirst
    have hk := htstore.shows_later (htc'.later htc) hcstore hk hshows'
    exact ⟨hh.contentEq hk, hh.compare_eq hk⟩
  · rintro rfl hlead hlive
    have hbstore : b.store.Consistent b.handles.values := hbc.store
    have hlater := hsstore.shows_later (hlead.later hsc) hbstore hlive hfirst
    have hastore : a.store.Consistent a.handles.values := hac.store
    have hbelongs := hastore.belongsTo_promote hf
    have ht' := ht
    rw [step_promote hq hy] at ht'
    obtain ⟨hhandle, hevents, hentries, hinserts⟩ :=
      hbc.promote_hit hlive hlater hbelongs hg ht' htc
    exact ⟨hhandle, congrArg Handle.serial? hhandle, hevents, hentries, hinserts p⟩

/-! ## A set promoted twice -/

/-- A staging set with a state twice. -/
def gathered : List (Operation MatcherState) :=
  [.newPool "p" 0, .collect "x" [⟨⟨2⟩, .loop, 0⟩, ⟨⟨1⟩, .filter, 3⟩, ⟨⟨2⟩, .loop, 0⟩]]

/-- The same set in another order, after a set that makes an entry. -/
def gatheredAgain : List (Operation MatcherState) :=
  [.intern "p" [⟨⟨1⟩, .filter, 3⟩] "e", .newStaging "y", .insert "y" ⟨⟨1⟩, .filter, 3⟩,
    .extend "y" [⟨⟨2⟩, .loop, 0⟩]]

theorem isSome_run_gathered : (run {} gathered).isSome = true := by
  decide +kernel

/-- The session in which the set is promoted first. -/
def unpromoted : Session MatcherState := ((run {} gathered).get isSome_run_gathered).1

theorem isSome_promote_unpromoted :
    (unpromoted.step (.promote "p" "x" "h")).isSome = true := by
  decide +kernel

/-- The session with the first handle. -/
def promoted : Session MatcherState :=
  ((unpromoted.step (.promote "p" "x" "h")).get isSome_promote_unpromoted).1

theorem isSome_run_gatheredAgain : (promoted.run gatheredAgain).isSome = true := by
  decide +kernel

/-- The session in which the set is promoted again. -/
def repeated : Session MatcherState :=
  ((promoted.run gatheredAgain).get isSome_run_gatheredAgain).1

/-- The second promotion gives the first handle. -/
theorem promotion_forgets_history_repeated :
    unpromoted.Reachable ∧ repeated.Reachable ∧ ∃ t k,
      repeated.step (.promote "p" "y" "k") = some t ∧ t.1.handles.get? "k" = some k ∧
        k = .entry ⟨⟨0⟩, 0⟩ := by
  have hunpromoted : unpromoted.Reachable :=
    ⟨gathered, _, (Option.some_get isSome_run_gathered).symm⟩
  have hstep := (Option.some_get isSome_promote_unpromoted).symm
  have hleads : promoted.Leads repeated :=
    ⟨gatheredAgain, _, (Option.some_get isSome_run_gatheredAgain).symm⟩
  have hrepeated : repeated.Reachable :=
    Leads.trans hunpromoted ((leads_of_step hstep).trans hleads)
  have hfirst : promoted.handles.get? "h" = some (.entry ⟨⟨0⟩, 0⟩) := by decide +kernel
  have hlive : Handle.entry ⟨⟨0⟩, 0⟩ ∈ repeated.handles.values := by decide +kernel
  have hp : unpromoted.pools.get? "p" = some ⟨0⟩ := rfl
  have hq : repeated.pools.get? "p" = some ⟨0⟩ := rfl
  have hx : unpromoted.stagings.get? "x" = some (.ofList
      [⟨⟨2⟩, .loop, 0⟩, ⟨⟨1⟩, .filter, 3⟩, ⟨⟨2⟩, .loop, 0⟩]) := rfl
  have hy : repeated.stagings.get? "y" = some (.ofList (Staging.ofList
      [⟨⟨2⟩, .loop, 0⟩, ⟨⟨1⟩, .filter, 3⟩, ⟨⟨2⟩, .loop, 0⟩]).members) := rfl
  obtain ⟨s, t, h, k, hs, hname, ht, hname', -, -, -, hhit⟩ :=
    promotion_forgets_history hunpromoted hrepeated hp hq hx hy (Staging.sameMembership_ofList _)
      "h" "k"
  obtain rfl : s = (promoted, _) := Option.some.inj (hs.symm.trans hstep)
  obtain rfl : h = .entry ⟨⟨0⟩, 0⟩ := Option.some.inj (hname.symm.trans hfirst)
  exact ⟨hunpromoted, hrepeated, t, k, ht, hname', (hhit rfl hleads hlive).1⟩

end Session

end PathIdentity
