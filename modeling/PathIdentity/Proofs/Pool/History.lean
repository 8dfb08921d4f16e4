import PathIdentity.Pool.Event
import Mathlib.Data.List.Nodup
import Mathlib.Data.List.Induction
import Mathlib.Data.List.Range

/-!
# Histories of events

What the events of a run say of the entries of a pool: `serials fate pool events` lists the serials
that were registered, reused or evicted, in order. A history is `Orderly` when every event fits the
events before it (`Fits`): an entry is registered under the number of entries registered before it,
it is reused and evicted only between its registration and its eviction, and the count that an event
reports is the number of entries registered and not evicted. The lives of the entries of a pool
(`Lives`) follow: serials ascend from zero without a gap, and an entry that was evicted never shows
again.
-/

namespace PathIdentity

namespace Event

/-- What becomes of an entry. -/
inductive Fate where
  | reused
  | registered
  | evicted
deriving DecidableEq

/-- The entry of an event and what becomes of it. -/
def fate? : Event → Option (Fate × EntryId)
  | reused entry _ => some (.reused, entry)
  | registered entry .. => some (.registered, entry)
  | evicted entry .. => some (.evicted, entry)
  | poolDropped .. => none

/-- The serials of a pool with a fate, in the order of events. -/
def serials (fate : Fate) (pool : PoolId) (events : List Event) : List ℕ :=
  events.filterMap fun event =>
    (event.fate?.filter fun (f, entry) => f = fate ∧ entry.pool = pool).map fun p => p.2.serial

variable {fate : Fate} {pool : PoolId} {events before after : List Event}

@[simp] theorem serials_nil : serials fate pool [] = [] := rfl

@[simp] theorem serials_append :
    serials fate pool (before ++ after) = serials fate pool before ++ serials fate pool after :=
  List.filterMap_append

theorem serials_cons (event : Event) :
    serials fate pool (event :: events) = serials fate pool [event] ++ serials fate pool events :=
  List.filterMap_append (l := [event])

theorem serials_singleton_of_fate {event : Event} {f : Fate} {entry : EntryId}
    (h : event.fate? = some (f, entry)) :
    serials fate pool [event] = if f = fate ∧ entry.pool = pool then [entry.serial] else [] := by
  rw [serials, List.filterMap_cons, h, List.filterMap_nil, Option.filter_some]
  by_cases hf : f = fate ∧ entry.pool = pool <;> simp [hf]

@[simp] theorem serials_reused (entry : EntryId) (hash : UInt64) :
    serials fate pool [reused entry hash] =
      if .reused = fate ∧ entry.pool = pool then [entry.serial] else [] :=
  serials_singleton_of_fate rfl

@[simp] theorem serials_registered (entry : EntryId) (hash : UInt64) (size live : ℕ) :
    serials fate pool [registered entry hash size live] =
      if .registered = fate ∧ entry.pool = pool then [entry.serial] else [] :=
  serials_singleton_of_fate rfl

@[simp] theorem serials_evicted (entry : EntryId) (hash : UInt64) (live : ℕ) :
    serials fate pool [evicted entry hash live] =
      if .evicted = fate ∧ entry.pool = pool then [entry.serial] else [] :=
  serials_singleton_of_fate rfl

@[simp] theorem serials_poolDropped (other : PoolId) (live : ℕ) (stats : Stats) :
    serials fate pool [poolDropped other live stats] = [] := rfl

theorem serials_eq_nil_of_pool {event : Event} (h : event.pool ≠ pool) :
    serials fate pool [event] = [] := by
  cases event <;> simp_all [Event.pool]

theorem serials_eq_nil (h : ∀ event ∈ events, event.pool ≠ pool) :
    serials fate pool events = [] := by
  induction events with
  | nil => rfl
  | cons event events ih =>
    rw [serials_cons, serials_eq_nil_of_pool (h event List.mem_cons_self),
      ih fun e he => h e (List.mem_cons_of_mem _ he), List.append_nil]

/-- An event about an entry stands somewhere. -/
theorem exists_of_mem_serials {serial : ℕ} (h : serial ∈ serials fate pool events) :
    ∃ before event after, events = before ++ event :: after ∧
      event.fate? = some (fate, ⟨pool, serial⟩) := by
  induction events with
  | nil => cases h
  | cons event events ih =>
    rw [serials_cons, List.mem_append] at h
    rcases h with h | h
    · refine ⟨[], event, events, rfl, ?_⟩
      cases hf : event.fate? with
      | none => simp [serials, hf] at h
      | some p =>
        obtain ⟨f, entry⟩ := p
        rw [serials_singleton_of_fate hf] at h
        split_ifs at h with heq
        · obtain ⟨rfl, rfl⟩ := heq
          rw [List.mem_singleton.1 h]
        · cases h
    · obtain ⟨before, e, after, rfl, he⟩ := ih h
      exact ⟨event :: before, e, after, rfl, he⟩

/-! ## Orderly histories -/

/-- Whether an event may follow the events before it. -/
def Fits (before : List Event) : Event → Prop
  | reused entry _ =>
    entry.serial ∈ serials .registered entry.pool before ∧
      entry.serial ∉ serials .evicted entry.pool before
  | registered entry _ _ live =>
    entry.serial = (serials .registered entry.pool before).length ∧
      live + (serials .evicted entry.pool before).length = entry.serial + 1
  | evicted entry _ live =>
    entry.serial ∈ serials .registered entry.pool before ∧
      entry.serial ∉ serials .evicted entry.pool before ∧
      live + (serials .evicted entry.pool before).length + 1 =
        (serials .registered entry.pool before).length
  | poolDropped .. => True

/-- Each event fits the events before it. -/
inductive Orderly : List Event → Prop
  | nil : Orderly []
  | snoc {before : List Event} {event : Event} (h : Orderly before) (hfits : Fits before event) :
      Orderly (before ++ [event])

/-- The lives of the entries of a pool, as events tell them. -/
structure Lives (pool : PoolId) (events : List Event) : Prop where
  /-- Serials are given in order, each once. -/
  registered : serials .registered pool events =
    List.range (serials .registered pool events).length
  /-- An entry is reused only between its registration and its eviction. -/
  reused : ∀ before after entry hash, events = before ++ .reused entry hash :: after →
    entry.pool = pool → entry.serial ∈ serials .registered pool before ∧
      entry.serial ∉ serials .evicted pool before
  /-- An entry is evicted only once, and after its registration. -/
  nodup_evicted : (serials .evicted pool events).Nodup
  /-- An entry that was evicted never shows again. -/
  evicted : ∀ before after entry hash live, events = before ++ .evicted entry hash live :: after →
    entry.pool = pool → entry.serial ∈ serials .registered pool before ∧
      ∀ fate, entry.serial ∉ serials fate pool after
  /-- A registration reports the number of entries registered and not evicted. -/
  live_registered : ∀ before after entry hash size live,
    events = before ++ .registered entry hash size live :: after → entry.pool = pool →
      live + (serials .evicted pool (before ++ [.registered entry hash size live])).length =
        (serials .registered pool (before ++ [.registered entry hash size live])).length
  /-- So does an eviction. -/
  live_evicted : ∀ before after entry hash live,
    events = before ++ .evicted entry hash live :: after → entry.pool = pool →
      live + (serials .evicted pool (before ++ [.evicted entry hash live])).length =
        (serials .registered pool (before ++ [.evicted entry hash live])).length

namespace Orderly

theorem snoc_iff {event : Event} :
    Orderly (before ++ [event]) ↔ Orderly before ∧ Fits before event := by
  refine ⟨fun h => ?_, fun h => h.1.snoc h.2⟩
  generalize heq : before ++ [event] = all at h
  cases h with
  | nil => simp at heq
  | snoc h hfits =>
    obtain ⟨rfl, hlast⟩ := List.append_inj' heq rfl
    obtain rfl := List.singleton_inj.1 hlast
    exact ⟨h, hfits⟩

theorem of_append (h : Orderly (before ++ after)) : Orderly before := by
  induction after using List.reverseRecOn with
  | nil => rwa [List.append_nil] at h
  | append_singleton after event ih =>
    rw [← List.append_assoc] at h
    exact ih (snoc_iff.1 h).1

theorem fits {event : Event} (h : Orderly (before ++ event :: after)) : Fits before event := by
  rw [List.append_cons] at h
  exact (snoc_iff.1 h.of_append).2

/-- The serials of a pool are given in order. -/
theorem registered_eq_range (h : Orderly events) : serials .registered pool events =
    List.range (serials .registered pool events).length := by
  induction h with
  | nil => rfl
  | @snoc before event _ hfits ih =>
    cases event with
    | registered entry hash size live =>
      by_cases hpool : entry.pool = pool
      · subst hpool
        have hserial : entry.serial = (serials .registered entry.pool before).length := hfits.1
        simp [List.range_succ, ← ih, hserial]
      · simpa [hpool] using ih
    | _ => simpa using ih

theorem lt_of_mem_registered (h : Orderly events) {serial : ℕ}
    (hserial : serial ∈ serials .registered pool events) :
    serial < (serials .registered pool events).length := by
  rw [h.registered_eq_range] at hserial
  exact List.mem_range.1 hserial

theorem nodup_evicted (h : Orderly events) : (serials .evicted pool events).Nodup := by
  induction h with
  | nil => exact List.nodup_nil
  | @snoc before event _ hfits ih =>
    cases event with
    | evicted entry hash live =>
      by_cases hpool : entry.pool = pool
      · subst hpool
        have hnew : entry.serial ∉ serials .evicted entry.pool before := hfits.2.1
        simp only [serials_append, serials_evicted, and_self, if_true, List.nodup_append,
          List.nodup_singleton, List.mem_singleton, true_and]
        exact ⟨ih, fun m hm n hn heq => hnew (hn ▸ heq ▸ hm)⟩
      · simpa [hpool] using ih
    | _ => simpa using ih

/-- After its eviction an entry is neither registered nor reused nor evicted. -/
theorem not_mem_after_evicted {entry : EntryId} {hash : UInt64} {live : ℕ}
    (h : Orderly (before ++ .evicted entry hash live :: after)) (fate : Fate) :
    entry.serial ∉ serials fate entry.pool after := by
  intro hmem
  have hregistered := h.fits.1
  obtain ⟨between, event, rest, rfl, hfate⟩ := exists_of_mem_serials hmem
  have hfate : event.fate? = some (fate, entry) := hfate
  rw [← List.cons_append, ← List.append_assoc] at h
  -- What is known of the entry when the later event comes.
  have hevicted : entry.serial ∈
      serials .evicted entry.pool (before ++ .evicted entry hash live :: between) := by
    rw [serials_append, serials_cons]
    simp
  have hbefore : entry.serial ∈
      serials .registered entry.pool (before ++ .evicted entry hash live :: between) := by
    rw [serials_append]
    exact List.mem_append_left _ hregistered
  have hfits := h.fits
  cases event with
  | reused e _ =>
    cases hfate
    exact hfits.2 hevicted
  | registered e _ _ _ =>
    cases hfate
    have hserial : entry.serial = _ := hfits.1
    have hlt := h.of_append.lt_of_mem_registered hbefore
    omega
  | evicted e _ _ =>
    cases hfate
    exact hfits.2.1 hevicted
  | poolDropped => cases hfate

theorem lives (h : Orderly events) (pool : PoolId) : Lives pool events where
  registered := h.registered_eq_range
  reused before after entry hash heq hpool := by
    subst heq hpool
    exact h.fits
  nodup_evicted := h.nodup_evicted
  evicted before after entry hash live heq hpool := by
    subst heq hpool
    exact ⟨h.fits.1, h.not_mem_after_evicted⟩
  live_registered before after entry hash size live heq hpool := by
    subst heq hpool
    obtain ⟨hserial, hlive⟩ := h.fits
    simp [← hserial, hlive]
  live_evicted before after entry hash live heq hpool := by
    subst heq hpool
    obtain ⟨-, -, hlive⟩ := h.fits
    simp only [serials_append, serials_evicted, List.length_append]
    simp
    omega

end Orderly

end Event

end PathIdentity
