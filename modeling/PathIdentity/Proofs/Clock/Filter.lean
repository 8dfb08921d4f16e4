import PathIdentity.Proofs.Clock.Order

/-!
# Equal clock contexts and filters

A clock context refers to a filter if its clock path carries one (`ClockInfo.refsFilter`). Clock
paths of propagated clocks are kept whether or not pessimism removal is active, and are left out of
equality while it is not. So the reference is a matter of identity only while pessimism removal is
active, or where no clock path can make a difference. While it is not active, and some path carries
a filter, every propagated clock has two equal clock contexts of which one refers to a filter and
the other does not.
-/

namespace PathIdentity

open Std (TransCmp)

namespace ClockInfo

variable {a b : ClockInfo} {p : ClockParts} {A C : SearchContext}

theorem isPropagated_of_agrees (h : a.agrees b C = true) : a.isPropagated = b.isPropagated := by
  simp only [agrees, Bool.and_eq_true, beq_iff_eq] at h
  exact h.1.1.1.2

theorem pathEqual_of_agrees (h : a.agrees b C = true) (hactive : C.crprActive = true) :
    C.pathEqual a.crprPath b.crprPath = true := by
  simp only [agrees, hactive, Bool.and_eq_true, Bool.not_true, Bool.false_or] at h
  exact h.1.1.1.1.1.1.1.2

/-- The clock path of a clock that is not propagated is left out. -/
theorem refsFilter_ofParts_eq_false (h : p.isPropagated = false) :
    (ofParts p A).refsFilter C = false := by
  simp [refsFilter, ofParts, h]

theorem refsFilter_eq_false (h : ∀ path, C.pathIsFilter path = false) :
    a.refsFilter C = false := by
  rw [refsFilter, Option.any_eq_false]
  exact fun path _ => by simp [h path]

/-- Clock contexts that differ in the clock path are equal while clock paths do not count. -/
theorem equal_of_inactive (hinactive : C.crprActive = false) (p : ClockParts)
    (u v : Option PathRef) :
    (ofParts { p with crprPath := u } C).equal (ofParts { p with crprPath := v } C) C =
      .ok true := by
  refine equal_eq_ok_true_iff.2 ⟨rfl, rfl, ?_⟩
  simp [agrees, ofParts, hinactive, isPulse, pulseIndex, uncertaintyTicks]

/-- (1) Equal clock contexts agree on whether they refer to a filter, if pessimism removal is active
and paths that compare equal are identical, or the clock is not propagated, or no path carries a
filter. (2) The condition is needed: while pessimism removal is not active, a path that carries a
filter makes the difference between equal clock contexts of any propagated clock. -/
theorem refsFilter_of_equal :
    (∀ (A B C : SearchContext) (p q : ClockParts),
      (∀ u v, C.pathCompare u v = .eq → u = v) →
      (∀ u v, C.pathEqual u v = true ↔ C.pathCompare u v = .eq) →
      (C.crprActive = true ∨ p.isPropagated = false ∨ ∀ path, C.pathIsFilter path = false) →
      (ofParts p A).equal (ofParts q B) C = .ok true →
        (ofParts p A).refsFilter C = (ofParts q B).refsFilter C) ∧
    ∀ C : SearchContext, C.crprActive = false → ∀ path, C.pathIsFilter path = true →
      ∀ p : ClockParts, p.isPropagated = true →
        (ofParts { p with crprPath := none } C).equal
          (ofParts { p with crprPath := some path } C) C = .ok true ∧
        (ofParts { p with crprPath := none } C).refsFilter C = false ∧
        (ofParts { p with crprPath := some path } C).refsFilter C = true := by
  constructor
  · intro A B C p q hlawful hconsistent hcondition hequal
    have hagrees := (equal_eq_ok_true_iff.1 hequal).2.2
    rcases hcondition with hactive | hideal | hnone
    · have hpath := hlawful _ _ ((hconsistent _ _).1 (pathEqual_of_agrees hagrees hactive))
      rw [refsFilter, refsFilter, hpath]
    · have hideal' : q.isPropagated = false := (isPropagated_of_agrees hagrees).symm.trans hideal
      rw [refsFilter_ofParts_eq_false hideal, refsFilter_ofParts_eq_false hideal']
    · rw [refsFilter_eq_false hnone, refsFilter_eq_false hnone]
  · intro C hinactive path hfilter p hpropagated
    refine ⟨equal_of_inactive hinactive p none (some path), ?_, ?_⟩
    · simp [refsFilter, ofParts]
    · simp [refsFilter, ofParts, hpropagated, hfilter]

/-- A search context in which paths have their natural order and those of the fifth tag carry a
filter. -/
def filtering (crprActive : Bool) : SearchContext :=
  { contextOf (fun u v => Ord.compare u v == .eq) with
    crprActive := crprActive
    pathIsFilter := fun path => path.tagIndex == 5 }

theorem pathCompare_filtering_eq_iff (crprActive : Bool) (u v : Option PathRef) :
    (filtering crprActive).pathCompare u v = .eq ↔ u = v :=
  Std.compare_eq_iff_eq (a := u)

theorem pathEqual_filtering_iff (crprActive : Bool) (u v : Option PathRef) :
    (filtering crprActive).pathEqual u v = true ↔ (filtering crprActive).pathCompare u v = .eq :=
  beq_iff_eq

/-- Clock contexts with the same path and a time below the resolution agree while pessimism removal
is active; while it is not, the path of a clock with a latency makes a difference. -/
theorem refsFilter_of_equal_path :
    (ofParts { pathParts (some ⟨⟨1⟩, 5⟩) with latency := ⟨1⟩ } (filtering true)).refsFilter
        (filtering true) =
      (ofParts (pathParts (some ⟨⟨1⟩, 5⟩)) (filtering true)).refsFilter (filtering true) ∧
    (ofParts { pathParts (some ⟨⟨1⟩, 5⟩) with latency := ⟨1⟩ } (filtering false)).refsFilter
        (filtering false) = true := by
  constructor
  · refine refsFilter_of_equal.1 _ _ (filtering true) _ _
      (fun u v => (pathCompare_filtering_eq_iff true u v).1) (pathEqual_filtering_iff true)
      (.inl rfl) (equal_eq_ok_true_iff.2 ⟨rfl, rfl, ?_⟩)
    decide +kernel
  · exact (refsFilter_of_equal.2 (filtering false) rfl ⟨⟨1⟩, 5⟩ rfl
      { pathParts none with latency := ⟨1⟩ } rfl).2.2

/-- In a search context with a total order of paths, where only identical paths are equal, a clock
context without a clock path is equal to one that refers to a filter: pessimism removal is not
active. -/
theorem refsFilter_ne_of_inactive :
    TransCmp (filtering false).pathCompare ∧
      (∀ u v, (filtering false).pathCompare u v = .eq ↔ u = v) ∧
      (∀ u v, (filtering false).pathEqual u v = true ↔ (filtering false).pathCompare u v = .eq) ∧
      (ofParts (pathParts none) (filtering false)).equal
        (ofParts (pathParts (some ⟨⟨1⟩, 5⟩)) (filtering false)) (filtering false) = .ok true ∧
      (ofParts (pathParts none) (filtering false)).refsFilter (filtering false) ≠
        (ofParts (pathParts (some ⟨⟨1⟩, 5⟩)) (filtering false)).refsFilter (filtering false) :=
  ⟨inferInstanceAs (TransCmp (Ord.compare : Option PathRef → Option PathRef → Ordering)),
    pathCompare_filtering_eq_iff false, pathEqual_filtering_iff false,
    equal_of_inactive rfl (pathParts none) none (some ⟨⟨1⟩, 5⟩), by decide +kernel⟩

end ClockInfo

end PathIdentity
