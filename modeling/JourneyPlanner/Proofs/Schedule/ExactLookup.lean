import Mathlib.Order.Bounds.Basic
import JourneyPlanner.Proofs.Schedule.Lookup

/-!
# Lookups on timetables

Where every window of a pattern is a timetable, the departure found for a time is the least of the
scheduled ones that are not before it, and the arrival found is the greatest that is not after it
(`FrequencyPattern.lookup_exact`). None is found exactly when there is none, which includes a stop
that is missing, closed, or of no use to the traveller.
-/

namespace JourneyPlanner

/-- An answer that is in a set, no greater than any element, and there if the set has one, is the
least element of the set. -/
theorem isLeast_of_answer {α : Type} [PartialOrder α] {S : Set α} {answer : Option α}
    (hmem : ∀ x, answer = some x → x ∈ S) (hle : ∀ y ∈ S, ∃ x, answer = some x ∧ x ≤ y) :
    (∀ x, answer = some x ↔ IsLeast S x) ∧ (answer = none ↔ S = ∅) := by
  refine ⟨fun x => ⟨fun h => ⟨hmem x h, fun y hy => ?_⟩, fun h => ?_⟩, fun h => ?_, fun h => ?_⟩
  · obtain ⟨x', hx', hle⟩ := hle y hy
    exact Option.some.inj (hx'.symm.trans h) ▸ hle
  · obtain ⟨x', hx', hle⟩ := hle x h.1
    rw [hx', hle.antisymm (h.2 (hmem x' hx'))]
  · refine Set.eq_empty_iff_forall_notMem.mpr fun y hy => ?_
    obtain ⟨x, hx, -⟩ := hle y hy
    exact nomatch hx.symm.trans h
  · exact Option.eq_none_iff_forall_ne_some.mpr fun x hx => by
      have := hmem x hx
      rw [h] at this
      exact this

/-- The starts of a timetable are the start of its window and every headway after it, before the
end. -/
theorem HeadwayWindow.starts_iff_of_exact {w : HeadwayWindow} (he : w.exact = true) {s : Int} :
    w.Starts s ↔ ∃ k : Nat, w.start + k * w.headway < w.stop ∧ s = w.start + k * w.headway := by
  have hh := w.headway_pos
  constructor
  · rintro ⟨hlow, hhigh, hdvd⟩
    obtain ⟨q, hq⟩ := hdvd he
    have hq₀ : 0 ≤ q := nonneg_of_mul_nonneg_right (by omega) hh
    lift q to Nat using hq₀
    rw [mul_comm] at hq
    exact ⟨q, by omega, by omega⟩
  · rintro ⟨k, hk, rfl⟩
    have := mul_nonneg (Int.natCast_nonneg k) hh.le
    exact ⟨by omega, hk, fun _ => ⟨k, by rw [add_sub_cancel_left, mul_comm]⟩⟩

namespace FrequencyPattern

variable {p : FrequencyPattern} {i : Nat} {t : Int} {needs : Needs} {checked : Bool}

/-- Whether the vehicle and a stop of it serve a traveller. -/
structure Serves (p : FrequencyPattern) (st : PatternStop) (needs : Needs) : Prop where
  wheelchair : needs.wheelchair = true → p.wheelchair = true ∧ st.wheelchair = true
  bicycle : needs.bicycle = true → p.bikesAllowed = true

theorem isUsable_iff {st : PatternStop} : p.isUsable st needs = true ↔ p.Serves st needs := by
  unfold isUsable
  rw [Bool.and_eq_true]
  refine ⟨fun h => ⟨fun hw => ?_, fun hb => ?_⟩, fun h => ⟨?_, ?_⟩⟩
  · simpa [hw] using h.1
  · simpa [hb] using h.2
  · have := h.wheelchair
    revert this
    cases needs.wheelchair <;> simp
  · have := h.bicycle
    revert this
    cases needs.bicycle <;> simp

/-- The scheduled times at a position, counted by `offset` from the starts of the runs, for those
whom the vehicle and the stop serve. With `checked`, the stop must let them pass. -/
def timesAt (p : FrequencyPattern) (offset : PatternStop → Int) (access : PatternStop → StopAccess)
    (i : Nat) (needs : Needs) (checked : Bool) : Set Int :=
  {x | ∃ st, p.stops[i]? = some st ∧ p.Serves st needs ∧
    (checked = true → access st ≠ .notAvailable) ∧
    ∃ w ∈ p.windows, ∃ k : Nat,
      w.start + k * w.headway < w.stop ∧ x = w.start + k * w.headway + offset st}

theorem mem_timesAt (he : ∀ w ∈ p.windows, w.exact = true) {offset : PatternStop → Int}
    {access : PatternStop → StopAccess} {x : Int} : x ∈ p.timesAt offset access i needs checked ↔
      ∃ st s, p.stops[i]? = some st ∧ p.Serves st needs ∧
        (checked = true → access st ≠ .notAvailable) ∧ p.RunStarts s ∧ x = s + offset st := by
  constructor
  · rintro ⟨st, hst, hserves, hopen, w, hw, k, hk, rfl⟩
    exact ⟨st, _, hst, hserves, hopen,
      ⟨w, hw, (HeadwayWindow.starts_iff_of_exact (he w hw)).mpr ⟨k, hk, rfl⟩⟩, rfl⟩
  · rintro ⟨st, s, hst, hserves, hopen, ⟨w, hw, hs⟩, rfl⟩
    obtain ⟨k, hk, rfl⟩ := (HeadwayWindow.starts_iff_of_exact (he w hw)).mp hs
    exact ⟨st, hst, hserves, hopen, w, hw, k, hk, rfl⟩

/-- Nothing is found where the vehicle or the stop does not serve the traveller, or the stop does
not let him pass. -/
theorem serves_of_lookup {st : PatternStop} {access : StopAccess} {times : Option Int} {x : Int}
    (h : (if !p.isUsable st needs || (checked && !access.isAvailable) then none else times) =
      some x) : p.Serves st needs ∧ (checked = true → access ≠ .notAvailable) := by
  split_ifs at h with hc
  rw [Bool.or_eq_true, not_or, Bool.not_eq_true, Bool.not_eq_false', Bool.not_eq_true] at hc
  refine ⟨isUsable_iff.mp hc.1, fun hchecked => ?_⟩
  have := hc.2
  rw [hchecked] at this
  simpa [StopAccess.isAvailable] using this

theorem exactDeparture?_mem (he : ∀ w ∈ p.windows, w.exact = true) {x : Int}
    (h : p.exactDeparture? i t needs checked = some x) :
    x ∈ p.timesAt (·.departure) (·.board) i needs checked ∧ t ≤ x := by
  obtain ⟨st, s, hst, hs, hx, ht⟩ := exactDeparture?_spec h
  unfold exactDeparture? at h
  rw [hst] at h
  obtain ⟨hserves, hopen⟩ := serves_of_lookup h
  exact ⟨(mem_timesAt he).mpr ⟨st, s, hst, hserves, hopen, hs, hx⟩, ht⟩

theorem exactArrival?_mem (he : ∀ w ∈ p.windows, w.exact = true) {x : Int}
    (h : p.exactArrival? i t needs checked = some x) :
    x ∈ p.timesAt (·.arrival) (·.alight) i needs checked ∧ x ≤ t := by
  obtain ⟨st, s, hst, hs, hx, ht⟩ := exactArrival?_spec h
  unfold exactArrival? at h
  rw [hst] at h
  obtain ⟨hserves, hopen⟩ := serves_of_lookup h
  exact ⟨(mem_timesAt he).mpr ⟨st, s, hst, hserves, hopen, hs, hx⟩, ht⟩

theorem exactDeparture?_le (he : ∀ w ∈ p.windows, w.exact = true) {y : Int}
    (hy : y ∈ p.timesAt (·.departure) (·.board) i needs checked) (ht : t ≤ y) :
    ∃ x, p.exactDeparture? i t needs checked = some x ∧ x ≤ y := by
  obtain ⟨st, s, hst, hserves, hopen, hs, rfl⟩ := (mem_timesAt he).mp hy
  have ha : checked = true → st.board.isAvailable = true := fun h => by
    simpa [StopAccess.isAvailable] using hopen h
  exact exactDeparture?_mono
    (exactDeparture?_of_runStarts he hst (isUsable_iff.mpr hserves) ha hs) ht

theorem le_exactArrival? (he : ∀ w ∈ p.windows, w.exact = true) {y : Int}
    (hy : y ∈ p.timesAt (·.arrival) (·.alight) i needs checked) (ht : y ≤ t) :
    ∃ x, p.exactArrival? i t needs checked = some x ∧ y ≤ x := by
  obtain ⟨st, s, hst, hserves, hopen, hs, rfl⟩ := (mem_timesAt he).mp hy
  have ha : checked = true → st.alight.isAvailable = true := fun h => by
    simpa [StopAccess.isAvailable] using hopen h
  exact exactArrival?_mono
    (exactArrival?_of_runStarts he hst (isUsable_iff.mpr hserves) ha hs) ht

/-- On timetables lookups are exact: of the times scheduled at a position for a traveller, the
departure found is the least that is not before the time asked for, the arrival found the greatest
that is not after it, and nothing is found exactly when there is no such time. -/
theorem lookup_exact (he : ∀ w ∈ p.windows, w.exact = true) (i : Nat) (t : Int) (needs : Needs)
    (checked : Bool) :
    (∀ x, p.nextDeparture? .unbounded i t needs checked = .ok (some x) ↔
      IsLeast {y | y ∈ p.timesAt (·.departure) (·.board) i needs checked ∧ t ≤ y} x) ∧
    (p.nextDeparture? .unbounded i t needs checked = .ok none ↔
      {y | y ∈ p.timesAt (·.departure) (·.board) i needs checked ∧ t ≤ y} = ∅) ∧
    (∀ x, p.previousArrival? .unbounded i t needs checked = .ok (some x) ↔
      IsGreatest {y | y ∈ p.timesAt (·.arrival) (·.alight) i needs checked ∧ y ≤ t} x) ∧
    (p.previousArrival? .unbounded i t needs checked = .ok none ↔
      {y | y ∈ p.timesAt (·.arrival) (·.alight) i needs checked ∧ y ≤ t} = ∅) := by
  rw [nextDeparture?_unbounded, previousArrival?_unbounded]
  simp only [Except.ok.injEq]
  obtain ⟨hleast, hnext⟩ := isLeast_of_answer (fun _ h => exactDeparture?_mem (t := t) he h)
    fun y hy => exactDeparture?_le he hy.1 hy.2
  -- the greatest arrival is the least one in the opposite order
  obtain ⟨hgreatest, hprevious⟩ := isLeast_of_answer (α := Intᵒᵈ)
    (fun _ h => exactArrival?_mem (t := t) he h) fun y hy => le_exactArrival? he hy.1 hy.2
  exact ⟨hleast, hnext, hgreatest, hprevious⟩

/-- A tram with two timetables that overlap. -/
def overlapping : FrequencyPattern where
  trip := ⟨⟨"tram", by decide⟩, ⟨"T", by decide⟩⟩
  service := 1
  mode := .tram
  stops := [⟨⟨"quay", by decide⟩, 0, 0, .regular, .regular, none, none, true⟩,
    ⟨⟨"market", by decide⟩, 120, 150, .mustPhone, .regular, none, none, false⟩,
    ⟨⟨"mill", by decide⟩, 400, 400, .notAvailable, .regular, none, none, true⟩]
  windows := [⟨0, 1800, 600, true, by decide, by decide, by decide⟩,
    ⟨900, 2400, 400, true, by decide, by decide, by decide⟩]
  bikesAllowed := false
  wheelchair := true
  two_le_length := by decide
  windows_ne_nil := by decide
  ordered := by decide

/-- At the market the next tram is one of the second timetable and the one before of the first; a
wheelchair cannot get off there, and the last tram has left at 2250. -/
theorem overlapping_lookup :
    (∀ w ∈ overlapping.windows, w.exact = true) ∧
    IsLeast {y | y ∈ overlapping.timesAt (·.departure) (·.board) 1 ⟨false, false⟩ true ∧ 1360 ≤ y}
      1450 ∧
    {y | y ∈ overlapping.timesAt (·.departure) (·.board) 1 ⟨false, false⟩ true ∧ 2251 ≤ y} = ∅ ∧
    IsGreatest {y | y ∈ overlapping.timesAt (·.arrival) (·.alight) 1 ⟨false, false⟩ true ∧
      y ≤ 1400} 1320 ∧
    {y | y ∈ overlapping.timesAt (·.arrival) (·.alight) 1 ⟨true, false⟩ true ∧ y ≤ 1400} = ∅ := by
  have he : ∀ w ∈ overlapping.windows, w.exact = true := by decide
  exact ⟨he, ((lookup_exact he 1 1360 ⟨false, false⟩ true).1 1450).mp (by decide),
    (lookup_exact he 1 2251 ⟨false, false⟩ true).2.1.mp (by decide),
    ((lookup_exact he 1 1400 ⟨false, false⟩ true).2.2.1 1320).mp (by decide),
    (lookup_exact he 1 1400 ⟨true, false⟩ true).2.2.2.mp (by decide)⟩

end FrequencyPattern

end JourneyPlanner
