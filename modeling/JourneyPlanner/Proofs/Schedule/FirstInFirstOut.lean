import Mathlib.Data.Int.ConditionallyCompleteOrder
import Mathlib.Order.Interval.Set.Defs
import Mathlib.Order.WithBot
import JourneyPlanner.Proofs.Schedule.Lookup

/-!
# First in, first out

Whoever comes to a stop later does not leave it earlier, whatever timetables and headways the
vehicle runs on, and whoever must arrive later may take a vehicle that arrives no earlier
(`FrequencyPattern.first_in_first_out`). That no departure is found counts as a departure after all
others, that no arrival is found as an arrival before all others. What is found lies on the right
side of the time asked for, and its run starts inside one of the windows.
-/

namespace JourneyPlanner

/-- The time of a departure; where there is none, a time after all others. -/
def departureTime (hit : Option Int) : WithTop Int := hit

/-- The time of an arrival; where there is none, a time before all others. -/
def arrivalTime (hit : Option Int) : WithBot Int := hit

theorem departureTime_le {a b : Option Int} (h : ∀ y, b = some y → ∃ x, a = some x ∧ x ≤ y) :
    departureTime a ≤ departureTime b := by
  cases b with
  | none => exact le_top
  | some y =>
    obtain ⟨x, rfl, hle⟩ := h y rfl
    exact WithTop.coe_le_coe.mpr hle

theorem arrivalTime_le {a b : Option Int} (h : ∀ x, a = some x → ∃ y, b = some y ∧ x ≤ y) :
    arrivalTime a ≤ arrivalTime b := by
  cases a with
  | none => exact bot_le
  | some x =>
    obtain ⟨y, rfl, hle⟩ := h x rfl
    exact WithBot.coe_le_coe.mpr hle

namespace FrequencyPattern

variable {p : FrequencyPattern}

theorem departureTime_mono (p : FrequencyPattern) (i : Nat) (needs : Needs) (checked : Bool) :
    Monotone fun t => departureTime (p.exactDeparture? i t needs checked) :=
  fun _ _ ht => departureTime_le fun _ h => exactDeparture?_mono h ht

theorem arrivalTime_mono (p : FrequencyPattern) (i : Nat) (needs : Needs) (checked : Bool) :
    Monotone fun t => arrivalTime (p.exactArrival? i t needs checked) :=
  fun _ _ ht => arrivalTime_le fun _ h => exactArrival?_mono h ht

/-- A run that leaves a position at `x`, `offset` seconds after its start, starts in a window. -/
theorem RunStarts.exists_window {s x offset : Int} (hs : p.RunStarts s) (hx : x = s + offset) :
    ∃ w ∈ p.windows, x - offset ∈ Set.Ico w.start w.stop := by
  obtain ⟨w, hw, hlow, hhigh, -⟩ := hs
  exact ⟨w, hw, by omega, by omega⟩

/-- Lookups are first in, first out. At every position and for every traveller, each time asked for
has an answer, the departure found moves with that time, and so does the arrival; a departure is
not before the time and an arrival not after it, and the run of either starts in one of the windows
of the pattern. -/
theorem first_in_first_out (p : FrequencyPattern) (i : Nat) (needs : Needs) (checked : Bool) :
    ∃ departure arrival : Int → Option Int,
      (∀ t, p.nextDeparture? .unbounded i t needs checked = .ok (departure t)) ∧
      (∀ t, p.previousArrival? .unbounded i t needs checked = .ok (arrival t)) ∧
      (∀ t t', t ≤ t' → departureTime (departure t) ≤ departureTime (departure t')) ∧
      (∀ t t', t ≤ t' → arrivalTime (arrival t) ≤ arrivalTime (arrival t')) ∧
      (∀ t x, departure t = some x → t ≤ x ∧ ∃ st, p.stops[i]? = some st ∧
        ∃ w ∈ p.windows, x - st.departure ∈ Set.Ico w.start w.stop) ∧
      (∀ t x, arrival t = some x → x ≤ t ∧ ∃ st, p.stops[i]? = some st ∧
        ∃ w ∈ p.windows, x - st.arrival ∈ Set.Ico w.start w.stop) := by
  refine ⟨fun t => p.exactDeparture? i t needs checked, fun t => p.exactArrival? i t needs checked,
    fun t => p.nextDeparture?_unbounded i t needs checked,
    fun t => p.previousArrival?_unbounded i t needs checked,
    fun _ _ ht => p.departureTime_mono i needs checked ht,
    fun _ _ ht => p.arrivalTime_mono i needs checked ht, fun t x h => ?_, fun t x h => ?_⟩
  · obtain ⟨st, s, hst, hs, hx, ht⟩ := exactDeparture?_spec h
    exact ⟨ht, st, hst, hs.exists_window hx⟩
  · obtain ⟨st, s, hst, hs, hx, ht⟩ := exactArrival?_spec h
    exact ⟨ht, st, hst, hs.exists_window hx⟩

/-- A bus that runs on a timetable in the morning, and whenever it can later on. -/
def morningBus : FrequencyPattern where
  trip := ⟨⟨"morning", by decide⟩, ⟨"M", by decide⟩⟩
  service := 1
  mode := .bus
  stops := [⟨⟨"harbour", by decide⟩, 0, 0, .regular, .regular, none, none, true⟩,
    ⟨⟨"brewery", by decide⟩, 300, 360, .regular, .regular, none, none, true⟩]
  windows := [⟨600, 3600, 1200, true, by decide, by decide, by decide⟩,
    ⟨1800, 5400, 900, false, by decide, by decide, by decide⟩]
  bikesAllowed := false
  wheelchair := true
  two_le_length := by decide
  windows_ne_nil := by decide
  ordered := by decide

/-- At 2700 the bus of the timetable at 3000 comes before the one that is expected half a headway
later; at 3100 only the latter is left, and at 6000 none. -/
theorem morningBus_in_order :
    morningBus.nextDeparture? .unbounded 0 2700 ⟨false, false⟩ true = .ok (some 3000) ∧
    morningBus.nextDeparture? .unbounded 0 3100 ⟨false, false⟩ true = .ok (some 3550) ∧
    morningBus.nextDeparture? .unbounded 0 6000 ⟨false, false⟩ true = .ok none ∧
    departureTime (some 3000) ≤ departureTime (some 3550) ∧
    departureTime (some 3550) ≤ departureTime none ∧
    (∃ st, morningBus.stops[0]? = some st ∧
      ∃ w ∈ morningBus.windows, 3550 - st.departure ∈ Set.Ico w.start w.stop) ∧
    (∃ st, morningBus.stops[1]? = some st ∧
      ∃ w ∈ morningBus.windows, 2450 - st.arrival ∈ Set.Ico w.start w.stop) := by
  obtain ⟨departure, -, hnext, -, hmono, -, hdeparture, -⟩ :=
    morningBus.first_in_first_out 0 ⟨false, false⟩ true
  obtain ⟨-, arrival, -, hprevious, -, -, -, harrival⟩ :=
    morningBus.first_in_first_out 1 ⟨false, false⟩ true
  have h₁ : departure 2700 = some 3000 := Except.ok.inj ((hnext 2700).symm.trans (by decide))
  have h₂ : departure 3100 = some 3550 := Except.ok.inj ((hnext 3100).symm.trans (by decide))
  have h₃ : departure 6000 = none := Except.ok.inj ((hnext 6000).symm.trans (by decide))
  have h₄ : arrival 2900 = some 2450 := Except.ok.inj ((hprevious 2900).symm.trans (by decide))
  exact ⟨by decide, by decide, by decide, h₁ ▸ h₂ ▸ hmono _ _ (by decide),
    h₂ ▸ h₃ ▸ hmono _ _ (by decide), (hdeparture 3100 3550 h₂).2, (harrival 2900 2450 h₄).2⟩

end FrequencyPattern

end JourneyPlanner
