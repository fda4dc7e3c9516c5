import JourneyPlanner.Arithmetic.Integers
import JourneyPlanner.Time.ServiceTime

/-!
# Headway windows

Between two times of the day a vehicle starts every so many seconds. An exact window is a
timetable; in any other a traveller is taken to wait half a headway.
-/

namespace JourneyPlanner

/-- Vehicles start from `start` on, before `stop`, `headway` seconds apart. -/
structure HeadwayWindow where
  start : Int
  stop : Int
  headway : Int
  exact : Bool
  start_nonneg : 0 ≤ start := by omega
  start_lt_stop : start < stop := by omega
  headway_pos : 0 < headway := by omega
  deriving DecidableEq

namespace HeadwayWindow

/-- The window with these bounds, when it is not empty and has a headway. -/
def make? (start stop headway : Int) (exact : Bool) : Option HeadwayWindow :=
  if h : 0 ≤ start ∧ start < stop ∧ 0 < headway then
    some ⟨start, stop, headway, exact, h.1, h.2.1, h.2.2⟩
  else none

/-- The start of the vehicle of a timetable that so many others run ahead of. -/
def startOf (k : Integers) (w : HeadwayWindow) (vehicles : Int) : Except Overflow Int := do
  k.fit 32 (w.start + (← k.fit 32 (vehicles * w.headway)))

/-- The start of the last vehicle of a timetable. -/
def lastStart (k : Integers) (w : HeadwayWindow) : Except Overflow Int := do
  let last ← k.fit 32 (w.stop - 1)
  w.startOf k ((← k.fit 32 (last - w.start)) / w.headway)

/-- The earliest start at or after `t`. -/
def nextStart (k : Integers) (w : HeadwayWindow) (t : Int) : Except Overflow (Option Int) :=
  if w.stop ≤ t then .ok none
  else if t ≤ w.start then .ok (some w.start)
  else if w.exact then do
    let since ← k.fit 32 (t - w.start)
    let padded ← k.fit 32 (since + w.headway)
    let next ← w.startOf k ((← k.fit 32 (padded - 1)) / w.headway)
    return if next < w.stop then some next else none
  else do
    let later ← k.fit 32 (t + w.headway / 2)
    return some (min later (← k.fit 32 (w.stop - 1)))

/-- The latest start at or before `t`. -/
def previousStart (k : Integers) (w : HeadwayWindow) (t : Int) : Except Overflow (Option Int) :=
  if t < w.start then .ok none
  else if w.exact then do
    let aligned ← w.startOf k ((← k.fit 32 (t - w.start)) / w.headway)
    return some (min aligned (← w.lastStart k))
  else do
    let earlier ← k.fit 32 (t - w.headway / 2)
    return some (max w.start (min earlier (← k.fit 32 (w.stop - 1))))

/-- Whether a vehicle may start at `s`: inside the window, and on the timetable of an exact
one. -/
def Starts (w : HeadwayWindow) (s : Int) : Prop :=
  w.start ≤ s ∧ s < w.stop ∧ (w.exact = true → w.headway ∣ s - w.start)

end HeadwayWindow

end JourneyPlanner
