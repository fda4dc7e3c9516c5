import JourneyPlanner.Time.Date
import JourneyPlanner.Time.Zone

/-!
# Zones by rule

A zone given by the rule for its offset from UTC: a fixed offset, summer time between two
changeovers of every year, or a list of changes.
-/

namespace JourneyPlanner

/-- The clock that the hour of a changeover is read from. -/
inductive Zone.Clock where
  | utc
  | standard
  | summer
  deriving DecidableEq, Repr

/-- A Sunday of a month; the last one when `week` is none, otherwise counted from 0. -/
structure Zone.Changeover where
  month : Nat
  week : Option Nat
  hour : Int
  clock : Zone.Clock
  deriving DecidableEq, Repr

/-- How far local time is ahead of UTC, in seconds. -/
inductive Zone.Rule where
  | fixed (ahead : Int)
  | seasonal (standard saving : Int) (begins ends : Zone.Changeover)
  | changes (initial : Int) (later : List (Int × Int))
  deriving DecidableEq, Repr

namespace Zone

/-- The Sunday that a changeover falls on. -/
def Changeover.date (c : Changeover) (year : Int) : Date :=
  match c.week with
  | some week =>
    let start := Date.dayNumber year c.month 1
    ⟨start + (6 - (Date.mk start).weekday) + 7 * week⟩
  | none =>
    let stop := Date.dayNumber year c.month (Date.daysInMonth year c.month)
    ⟨stop - ((Date.mk stop).weekday + 1) % 7⟩

/-- The instant of a changeover. -/
def Changeover.instant (c : Changeover) (standard saving year : Int) : Int :=
  let ahead := match c.clock with
    | .utc => 0
    | .standard => standard
    | .summer => standard + saving
  (c.date year).day * 86400 + c.hour * 3600 - ahead

/-- The offset after the last change that is not after an instant. -/
def lastChange (initial : Int) (later : List (Int × Int)) (instant : Int) : Int :=
  later.foldl (fun ahead (since, next) => if since ≤ instant then next else ahead) initial

/-- The offset at an instant. -/
def Rule.aheadAt (r : Rule) (instant : Int) : Int :=
  match r with
  | .fixed ahead => ahead
  | .changes initial later => lastChange initial later instant
  | .seasonal standard saving begins ends =>
    let year := (Date.mk ((instant + standard).fdiv 86400)).civil.1
    let start := begins.instant standard saving year
    let stop := ends.instant standard saving year
    let summer :=
      if start < stop then start ≤ instant ∧ instant < stop
      else ¬ (stop ≤ instant ∧ instant < start)
    if summer then standard + saving else standard

/-- Every offset that the rule ever gives. -/
def Rule.offsets (r : Rule) : List Int :=
  match r with
  | .fixed ahead => [ahead]
  | .seasonal standard saving _ _ => [standard + saving, standard]
  | .changes initial later => initial :: later.map Prod.snd

/-- The earliest instant at which clocks show a local time, if they ever do. -/
def Rule.earliest? (r : Rule) (localSeconds : Int) : Option Int :=
  ((r.offsets.map (localSeconds - ·)).filter fun instant =>
    r.aheadAt instant = localSeconds - instant).min?

/-- Summer time of the European Union, so many hours ahead of UTC in winter. -/
def Rule.european (hours : Int) : Rule :=
  .seasonal (hours * 3600) 3600 ⟨3, none, 1, .utc⟩ ⟨10, none, 1, .utc⟩

/-- The zone of a name and a rule. -/
def ofRule (name : String) (r : Rule) : Zone := ⟨name, r.aheadAt, r.earliest?⟩

/-- The database with a rule for each of its names. -/
def database (rules : List (String × Rule)) : ZoneDatabase := fun name =>
  (rules.lookup name).map (ofRule name)

end Zone

end JourneyPlanner
