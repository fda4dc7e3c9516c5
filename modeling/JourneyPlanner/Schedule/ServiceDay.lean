import JourneyPlanner.Schedule.ServiceCalendar

/-!
# Service days

Times of a service day count from twelve hours before local noon, which is midnight except where
the clocks change. A search looks at the day of its reference time and the days on either side.
-/

namespace JourneyPlanner

/-- A date, the instant its service times count from, and the services that run. -/
structure ServiceDay where
  date : Date
  midnight : Int
  running : List ServiceId
  deriving DecidableEq, Repr

namespace ServiceDay

/-- Whether a service runs on the day. -/
def runs (d : ServiceDay) (service : ServiceId) : Bool := d.running.contains service

/-- Whether two days have the same date and midnight. -/
def same (a b : ServiceDay) : Bool := a.date == b.date && a.midnight == b.midnight

/-- The seconds from midnight to an instant; negative before the day starts. -/
def sinceMidnight (k : Integers) (d : ServiceDay) (instant : Int) : Except Overflow Int :=
  k.fit 64 (instant - d.midnight)

/-- The instant of a service time on the day. -/
def instantOf (k : Integers) (d : ServiceDay) (seconds : Int) : Except Overflow Int :=
  k.fit 64 (d.midnight + seconds)

end ServiceDay

/-- The service day of a date; a zone can skip the noon of a date. -/
def ServiceCalendar.serviceDay (c : ServiceCalendar) (d : Date) : Except CalendarError ServiceDay :=
  match c.zone.earliest? (d.day * 86400 + 43200) with
  | some noon => .ok ⟨d, noon - 43200, c.servicesOn d⟩
  | none => .error (.noLocalNoon d)

/-- Three consecutive service days. -/
structure ServiceDays where
  yesterday : ServiceDay
  today : ServiceDay
  tomorrow : ServiceDay
  deriving DecidableEq, Repr

namespace ServiceDays

/-- The days in order. -/
def toList (w : ServiceDays) : List ServiceDay := [w.yesterday, w.today, w.tomorrow]

/-- Whether a service runs on any of the days. -/
def anyRunning (w : ServiceDays) (service : ServiceId) : Bool :=
  w.toList.any (·.runs service)

end ServiceDays

/-- The local date of an instant and the days around it. -/
def ServiceCalendar.serviceDays (c : ServiceCalendar) (instant : Int) :
    Except CalendarError ServiceDays := do
  let today ← c.localDate instant
  let some yesterday := today.previous? | throw (.noLocalNoon today)
  let some tomorrow := today.next? | throw (.noLocalNoon today)
  return ⟨← c.serviceDay yesterday, ← c.serviceDay today, ← c.serviceDay tomorrow⟩

end JourneyPlanner
