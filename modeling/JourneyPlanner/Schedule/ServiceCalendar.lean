import JourneyPlanner.Identifier
import JourneyPlanner.Time.Date
import JourneyPlanner.Time.Zone
import JourneyPlanner.Arithmetic.Integers

/-!
# Service calendars

A calendar is a list of weekly rules with exceptions, in the time zone of one agency. Whether a
service runs on a date is found by replaying the rules of the service in order: a rule starts the
service on the dates it includes and stops it on the dates it removes.
-/

namespace JourneyPlanner

/-- A weekly pattern between two dates, with dates added and removed. -/
structure CalendarRule where
  service : ServiceId
  start : Date
  stop : Date
  /-- Whether the service runs on each day of the week, Monday first. -/
  weekdays : List Bool
  added : List Date
  removed : List Date
  deriving DecidableEq, Repr

/-- Why a calendar cannot be built, or has no answer. -/
inductive CalendarError where
  | invalidRange (service : ServiceId) (start stop : Date)
  | rangeTooLong (service : ServiceId) (days : Int)
  | noLocalNoon (date : Date)
  | instantOutOfRange (instant : Int)
  deriving DecidableEq, Repr

namespace CalendarRule

/-- The longest range of a rule, in days: three years. -/
def maxDays : Int := 3 * 366

/-- The number of days from the start to the stop, both included. -/
def days (r : CalendarRule) : Int := r.stop.day - r.start.day + 1

/-- What is wrong with the range of a rule. -/
def fault? (r : CalendarRule) : Option CalendarError :=
  if r.stop.day < r.start.day then some (.invalidRange r.service r.start r.stop)
  else if maxDays < r.days then some (.rangeTooLong r.service r.days)
  else none

/-- Whether the weekly pattern covers the date. A week goes on to the next day, so the pattern
does not cover the last date of all, which has none. -/
def isWeekly (r : CalendarRule) (d : Date) : Bool :=
  decide (r.start.day ≤ d.day) && decide (d.day ≤ r.stop.day) && decide (d ≠ Date.last) &&
    (r.weekdays[d.weekday]?).getD false

/-- Whether the rule starts its service on the date. -/
def includes (r : CalendarRule) (d : Date) : Bool := r.isWeekly d || r.added.contains d

/-- Whether the service runs on the date after the rule, given whether it ran before. -/
def apply (r : CalendarRule) (d : Date) (running : Bool) : Bool :=
  (running || r.includes d) && !r.removed.contains d

/-- The weekly pattern of a service that runs every day. -/
def everyDay : List Bool := List.replicate 7 true

end CalendarRule

/-- The message for an error of the calendar. -/
def CalendarError.message : CalendarError → String
  | .invalidRange service start stop =>
    "calendar rule for " ++ service.render ++ " ends (" ++ stop.render ++
      ") before it starts (" ++ start.render ++ ")"
  | .rangeTooLong service days =>
    "calendar rule for " ++ service.render ++ " spans " ++ toString days ++ " days (limit " ++
      toString CalendarRule.maxDays ++ ")"
  | .noLocalNoon date => "no local noon on " ++ date.render ++ " in the agency time zone"
  | .instantOutOfRange instant => "instant " ++ toString instant ++ " is out of range"

/-- Which services run on which dates. -/
structure ServiceCalendar where
  zone : Zone
  rules : List CalendarRule

namespace ServiceCalendar

/-- The calendar of these rules; the first rule with a bad range is refused. -/
def ofRules (zone : Zone) (rules : List CalendarRule) : Except CalendarError ServiceCalendar :=
  match rules.findSome? CalendarRule.fault? with
  | some e => .error e
  | none => .ok ⟨zone, rules⟩

/-- Whether a service runs on a date. -/
def runs (c : ServiceCalendar) (service : ServiceId) (d : Date) : Bool :=
  (c.rules.filter (·.service == service)).foldl (fun running r => r.apply d running) false

/-- The services of the rules, each once, in ascending order. -/
def services (c : ServiceCalendar) : List ServiceId :=
  (c.rules.map (·.service)).eraseDups.mergeSort (fun a b => decide (a ≤ b))

/-- The services that run on a date, in ascending order. -/
def servicesOn (c : ServiceCalendar) (d : Date) : List ServiceId :=
  c.services.filter (c.runs · d)

/-- Every date on which some rule starts its service. -/
def candidateDates (c : ServiceCalendar) : List Date :=
  c.rules.flatMap fun r => Date.range r.start r.stop ++ r.added

/-- The dates with any service. -/
def activeDates (c : ServiceCalendar) : List Date :=
  c.candidateDates.filter fun d => !(c.servicesOn d).isEmpty

/-- The first and the last date with any service. -/
def dateRange? (c : ServiceCalendar) : Option (Date × Date) :=
  match (c.activeDates.map (·.day)).min?, (c.activeDates.map (·.day)).max? with
  | some first, some last => some (⟨first⟩, ⟨last⟩)
  | _, _ => none

/-- The date that clocks of the agency show at an instant whose date in UTC exists. -/
def localDate (c : ServiceCalendar) (instant : Int) : Except CalendarError Date :=
  let utc := instant.fdiv 86400
  if Date.first.day ≤ utc ∧ utc ≤ Date.last.day then
    .ok ⟨(instant + c.zone.aheadAt instant).fdiv 86400⟩
  else .error (.instantOutOfRange instant)

end ServiceCalendar

end JourneyPlanner
