/-!
# Time zones

A zone is what a database of time zones says of a name: how far the clocks of the zone are ahead of
UTC, and when they show a local time. The database is a parameter of all that looks zones up.
-/

namespace JourneyPlanner

/-- A time zone. -/
structure Zone where
  name : String
  /-- How far local time is ahead of UTC at an instant, in seconds. -/
  aheadAt : Int → Int
  /-- The earliest instant at which clocks in the zone show a local time, if they ever do. -/
  earliest? : Int → Option Int

/-- A database of time zones, by their names. -/
abbrev ZoneDatabase := String → Option Zone

/-- What any zone of a database keeps to: it is less than a day from UTC, and its clocks show a
local time when they are said to. -/
structure Zone.Lawful (z : Zone) : Prop where
  near : ∀ instant, -86400 < z.aheadAt instant ∧ z.aheadAt instant < 86400
  shows : ∀ localSeconds instant, z.earliest? localSeconds = some instant →
    instant + z.aheadAt instant = localSeconds

end JourneyPlanner
