import JourneyPlanner.Journey.State
import JourneyPlanner.Time.ServiceTime

/-!
# Itineraries

A path is shown as a headline and one line a state: the time on the clocks of the agency, the label
of the vertex, and how the traveller got there.
-/

namespace JourneyPlanner

/-- The time that clocks of the agency show; nothing at an instant without a date. -/
def ServiceCalendar.clock (c : ServiceCalendar) (instant : Int) : String :=
  match c.localDate instant with
  | .ok date => (ServiceTime.mk (instant + c.zone.aheadAt instant - date.day * 86400)).render
  | .error _ => ""

/-- The text with blanks after it up to a width. -/
def padRight (width : Nat) (text : String) : String :=
  text ++ String.ofList (List.replicate (width - text.length) ' ')

/-- How a state was reached: by a mode, and on a route while a vehicle is being ridden. -/
def State.manner {W : Type} (s : State W) : String :=
  match s.backMode, s.trip with
  | some mode, some trip => mode.name ++ " " ++ trip.route.text
  | some mode, none => mode.name
  | none, _ => "start"

namespace Trail

/-- The state that the search started in. -/
def first {W : Type} (t : Trail W) : State W := t.earlier.getLast?.getD t.last

/-- The whole minutes between the two ends. -/
def minutes {W : Type} (k : Integers) (t : Trail W) : Except Overflow Int := do
  return (← t.last.elapsed k t.first.time) / 60

/-- The line for a state. -/
def line (n : Network) (s : State Float) : String :=
  let label := (n.vertices[s.vertex]?.map (·.label)).getD "?"
  "  " ++ n.calendar.clock s.time ++ "  " ++ padRight 24 label ++ " " ++ s.manner ++ "\n"

/-- The headline of the path with a number. -/
def headline (k : Integers) (t : Trail Float) (number : Nat) : Except Overflow String := do
  return "Itinerary " ++ toString number ++ ": weight " ++ Decimal.fixed 0 t.last.weight ++ ", " ++
    toString t.last.boardings ++ " boarding(s), " ++ toString (← t.minutes k) ++ " min\n"

/-- The lines for a path with a number. -/
def itinerary (k : Integers) (n : Network) (t : Trail Float) (number : Nat) :
    Except Overflow String := do
  return (← t.headline k number) ++ String.join (t.states.map (line n))

end Trail

end JourneyPlanner
