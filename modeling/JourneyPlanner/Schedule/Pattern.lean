import JourneyPlanner.Identifier
import JourneyPlanner.Mode
import JourneyPlanner.Schedule.Headway

/-!
# Frequency patterns

A pattern is a sequence of stops that one trip serves again and again, at the headways of its
windows. Stop times are offsets from the start of a run and never go back along the pattern.
-/

namespace JourneyPlanner

/-- How a traveller gets on or off at a stop. -/
inductive StopAccess where
  | regular
  | notAvailable
  | mustPhone
  | coordinateWithDriver
  deriving DecidableEq, Repr

namespace StopAccess

/-- The access of a code of the feed. -/
def ofCode? : Nat → Option StopAccess
  | 0 => some regular
  | 1 => some notAvailable
  | 2 => some mustPhone
  | 3 => some coordinateWithDriver
  | _ => none

/-- Whether the stop can be used at all. -/
def isAvailable (a : StopAccess) : Bool := a != notAvailable

end StopAccess

/-- A stop of a pattern; `arrival` and `departure` count from the start of the run. -/
structure PatternStop where
  stop : StopId
  arrival : Int
  departure : Int
  board : StopAccess
  alight : StopAccess
  zone : Option String
  headsign : Option String
  wheelchair : Bool
  deriving DecidableEq

/-- Why a pattern cannot be built. -/
inductive PatternError where
  | tooFewStops (trip : TripId)
  | noWindows (trip : TripId)
  | decreasingTimes (trip : TripId) (index : Nat)
  | invalidWindow (start stop headway : Int)
  deriving DecidableEq

/-- The message for an error of a pattern. -/
def PatternError.message : PatternError → String
  | .tooFewStops trip => "pattern for trip " ++ trip.text ++ " needs at least two stops"
  | .noWindows trip => "pattern for trip " ++ trip.text ++ " has no headway windows"
  | .decreasingTimes trip index =>
    "pattern for trip " ++ trip.text ++ " has decreasing times at stop index " ++ toString index
  | .invalidWindow start stop headway =>
    "invalid headway window " ++ (ServiceTime.mk start).render ++ ".." ++
      (ServiceTime.mk stop).render ++ " every " ++ toString headway ++ "s"

/-- The window with these bounds. -/
def HeadwayWindow.make (start stop headway : Int) (exact : Bool) :
    Except PatternError HeadwayWindow :=
  match make? start stop headway exact with
  | some w => .ok w
  | none => .error (.invalidWindow start stop headway)

/-- The position of the first stop that is left before it is reached, or reached before the stop
ahead of it is left. -/
def firstDecrease? (stops : List PatternStop) : Option Nat :=
  go none 0 stops
where
  /-- Looks at the stops from position `index` on, after a departure at `previous`. -/
  go (previous : Option Int) (index : Nat) : List PatternStop → Option Nat
    | [] => none
    | s :: rest =>
      if (previous.any fun p => decide (s.arrival < p)) || decide (s.departure < s.arrival) then
        some index
      else go (some s.departure) (index + 1) rest

/-- A stop sequence served at regular headways. -/
structure FrequencyPattern where
  trip : Trip
  service : ServiceId
  mode : Mode
  stops : List PatternStop
  windows : List HeadwayWindow
  bikesAllowed : Bool
  wheelchair : Bool
  two_le_length : 2 ≤ stops.length
  windows_ne_nil : windows ≠ []
  ordered : firstDecrease? stops = none

/-- What a traveller needs of a vehicle and its stops. -/
structure Needs where
  wheelchair : Bool
  bicycle : Bool
  deriving DecidableEq, Repr

namespace FrequencyPattern

/-- The pattern of these stops and windows. -/
def make (trip : Trip) (service : ServiceId) (mode : Mode) (stops : List PatternStop)
    (windows : List HeadwayWindow) (bikesAllowed wheelchair : Bool) :
    Except PatternError FrequencyPattern :=
  if hs : 2 ≤ stops.length then
    if hw : windows ≠ [] then
      match ho : firstDecrease? stops with
      | none => .ok ⟨trip, service, mode, stops, windows, bikesAllowed, wheelchair, hs, hw, ho⟩
      | some index => .error (.decreasingTimes trip.id index)
    else .error (.noWindows trip.id)
  else .error (.tooFewStops trip.id)

variable (p : FrequencyPattern)

/-- How travellers get on at a position. -/
def boardAccess (i : Nat) : StopAccess := (p.stops[i]?.map (·.board)).getD .notAvailable

/-- How travellers get off at a position. -/
def alightAccess (i : Nat) : StopAccess := (p.stops[i]?.map (·.alight)).getD .notAvailable

/-- The fare zone at a position. -/
def zoneAt (i : Nat) : Option String := p.stops[i]?.bind (·.zone)

/-- The headsign at a position. -/
def headsignAt (i : Nat) : Option String := p.stops[i]?.bind (·.headsign)

/-- The seconds from the departure at one position to the arrival at a later one. They are counted
before the positions are compared. -/
def rideTime? (k : Integers) (i j : Nat) : Except Overflow (Option Int) :=
  match p.stops[i]?, p.stops[j]? with
  | some a, some b => do
    let seconds ← k.fit 32 (b.arrival - a.departure)
    return if i < j then some seconds else none
  | _, _ => .ok none

/-- The seconds that the vehicle waits at a position. -/
def dwellTime? (k : Integers) (i : Nat) : Except Overflow (Option Int) :=
  p.stops[i]?.mapM fun s => k.fit 32 (s.departure - s.arrival)

/-- Whether the vehicle and the stop meet the traveller's needs. -/
def isUsable (s : PatternStop) (needs : Needs) : Bool :=
  (!needs.wheelchair || (p.wheelchair && s.wheelchair)) && (!needs.bicycle || p.bikesAllowed)

/-- The earliest departure from a position at or after `t`. With `checked`, travellers must be
able to get on. -/
def nextDeparture? (k : Integers) (i : Nat) (t : Int) (needs : Needs) (checked : Bool) :
    Except Overflow (Option Int) :=
  match p.stops[i]? with
  | none => .ok none
  | some s =>
    if !p.isUsable s needs || (checked && !s.board.isAvailable) then .ok none
    else do
      let starts ← p.windows.mapM fun w => do w.nextStart k (← k.fit 32 (t - s.departure))
      (starts.filterMap id).min?.mapM fun start => k.fit 32 (start + s.departure)

/-- The latest arrival at a position at or before `t`. With `checked`, travellers must be able to
get off. -/
def previousArrival? (k : Integers) (i : Nat) (t : Int) (needs : Needs) (checked : Bool) :
    Except Overflow (Option Int) :=
  match p.stops[i]? with
  | none => .ok none
  | some s =>
    if !p.isUsable s needs || (checked && !s.alight.isAvailable) then .ok none
    else do
      let starts ← p.windows.mapM fun w => do w.previousStart k (← k.fit 32 (t - s.arrival))
      (starts.filterMap id).max?.mapM fun start => k.fit 32 (start + s.arrival)

end FrequencyPattern

end JourneyPlanner
