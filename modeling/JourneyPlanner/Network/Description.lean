import JourneyPlanner.Network.Builder

/-!
# Network descriptions

A description lists the calendars, stops, streets, patterns and transfers of a network with dates
and times as texts. Building a network follows the description from top to bottom, and the first
thing wrong is the error.
-/

namespace JourneyPlanner

/-- A calendar rule with dates as texts. -/
structure CalendarDescription where
  service : Nat
  start : String
  stop : String
  weekdays : List Bool
  added : List String
  removed : List String

/-- A stop, its place and the station it belongs to. -/
structure StopDescription where
  id : StopId
  point : Point
  parent : Option StopId

/-- A street vertex. -/
structure StreetVertexDescription where
  label : String
  point : Point

/-- A street between two labels. -/
structure StreetDescription where
  tail : String
  head : String
  name : String
  length : Option Float
  modes : List Mode
  bothWays : Bool

/-- A stop of a pattern with times as texts and access as codes. -/
structure PatternStopDescription where
  stop : StopId
  arrival : String
  departure : Option String
  pickupType : Nat
  dropOffType : Nat
  zone : Option String
  headsign : Option String
  wheelchair : Bool

/-- A headway window with times as texts. -/
structure FrequencyDescription where
  start : String
  stop : String
  headway : Int
  exact : Bool

/-- A frequency pattern; the route type counts when no mode is given. -/
structure PatternDescription where
  trip : TripId
  route : RouteId
  service : Nat
  mode : Option Mode
  routeType : Option Nat
  bikesAllowed : Bool
  wheelchair : Bool
  stops : List PatternStopDescription
  frequencies : List FrequencyDescription

/-- A transfer rule with its kind as a code. -/
structure TransferDescription where
  fromStop : StopId
  toStop : StopId
  transferType : Nat
  minimumTime : Option Nat
  fromRoute : Option RouteId
  toRoute : Option RouteId
  fromTrip : Option TripId
  toTrip : Option TripId

/-- A timed transfer between two stops. -/
structure TimedTransferDescription where
  fromStop : StopId
  toStop : StopId

/-- Everything a network is built from. -/
structure NetworkDescription where
  timezone : String
  calendars : List CalendarDescription
  stops : List StopDescription
  streetVertices : List StreetVertexDescription
  streets : List StreetDescription
  patterns : List PatternDescription
  transfers : List TransferDescription
  timedTransfers : List TimedTransferDescription

/-- The date that a text gives. -/
def readDate (text : String) : Except NetworkError Date :=
  match Date.readCompact text with
  | .ok date => .ok date
  | .error fault => .error (.invalid (.badDate text fault))

/-- The seconds that a text gives. -/
def readServiceTime (text : String) : Except NetworkError Int :=
  match ServiceTime.parse text with
  | .ok t => .ok t.seconds
  | .error fault => .error (.time fault)

/-- The access of a code. -/
def readAccess (code : Nat) : Except NetworkError StopAccess :=
  match StopAccess.ofCode? code with
  | some access => .ok access
  | none => .error (.invalid (.unknownAccess code))

/-- The rule that a description gives. -/
def CalendarDescription.rule (c : CalendarDescription) : Except NetworkError CalendarRule := do
  let start ← readDate c.start
  let stop ← readDate c.stop
  let added ← c.added.mapM readDate
  let removed ← c.removed.mapM readDate
  return ⟨c.service, start, stop, c.weekdays, added, removed⟩

/-- The stop that a description gives. -/
def PatternStopDescription.patternStop (s : PatternStopDescription) :
    Except NetworkError PatternStop := do
  let arrival ← readServiceTime s.arrival
  let departure ← match s.departure with
    | some text => readServiceTime text
    | none => pure arrival
  let board ← readAccess s.pickupType
  let alight ← readAccess s.dropOffType
  return ⟨s.stop, arrival, departure, board, alight, s.zone, s.headsign, s.wheelchair⟩

/-- The window that a description gives. -/
def FrequencyDescription.window (f : FrequencyDescription) : Except NetworkError HeadwayWindow := do
  let start ← readServiceTime f.start
  let stop ← readServiceTime f.stop
  (HeadwayWindow.make start stop f.headway f.exact).mapError .pattern

/-- The pattern that a description gives. -/
def PatternDescription.pattern (p : PatternDescription) : Except NetworkError FrequencyPattern := do
  let some mode := p.mode.or (p.routeType.bind Mode.ofRouteType?)
    | throw (.invalid (.noMode p.trip))
  let stops ← p.stops.mapM PatternStopDescription.patternStop
  let windows ← p.frequencies.mapM FrequencyDescription.window
  (FrequencyPattern.make ⟨p.trip, p.route⟩ p.service mode stops windows p.bikesAllowed
    p.wheelchair).mapError .pattern

/-- The rule that a description gives. -/
def TransferDescription.rule (t : TransferDescription) : Except NetworkError TransferRule :=
  match TransferTime.ofCode? t.transferType t.minimumTime with
  | some transfer => .ok ⟨t.fromRoute, t.toRoute, t.fromTrip, t.toTrip, transfer⟩
  | none => .error (.invalid (.unknownTransfer t.transferType))

namespace NetworkDescription

/-- The zone of the agency. -/
def zone (d : NetworkDescription) (zones : ZoneDatabase) : Except NetworkError Zone :=
  match zones d.timezone with
  | some zone => .ok zone
  | none => .error (.invalid (.unknownZone d.timezone))

/-- The calendar of the agency. -/
def calendar (d : NetworkDescription) (zones : ZoneDatabase) :
    Except NetworkError ServiceCalendar := do
  let rules ← d.calendars.mapM CalendarDescription.rule
  (ServiceCalendar.ofRules (← d.zone zones) rules).mapError .calendar

/-- Adds a stop and its station. -/
def addStop (s : StopDescription) : Draft.Step Unit := do
  let _ ← Draft.addStop s.id s.point
  match s.parent with
  | some parent => Draft.setParent s.id parent
  | none => return

/-- Adds a street vertex. -/
def addStreetVertex (v : StreetVertexDescription) : Draft.Step Unit := do
  let _ ← Draft.addStreetVertex v.label v.point

/-- Adds a street between known labels. -/
def addStreet (s : StreetDescription) : Draft.Step Unit := do
  let tail ← Draft.vertexNamed s.tail
  let head ← Draft.vertexNamed s.head
  let _ ← Draft.addStreet tail head s.name s.length (ModeSet.ofList s.modes) s.bothWays

/-- Adds a pattern. -/
def addPattern (p : PatternDescription) : Draft.Step Unit := do
  let pattern ← (p.pattern : Draft.Step FrequencyPattern)
  let _ ← Draft.addPattern pattern

/-- Adds a transfer rule. -/
def addTransfer (t : TransferDescription) : Draft.Step Unit := do
  let rule ← (t.rule : Draft.Step TransferRule)
  Draft.addTransfer t.fromStop t.toStop rule

/-- Adds a timed transfer. -/
def addTimedTransfer (t : TimedTransferDescription) : Draft.Step Unit := do
  let _ ← Draft.addTimedTransfer t.fromStop t.toStop

/-- Adds everything, kind by kind. -/
def addAll (d : NetworkDescription) : Draft.Step Unit := do
  d.stops.forM addStop
  d.streetVertices.forM addStreetVertex
  d.streets.forM addStreet
  d.patterns.forM addPattern
  d.transfers.forM addTransfer
  d.timedTransfers.forM addTimedTransfer

/-- The network that a description gives, with the zones of a database. -/
def build (d : NetworkDescription) (zones : ZoneDatabase) : Except NetworkError Network := do
  let calendar ← d.calendar zones
  match (d.addAll.run.run (Draft.empty calendar)).run with
  | (.ok (), draft) => return draft.toNetwork
  | (.error e, _) => throw e

end NetworkDescription

end JourneyPlanner
