import JourneyPlanner.Json.Record
import JourneyPlanner.Network.Description

/-!
# Reading network descriptions

A description is one JSON value. What may be left out has a default, and everything else must be
given; identifiers are checked while they are read.
-/

namespace JourneyPlanner

open JourneyPlanner.Json

/-- A string that is an identifier. -/
def asIdentifier (kind : Identifier.Kind) : Reader (Identifier kind) := fun v =>
  (asText v).bind fun text => (Identifier.parse kind text).toOption

/-- The word of a mode. -/
def asMode : Reader Mode := asWord Mode.words

/-- A natural number of 8 bits. -/
def asNat8 : Reader Nat := asNat UInt8.size

/-- A natural number of 16 bits. -/
def asNat16 : Reader Nat := asNat UInt16.size

/-- A natural number of 32 bits. -/
def asNat32 : Reader Nat := asNat UInt32.size

/-- An integer of 32 bits. -/
def asInt32 : Reader Int := asInt Int32.minValue.toInt Int32.maxValue.toInt

/-- Seven booleans. -/
def asWeek : Reader (List Bool) := asVector 7 asBool

/-- A calendar, by default on every day of the week. -/
def asCalendar : Reader CalendarDescription := fun v => do
  let r ← Record.read? ["service", "start", "end", "weekdays", "added", "removed"] v
  return {
    service := ← r.required "service" asNat32
    start := ← r.required "start" asText
    stop := ← r.required "end" asText
    weekdays := ← r.withDefault "weekdays" asWeek CalendarRule.everyDay
    added := ← r.withDefault "added" (asList asText) []
    removed := ← r.withDefault "removed" (asList asText) [] }

/-- The longitude and latitude fields of a record. -/
def pointFields (r : Record) : Option Point := do
  let longitude ← r.required "lon" asFloat
  let latitude ← r.required "lat" asFloat
  return ⟨longitude, latitude⟩

/-- A stop, by default in no station. -/
def asStop : Reader StopDescription := fun v => do
  let r ← Record.read? ["id", "lon", "lat", "parent"] v
  return {
    id := ← r.required "id" (asIdentifier .stop)
    point := ← pointFields r
    parent := ← r.withDefault "parent" (asOption (asIdentifier .stop)) none }

/-- A street vertex. -/
def asStreetVertex : Reader StreetVertexDescription := fun v => do
  let r ← Record.read? ["label", "lon", "lat"] v
  return { label := ← r.required "label" asText, point := ← pointFields r }

/-- A street, by default nameless, as long as its ends are apart, and open both ways to walkers
and cyclists. -/
def asStreet : Reader StreetDescription := fun v => do
  let r ← Record.read? ["from", "to", "name", "length_m", "modes", "bidirectional"] v
  return {
    tail := ← r.required "from" asText
    head := ← r.required "to" asText
    name := ← r.withDefault "name" asText ""
    length := ← r.withDefault "length_m" (asOption asFloat) none
    modes := ← r.withDefault "modes" (asList asMode) [.walk, .bicycle]
    bothWays := ← r.withDefault "bidirectional" asBool true }

/-- A stop of a pattern, by default left at once and open to everybody. -/
def asPatternStop : Reader PatternStopDescription := fun v => do
  let r ← Record.read? ["stop", "arrival", "departure", "pickup_type", "drop_off_type", "zone",
    "headsign", "wheelchair_accessible"] v
  return {
    stop := ← r.required "stop" (asIdentifier .stop)
    arrival := ← r.required "arrival" asText
    departure := ← r.withDefault "departure" (asOption asText) none
    pickupType := ← r.withDefault "pickup_type" asNat8 0
    dropOffType := ← r.withDefault "drop_off_type" asNat8 0
    zone := ← r.withDefault "zone" (asOption asText) none
    headsign := ← r.withDefault "headsign" (asOption asText) none
    wheelchair := ← r.withDefault "wheelchair_accessible" asBool true }

/-- A headway window, by default not exact. -/
def asFrequency : Reader FrequencyDescription := fun v => do
  let r ← Record.read? ["start", "end", "headway_secs", "exact_times"] v
  return {
    start := ← r.required "start" asText
    stop := ← r.required "end" asText
    headway := ← r.required "headway_secs" asInt32
    exact := ← r.withDefault "exact_times" asBool false }

/-- A pattern, by default closed to bicycles and open to wheelchairs. -/
def asPattern : Reader PatternDescription := fun v => do
  let r ← Record.read? ["trip", "route", "service", "mode", "route_type", "bikes_allowed",
    "wheelchair_accessible", "stops", "frequencies"] v
  return {
    trip := ← r.required "trip" (asIdentifier .trip)
    route := ← r.required "route" (asIdentifier .route)
    service := ← r.required "service" asNat32
    mode := ← r.withDefault "mode" (asOption asMode) none
    routeType := ← r.withDefault "route_type" (asOption asNat16) none
    bikesAllowed := ← r.withDefault "bikes_allowed" asBool false
    wheelchair := ← r.withDefault "wheelchair_accessible" asBool true
    stops := ← r.required "stops" (asList asPatternStop)
    frequencies := ← r.required "frequencies" (asList asFrequency) }

/-- A transfer rule, by default for all routes and trips. -/
def asTransfer : Reader TransferDescription := fun v => do
  let r ← Record.read? ["from_stop", "to_stop", "transfer_type", "min_transfer_time", "from_route",
    "to_route", "from_trip", "to_trip"] v
  return {
    fromStop := ← r.required "from_stop" (asIdentifier .stop)
    toStop := ← r.required "to_stop" (asIdentifier .stop)
    transferType := ← r.required "transfer_type" asNat8
    minimumTime := ← r.withDefault "min_transfer_time" (asOption asNat32) none
    fromRoute := ← r.withDefault "from_route" (asOption (asIdentifier .route)) none
    toRoute := ← r.withDefault "to_route" (asOption (asIdentifier .route)) none
    fromTrip := ← r.withDefault "from_trip" (asOption (asIdentifier .trip)) none
    toTrip := ← r.withDefault "to_trip" (asOption (asIdentifier .trip)) none }

/-- A timed transfer. -/
def asTimedTransfer : Reader TimedTransferDescription := fun v => do
  let r ← Record.read? ["from", "to"] v
  return {
    fromStop := ← r.required "from" (asIdentifier .stop)
    toStop := ← r.required "to" (asIdentifier .stop) }

/-- A description, of which only the time zone must be given. -/
def asNetwork : Reader NetworkDescription := fun v => do
  let r ← Record.read? ["timezone", "calendars", "stops", "street_vertices", "streets", "patterns",
    "transfers", "timed_transfers"] v
  return {
    timezone := ← r.required "timezone" asText
    calendars := ← r.withDefault "calendars" (asList asCalendar) []
    stops := ← r.withDefault "stops" (asList asStop) []
    streetVertices := ← r.withDefault "street_vertices" (asList asStreetVertex) []
    streets := ← r.withDefault "streets" (asList asStreet) []
    patterns := ← r.withDefault "patterns" (asList asPattern) []
    transfers := ← r.withDefault "transfers" (asList asTransfer) []
    timedTransfers := ← r.withDefault "timed_transfers" (asList asTimedTransfer) [] }

/-- The description that a value holds. -/
def NetworkDescription.ofValue (v : Value) : Except NetworkError NetworkDescription :=
  match asNetwork v with
  | some d => .ok d
  | none => .error .malformed

/-- The description that a text holds. -/
def NetworkDescription.ofText (text : String) : Except NetworkError NetworkDescription :=
  match parse? (Text.utf8Octets text) with
  | some v => ofValue v
  | none => .error .malformed

/-- The description in a file, none when there is no file; its content must be UTF-8. -/
def NetworkDescription.ofFile (content : Option ByteArray) :
    Except NetworkError NetworkDescription :=
  match content with
  | none => .error .unreadable
  | some bytes =>
    match String.fromUTF8? bytes with
    | some text => ofText text
    | none => .error .unreadable

end JourneyPlanner
