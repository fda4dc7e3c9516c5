import JourneyPlanner.Json.Printer
import JourneyPlanner.Network.Description

/-!
# Writing network descriptions

A description is written as a record with every field, also those that have their defaults.
-/

namespace JourneyPlanner

open JourneyPlanner.Json

/-- The text of an identifier. -/
def Identifier.toValue {kind : Identifier.Kind} (i : Identifier kind) : Value := .ofText i.text

/-- The word of a mode. -/
def Mode.toValue (m : Mode) : Value := .ofText m.word

/-- The record of a calendar. -/
def CalendarDescription.toValue (c : CalendarDescription) : Value :=
  .ofFields [("service", .ofNat c.service), ("start", .ofText c.start), ("end", .ofText c.stop),
    ("weekdays", .ofList .bool c.weekdays), ("added", .ofList .ofText c.added),
    ("removed", .ofList .ofText c.removed)]

/-- The longitude and latitude fields of a point. -/
def Point.toFields (p : Point) : List (String × Value) :=
  [("lon", .ofFloat p.longitude), ("lat", .ofFloat p.latitude)]

/-- The record of a stop. -/
def StopDescription.toValue (s : StopDescription) : Value :=
  .ofFields ([("id", s.id.toValue)] ++ s.point.toFields ++
    [("parent", .ofOption Identifier.toValue s.parent)])

/-- The record of a street vertex. -/
def StreetVertexDescription.toValue (v : StreetVertexDescription) : Value :=
  .ofFields (("label", .ofText v.label) :: v.point.toFields)

/-- The record of a street. -/
def StreetDescription.toValue (s : StreetDescription) : Value :=
  .ofFields [("from", .ofText s.tail), ("to", .ofText s.head), ("name", .ofText s.name),
    ("length_m", .ofOption .ofFloat s.length), ("modes", .ofList Mode.toValue s.modes),
    ("bidirectional", .bool s.bothWays)]

/-- The record of a pattern's stop. -/
def PatternStopDescription.toValue (s : PatternStopDescription) : Value :=
  .ofFields [("stop", s.stop.toValue), ("arrival", .ofText s.arrival),
    ("departure", .ofOption .ofText s.departure), ("pickup_type", .ofNat s.pickupType),
    ("drop_off_type", .ofNat s.dropOffType), ("zone", .ofOption .ofText s.zone),
    ("headsign", .ofOption .ofText s.headsign), ("wheelchair_accessible", .bool s.wheelchair)]

/-- The record of a headway window. -/
def FrequencyDescription.toValue (f : FrequencyDescription) : Value :=
  .ofFields [("start", .ofText f.start), ("end", .ofText f.stop),
    ("headway_secs", .ofInt f.headway), ("exact_times", .bool f.exact)]

/-- The record of a pattern. -/
def PatternDescription.toValue (p : PatternDescription) : Value :=
  .ofFields [("trip", p.trip.toValue), ("route", p.route.toValue),
    ("service", .ofNat p.service), ("mode", .ofOption Mode.toValue p.mode),
    ("route_type", .ofOption .ofNat p.routeType),
    ("bikes_allowed", .bool p.bikesAllowed), ("wheelchair_accessible", .bool p.wheelchair),
    ("stops", .ofList PatternStopDescription.toValue p.stops),
    ("frequencies", .ofList FrequencyDescription.toValue p.frequencies)]

/-- The record of a transfer rule. -/
def TransferDescription.toValue (t : TransferDescription) : Value :=
  .ofFields [("from_stop", t.fromStop.toValue), ("to_stop", t.toStop.toValue),
    ("transfer_type", .ofNat t.transferType),
    ("min_transfer_time", .ofOption .ofNat t.minimumTime),
    ("from_route", .ofOption Identifier.toValue t.fromRoute),
    ("to_route", .ofOption Identifier.toValue t.toRoute),
    ("from_trip", .ofOption Identifier.toValue t.fromTrip),
    ("to_trip", .ofOption Identifier.toValue t.toTrip)]

/-- The record of a timed transfer. -/
def TimedTransferDescription.toValue (t : TimedTransferDescription) : Value :=
  .ofFields [("from", t.fromStop.toValue), ("to", t.toStop.toValue)]

/-- The record of a description. -/
def NetworkDescription.toValue (d : NetworkDescription) : Value :=
  .ofFields [("timezone", .ofText d.timezone),
    ("calendars", .ofList CalendarDescription.toValue d.calendars),
    ("stops", .ofList StopDescription.toValue d.stops),
    ("street_vertices", .ofList StreetVertexDescription.toValue d.streetVertices),
    ("streets", .ofList StreetDescription.toValue d.streets),
    ("patterns", .ofList PatternDescription.toValue d.patterns),
    ("transfers", .ofList TransferDescription.toValue d.transfers),
    ("timed_transfers", .ofList TimedTransferDescription.toValue d.timedTransfers)]

end JourneyPlanner
