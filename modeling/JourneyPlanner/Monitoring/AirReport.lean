import JourneyPlanner.Json.Record
import JourneyPlanner.Monitoring.Air

/-!
# Reports of air quality

A report is a JSON record whose results are locations with their latest measurements. Locations
without coordinates are left out, and so are measurements that are incomplete, of an unknown
pollutant, or not newer than a cut-off.
-/

namespace JourneyPlanner

open JourneyPlanner.Json

/-- A measurement of a report, of which anything may be missing. -/
structure ReportedMeasurement where
  parameter : Option String
  value : Option Float
  updated : Option String
  unit : String
  source : String

/-- A location of a report. -/
structure ReportedLocation where
  location : String
  city : String
  country : String
  measurements : List ReportedMeasurement
  point : Option Point

/-- A measurement; its parameter, value and time may be null. -/
def asReportedMeasurement : Reader ReportedMeasurement := fun v => do
  let r ← Record.read? ["parameter", "value", "lastUpdated", "unit", "sourceName"] v
  return {
    parameter := ← r.nullable "parameter" asText
    value := ← r.nullable "value" asFloat
    updated := ← r.nullable "lastUpdated" asText
    unit := ← r.withDefault "unit" asText ""
    source := ← r.withDefault "sourceName" asText "" }

/-- A pair of coordinates. -/
def asCoordinates : Reader Point := fun v => do
  let r ← Record.read? ["latitude", "longitude"] v
  let latitude ← r.required "latitude" asFloat
  let longitude ← r.required "longitude" asFloat
  return ⟨longitude, latitude⟩

/-- A location; its coordinates may be null. -/
def asReportedLocation : Reader ReportedLocation := fun v => do
  let r ← Record.read? ["location", "city", "country", "measurements", "coordinates"] v
  return {
    location := ← r.withDefault "location" asText ""
    city := ← r.withDefault "city" asText ""
    country := ← r.withDefault "country" asText ""
    measurements := ← r.withDefault "measurements" (asList asReportedMeasurement) []
    point := ← r.nullable "coordinates" asCoordinates }

/-- The locations of a report. -/
def asAirReport : Reader (List ReportedLocation) := fun v => do
  let r ← Record.read? ["results"] v
  r.required "results" (asList asReportedLocation)

/-- The measurement, if it is complete, of a known pollutant, and newer than the cut-off. -/
def ReportedMeasurement.measurement? (cutOff : Instant) (m : ReportedMeasurement) :
    Option AirMeasurement := do
  let pollutant ← Pollutant.ofName? (← m.parameter)
  let value ← m.value
  let updated ← (Instant.parse (← m.updated)).toOption
  if cutOff.before updated then some ⟨pollutant, value, updated, m.unit, m.source⟩ else none

/-- The station at a location with coordinates. -/
def ReportedLocation.station? (cutOff : Instant) (l : ReportedLocation) : Option AirStation :=
  l.point.map fun point =>
    ⟨l.location, l.city, l.country, l.measurements.filterMap (·.measurement? cutOff), point⟩

/-- The stations of a report in a file, none when it cannot be read. -/
def AirStation.ofReport? (cutOff : Instant) (octets : List Char) : Option (List AirStation) :=
  ((parse? octets).bind asAirReport).map fun locations =>
    locations.filterMap (·.station? cutOff)

end JourneyPlanner
