import JourneyPlanner.Monitoring.Station
import JourneyPlanner.Network.Basic

/-!
# Surveys

A survey writes the readings of stations to the streets near them. A street near a station that has
measured something gets one exposure per kind, combined from the readings of all such stations;
every other street keeps what it had.
-/

namespace JourneyPlanner

/-- One exposure per kind that is read at all, in the order of the kinds. -/
def Exposure.ofReadings (readings : List Exposure.Reading) : List Exposure :=
  Exposure.Kind.all.filterMap fun kind =>
    Exposure.combine kind ((readings.filter (·.kind == kind)).map (·.value))

/-- A batch of stations and the distance in metres within which they speak for a street. -/
structure Survey (S : Type) where
  stations : List S
  radius : Float := 100.0

namespace Survey

variable {S : Type} [Station S]

/-- The stations that have measured something and stand near a street edge. -/
def near (s : Survey S) (n : Network) (e : Edge) : List S :=
  s.stations.filter fun station =>
    Station.isMeasuring station && n.isStreetNear (Station.point station) s.radius e

/-- The edges near such stations, with their exposures. -/
def exposures (s : Survey S) (n : Network) : List (EdgeId × List Exposure) :=
  n.edges.toList.filterMap fun e =>
    match s.near n e with
    | [] => none
    | stations => some (e.id, Exposure.ofReadings (stations.flatMap Station.readings))

/-- The number of edges whose exposures the survey sets. -/
def count (s : Survey S) (n : Network) : Nat := (s.exposures n).length

/-- The network with the exposures of the survey. -/
def apply (s : Survey S) (n : Network) : Network :=
  (s.exposures n).foldl (fun n (e, exposures) => n.setExposures e exposures) n

end Survey

end JourneyPlanner
