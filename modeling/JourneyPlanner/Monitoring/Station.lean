import JourneyPlanner.Exposure.Basic
import JourneyPlanner.Geometry

/-!
# Monitoring stations

A station stands at a point and gives one value for each kind of exposure that its measurements
cover.
-/

namespace JourneyPlanner

/-- What makes a type one of stations. -/
class Station (S : Type) where
  /-- The name of the station. -/
  label : S → String
  /-- Where the station stands. -/
  point : S → Point
  /-- Whether the station has measured anything. -/
  isMeasuring : S → Bool
  /-- The values of the station, at most one of a kind. -/
  readings : S → List Exposure.Reading

end JourneyPlanner
