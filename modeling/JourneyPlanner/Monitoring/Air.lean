import JourneyPlanner.Monitoring.Station
import JourneyPlanner.Time.Reading

/-!
# Air quality

Stations of air quality measure concentrations of pollutants. Pollution is the worst of them, each
weighted by how harmful it is; allergic exposure is the mean of the weighted allergens.
-/

namespace JourneyPlanner

/-- A pollutant of the air. -/
inductive Pollutant where
  | co
  | so2
  | no2
  | o3
  | pm10
  | pm25
  deriving DecidableEq, Repr

namespace Pollutant

/-- Every pollutant. -/
def all : List Pollutant := [co, so2, no2, o3, pm10, pm25]

theorem mem_all (p : Pollutant) : p ∈ all := by cases p <;> decide

/-- The name of a pollutant in reports. -/
def name : Pollutant → String
  | co => "co"
  | so2 => "so2"
  | no2 => "no2"
  | o3 => "o3"
  | pm10 => "pm10"
  | pm25 => "pm25"

/-- Every pollutant under its name. -/
def words : List (String × Pollutant) := all.map fun p => (p.name, p)

/-- The pollutant of a name. -/
def ofName? (name : String) : Option Pollutant := words.lookup name

theorem ofName?_name (p : Pollutant) : ofName? p.name = some p := by cases p <;> decide

/-- How much a concentration counts as pollution; for carbon monoxide the limit is one of eight
hours. -/
def pollutionWeight : Pollutant → Float
  | co => 6.67466986795
  | no2 => 0.5
  | so2 => 0.8
  | o3 => 0.556
  | pm10 | pm25 => 0.67

/-- How much a concentration counts as allergic exposure. Only coarse particles do. -/
def allergicWeight? : Pollutant → Option Float
  | pm10 => some 1.0
  | _ => none

end Pollutant

/-- A concentration, when and by whom it was measured. -/
structure AirMeasurement where
  pollutant : Pollutant
  value : Float
  updated : Instant
  unit : String
  source : String

/-- A station of air quality. -/
structure AirStation where
  location : String
  city : String
  country : String
  measurements : List AirMeasurement
  point : Point

namespace AirStation

/-- The greatest weighted concentration, if there is any. -/
def pollution? (s : AirStation) : Option Float :=
  match s.measurements.map fun m => m.value * m.pollutant.pollutionWeight with
  | [] => none
  | first :: others => some (others.foldl Weight.greater first)

/-- The weighted concentrations of allergens. -/
def allergens (s : AirStation) : List Float :=
  s.measurements.filterMap fun m => m.pollutant.allergicWeight?.map (m.value * ·)

/-- The mean of the weighted allergens, if there is any. -/
def allergic? (s : AirStation) : Option Float :=
  if s.allergens.isEmpty then none else some (Exposure.mean s.allergens)

/-- Pollution and allergic exposure, as far as they are measured. -/
def readings (s : AirStation) : List Exposure.Reading :=
  (s.pollution?.map (Exposure.Reading.mk .pollution)).toList ++
    (s.allergic?.map (Exposure.Reading.mk .allergic)).toList

end AirStation

instance : Station AirStation where
  label s := s.location
  point s := s.point
  isMeasuring s := !s.measurements.isEmpty
  readings s := s.readings

end JourneyPlanner
