import JourneyPlanner.Monitoring.Station
import JourneyPlanner.Time.Date

/-!
# Noise

Stations of an acoustic network report levels in decibels, for each of three periods of the day and
in six statistics. Noise is the mean of all levels of a station.
-/

namespace JourneyPlanner

/-- A statistic of the sound level: the equivalent continuous level, and the levels that are
exceeded in 1, 10, 50, 90 and 99 percent of the time. -/
inductive NoiseStatistic where
  | laeq
  | l01
  | l10
  | l50
  | l90
  | l99
  deriving DecidableEq, Repr

namespace NoiseStatistic

/-- Every statistic, in the order of the columns of a report. -/
def all : List NoiseStatistic := [laeq, l01, l10, l50, l90, l99]

theorem mem_all (s : NoiseStatistic) : s ∈ all := by cases s <;> decide

/-- The name of a statistic. -/
def name : NoiseStatistic → String
  | laeq => "LAeq"
  | l01 => "L01"
  | l10 => "L10"
  | l50 => "L50"
  | l90 => "L90"
  | l99 => "L99"

end NoiseStatistic

/-- A part of the day that levels are reported for. -/
inductive DayPeriod where
  /-- From 7 to 19 hours. -/
  | day
  /-- From 19 to 23 hours. -/
  | evening
  /-- From 23 to 7 hours. -/
  | night
  deriving DecidableEq, Repr

namespace DayPeriod

/-- The period of an hour of the clock. -/
def ofHour (hour : Nat) : DayPeriod :=
  if 7 ≤ hour ∧ hour < 19 then day else if 19 ≤ hour ∧ hour < 23 then evening else night

/-- The period of a code in a report. -/
def ofCode? (code : String) : Option DayPeriod :=
  [("D", day), ("T", evening), ("N", night)].lookup code

/-- The hour that the levels of a period are stamped with. -/
def readingHour : DayPeriod → Nat
  | day => 13
  | evening => 21
  | night => 3

theorem ofHour_readingHour (p : DayPeriod) : ofHour p.readingHour = p := by cases p <;> decide

/-- The time of day that the levels of a period are stamped with. -/
def readingTime (p : DayPeriod) : String := Decimal.padded 2 p.readingHour ++ ":00:00"

end DayPeriod

/-- A level of noise, for one period of one day. -/
structure NoiseMeasurement where
  statistic : NoiseStatistic
  /-- The level in decibels. -/
  value : Float
  date : Date
  period : DayPeriod

namespace NoiseMeasurement

/-- The unit of all levels. -/
def unit : String := "db"

/-- The publisher of the levels. -/
def source : String := "Ayuntamiento de Madrid"

/-- The local time that the level is stamped with. -/
def updated (m : NoiseMeasurement) : String := m.date.render ++ " " ++ m.period.readingTime

end NoiseMeasurement

/-- A station of the acoustic network. -/
structure NoiseStation where
  id : String
  location : String
  measurements : List NoiseMeasurement
  point : Point

namespace NoiseStation

/-- The city of every station. -/
def city : String := "Madrid"

/-- The country of every station. -/
def country : String := "Spain"

/-- The levels measured. -/
def levels (s : NoiseStation) : List Float := s.measurements.map (·.value)

/-- The mean level, if any is measured. -/
def readings (s : NoiseStation) : List Exposure.Reading :=
  if s.levels.isEmpty then [] else [⟨.noise, Exposure.mean s.levels⟩]

end NoiseStation

instance : Station NoiseStation where
  label s := s.id
  point s := s.point
  isMeasuring s := !s.measurements.isEmpty
  readings s := s.readings

end JourneyPlanner
