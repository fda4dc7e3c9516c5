import Std.Data.TreeMap
import JourneyPlanner.Decimal.Numeral
import JourneyPlanner.Monitoring.Noise
import JourneyPlanner.Text.Blank
import JourneyPlanner.Text.Delimited
import JourneyPlanner.Text.Utf8

/-!
# Reports of noise

Two tables make a report. The first gives the position of each station, after two records that say
nothing: number, street, detail, longitude and latitude, the coordinates in degrees, minutes and
seconds. The second gives daily levels: number, year, month, day, the code of the period, and the
six statistics. Stations are known by their number, and of the levels only those of one period are
kept.
-/

namespace JourneyPlanner

open JourneyPlanner.Text

/-- The stations of an acoustic network under their numbers. -/
abbrev NoiseNetwork := Std.TreeMap Nat NoiseStation

namespace NoiseReport

/-- The number of a station: ASCII digits between blanks, of at most 32 bits. -/
def stationNumber? (text : String) : Option Nat :=
  let digits := trim text.toList
  if digits.isEmpty || !digits.all isDigit then none
  else
    let number := ofDigits (digits.map digitValue)
    if number < UInt32.size then some number else none

/-! ## Positions -/

/-- Positions are divided by semicolons and have no quotes. -/
def positionFormat : Delimited.Format := ⟨';', none⟩

/-- The text of a field: UTF-8, or one character an octet. -/
def positionText (octets : List Char) : String :=
  (ofUtf8? octets).getD (String.ofList octets)

/-- Whether a character stands between the parts of a coordinate. -/
def isCoordinateMark (c : Char) : Bool :=
  c == 'º' || c == '°' || c == '\'' || c == '"' || c == ' '

/-- The parts of a coordinate; a comma is a decimal point. -/
def coordinateParts (text : String) : List (List Char) :=
  let pointed := text.toList.map fun c => if c = ',' then '.' else c
  (fields isCoordinateMark pointed).filter fun part => !part.isEmpty

/-- Whether a part names the western or the southern hemisphere. -/
def isNegativeHemisphere (part : List Char) : Bool :=
  part == ['O'] || part == ['W'] || part == ['S']

/-- Degrees, minutes and seconds, and a letter for the hemisphere; west and south are negative. -/
def coordinate? (text : String) : Option Float :=
  match coordinateParts text with
  | degrees :: minutes :: seconds :: rest => do
    let degrees ← Decimal.readFloat? degrees
    let minutes ← Decimal.readFloat? minutes
    let seconds ← Decimal.readFloat? seconds
    let sign := if rest.head?.any isNegativeHemisphere then -1.0 else 1.0
    return (degrees + (minutes * 60.0 + seconds) / 3600.0) * sign
  | _ => none

/-- The number and the station of a record, when its first five fields are readable. -/
def position? (record : List String) : Option (Nat × NoiseStation) :=
  match record with
  | id :: street :: detail :: longitude :: latitude :: _ => do
    let number ← stationNumber? id
    let longitude ← coordinate? longitude
    let latitude ← coordinate? latitude
    return (number, {
      id := String.ofList (trim id.toList)
      location := street ++ " " ++ detail
      measurements := []
      point := ⟨longitude, latitude⟩ })
  | _ => none

/-- The stations placed by records of positions; a later record replaces an earlier one. -/
def placed (records : List (List String)) : NoiseNetwork :=
  (records.drop 2).foldl (fun stations record =>
    match position? record with
    | some (number, station) => stations.insert number station
    | none => stations) ∅

/-! ## Levels -/

/-- Levels are divided by commas and may stand between quotes. -/
def levelFormat : Delimited.Format := ⟨',', some '"'⟩

/-- A field of a record without blanks around it. -/
def trimmed? (record : List String) (column : Nat) : Option (List Char) :=
  record[column]?.map fun text => trim text.toList

/-- The date in the second to fourth field. -/
def levelDate? (record : List String) : Option Date := do
  let year ← Decimal.readInt? (← trimmed? record 1)
  let month ← Decimal.readNat? (← trimmed? record 2)
  let day ← Decimal.readNat? (← trimmed? record 3)
  Date.ofCivil? year month day

/-- The levels of a record, when its date and all six of them are readable. -/
def levels? (period : DayPeriod) (record : List String) : Option (List NoiseMeasurement) := do
  let date ← levelDate? record
  NoiseStatistic.all.zipIdx.mapM fun (statistic, i) => do
    let value ← Decimal.readFloat? (← trimmed? record (5 + i))
    return ⟨statistic, value, date, period⟩

/-- The station number and the levels of a record for the period. -/
def levelsFor? (period : DayPeriod) (record : List String) :
    Option (Nat × List NoiseMeasurement) := do
  let code ← record[4]?
  if DayPeriod.ofCode? code ≠ some period then none
  else
    let number ← stationNumber? (← record[0]?)
    let levels ← levels? period record
    return (number, levels)

/-- The stations with the levels of one record added. -/
def addLevels (period : DayPeriod) (stations : NoiseNetwork) (record : List String) :
    NoiseNetwork :=
  match levelsFor? period record with
  | none => stations
  | some (number, levels) =>
    match stations[number]? with
    | none => stations
    | some station =>
      stations.insert number { station with measurements := station.measurements ++ levels }

/-- The stations of the records of positions, with the levels of the records for the period. -/
def stations (period : DayPeriod) (positions levels : List (List String)) : NoiseNetwork :=
  levels.foldl (addLevels period) (placed positions)

end NoiseReport

/-- The stations of a report in two files, in the order of their numbers; none when a level is not
UTF-8. -/
def NoiseStation.ofReport? (period : DayPeriod) (positions levels : List Char) :
    Option (List NoiseStation) := do
  let positions := (Delimited.records NoiseReport.positionFormat positions).map
    (·.map NoiseReport.positionText)
  let levels ← (Delimited.records NoiseReport.levelFormat levels).mapM (·.mapM ofUtf8?)
  return (NoiseReport.stations period positions levels).values

end JourneyPlanner
