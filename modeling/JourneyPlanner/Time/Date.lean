import JourneyPlanner.Decimal.Fixed

/-!
# Dates

A date of the proleptic Gregorian calendar is the count of days since 1 January 1970. Years run
from -262143 to 262142.
-/

namespace JourneyPlanner

/-- A date, as the days since 1 January 1970. -/
structure Date where
  day : Int
  deriving DecidableEq, Repr

namespace Date

/-- Whether February has twenty-nine days. -/
def isLeap (year : Int) : Bool := year % 4 == 0 && (year % 100 != 0 || year % 400 == 0)

/-- The length of a month. -/
def daysInMonth (year : Int) (month : Nat) : Nat :=
  match month with
  | 2 => if isLeap year then 29 else 28
  | 4 | 6 | 9 | 11 => 30
  | _ => 31

/-- The days from 1 January 1970 to a day of a month. Years are counted from March, so that the
leap day comes last. -/
def dayNumber (year : Int) (month day : Nat) : Int :=
  let marchYear := if month ≤ 2 then year - 1 else year
  let era := marchYear.fdiv 400
  let yearOfEra := marchYear - era * 400
  let marchMonth : Int := if month > 2 then month - 3 else month + 9
  let dayOfYear := (153 * marchMonth + 2) / 5 + day - 1
  let dayOfEra := yearOfEra * 365 + yearOfEra / 4 - yearOfEra / 100 + dayOfYear
  era * 146097 + dayOfEra - 719468

/-- The first date. -/
def first : Date := ⟨dayNumber (-262143) 1 1⟩

/-- The last date. -/
def last : Date := ⟨dayNumber 262142 12 31⟩

/-- The date, when it exists. -/
def ofCivil? (year : Int) (month day : Nat) : Option Date :=
  if -262143 ≤ year ∧ year ≤ 262142 ∧ 1 ≤ month ∧ month ≤ 12 ∧ 1 ≤ day ∧
      day ≤ daysInMonth year month then
    some ⟨dayNumber year month day⟩
  else none

/-- Year, month and day of a date. -/
def civil (d : Date) : Int × Nat × Nat :=
  let shifted := d.day + 719468
  let era := shifted.fdiv 146097
  let dayOfEra := shifted - era * 146097
  let yearOfEra := (dayOfEra - dayOfEra / 1460 + dayOfEra / 36524 - dayOfEra / 146096) / 365
  let dayOfYear := dayOfEra - (365 * yearOfEra + yearOfEra / 4 - yearOfEra / 100)
  let marchMonth := (5 * dayOfYear + 2) / 153
  let day := dayOfYear - (153 * marchMonth + 2) / 5 + 1
  let month := if marchMonth < 10 then marchMonth + 3 else marchMonth - 9
  let year := yearOfEra + era * 400 + (if month ≤ 2 then 1 else 0)
  (year, month.toNat, day.toNat)

/-- The day of the week, from Monday as 0 to Sunday as 6. -/
def weekday (d : Date) : Nat := ((d.day + 3) % 7).toNat

/-- Year, month and day with four, two and two digits; years outside 0 to 9999 have a sign. -/
def render (d : Date) : String :=
  let (year, month, day) := d.civil
  let sign := if year < 0 then "-" else if year > 9999 then "+" else ""
  sign ++ Decimal.padded 4 year.natAbs ++ "-" ++ Decimal.padded 2 month ++ "-" ++
    Decimal.padded 2 day

/-- The day before, unless this is the first. -/
def previous? (d : Date) : Option Date := if first.day < d.day then some ⟨d.day - 1⟩ else none

/-- The day after, unless this is the last. -/
def next? (d : Date) : Option Date := if d.day < last.day then some ⟨d.day + 1⟩ else none

/-- The dates from `start` to `stop`, both included. -/
def range (start stop : Date) : List Date :=
  (List.range (stop.day - start.day + 1).toNat).map fun (i : Nat) => ⟨start.day + i⟩

theorem mem_range {d start stop : Date} :
    d ∈ range start stop ↔ start.day ≤ d.day ∧ d.day ≤ stop.day := by
  simp only [range, List.mem_map, List.mem_range]
  constructor
  · rintro ⟨i, hi, rfl⟩
    simp only
    omega
  · rintro ⟨h₁, h₂⟩
    exact ⟨(d.day - start.day).toNat, by omega, congrArg Date.mk (by omega)⟩

end Date

end JourneyPlanner
