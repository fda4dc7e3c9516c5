import JourneyPlanner.Proofs.Failures
import JourneyPlanner.Proofs.Monitoring.Coordinates
import JourneyPlanner.Proofs.Monitoring.StationNumbers
import JourneyPlanner.Proofs.Splits

/-!
# The two tables of a noise report

A report joins a table of positions and one of levels on the numbers of the stations
(`NoiseReport.stations_joined`). There is one station for each number that is placed, as the last
readable record of the number places it. It has the levels of the records for its number and the
period, in order, six from each record that is readable as a whole; no other record gives any.
-/

namespace JourneyPlanner

open JourneyPlanner.Text

/-- The column of a statistic in a record of levels. -/
def NoiseStatistic.column : NoiseStatistic → Nat
  | .laeq => 5
  | .l01 => 6
  | .l10 => 7
  | .l50 => 8
  | .l90 => 9
  | .l99 => 10

/-- The code of a period in a record of levels. -/
def DayPeriod.code : DayPeriod → String
  | .day => "D"
  | .evening => "T"
  | .night => "N"

theorem DayPeriod.ofCode?_eq_some {code : String} {period : DayPeriod} :
    DayPeriod.ofCode? code = some period ↔ code = period.code := by
  constructor
  · intro h
    obtain ⟨before, after, heq, -⟩ := List.lookup_eq_some_iff.mp h
    have hmem : (code, period) ∈ [("D", day), ("T", evening), ("N", night)] := by simp [heq]
    simp only [List.mem_cons, Prod.mk.injEq, List.not_mem_nil, or_false] at hmem
    rcases hmem with ⟨rfl, rfl⟩ | ⟨rfl, rfl⟩ | ⟨rfl, rfl⟩ <;> rfl
  · rintro rfl
    cases period <;> decide

namespace NoiseReport

variable {period : DayPeriod} {record : List String} {number : Nat} {station : NoiseStation}
  {date : Date}

/-! ## What a record says -/

/-- A record of positions places a station: its first field spells the number, and its fourth and
fifth are coordinates. -/
def Places (record : List String) (number : Nat) (station : NoiseStation) : Prop :=
  ∃ id street detail longitude latitude rest x y,
    record = id :: street :: detail :: longitude :: latitude :: rest ∧ Spells id number ∧
    IsCoordinate longitude x ∧ IsCoordinate latitude y ∧
    station = ⟨String.ofList (trim id.toList), street ++ " " ++ detail, [], ⟨x, y⟩⟩

/-- A field of a record, without blanks around it, reads as a value. -/
def FieldReads {α : Type} (record : List String) (column : Nat) (read? : List Char → Option α)
    (a : α) : Prop :=
  ∃ text, record[column]? = some text ∧ read? (trim text.toList) = some a

/-- A record of levels is for a station and a period: its first field spells the number, its fifth
is the code of the period, its second to fourth are a date, and the next six are levels. -/
structure Reports (period : DayPeriod) (record : List String) (number : Nat) (date : Date)
    (level : NoiseStatistic → Float) : Prop where
  code : record[4]? = some period.code
  number : ∃ text, record[0]? = some text ∧ Spells text number
  date : ∃ year month day, FieldReads record 1 Decimal.readInt? year ∧
    FieldReads record 2 Decimal.readNat? month ∧ FieldReads record 3 Decimal.readNat? day ∧
    Date.ofCivil? year month day = some date
  levels : ∀ statistic : NoiseStatistic,
    FieldReads record statistic.column Decimal.readFloat? (level statistic)

/-- The six measurements of a record. -/
def block (period : DayPeriod) (date : Date) (level : NoiseStatistic → Float) :
    List NoiseMeasurement :=
  NoiseStatistic.all.map fun statistic => ⟨statistic, level statistic, date, period⟩

theorem position?_eq_some :
    position? record = some (number, station) ↔ Places record number station := by
  unfold Places
  constructor
  · intro h
    unfold position? at h
    split at h
    · rename_i id street detail longitude latitude rest
      simp only [bind, pure, Option.bind_eq_some_iff, Option.some.injEq, Prod.mk.injEq] at h
      obtain ⟨k, hk, x, hx, y, hy, rfl, rfl⟩ := h
      exact ⟨id, street, detail, longitude, latitude, rest, x, y, rfl,
        stationNumber?_eq_some.mp hk, coordinate?_eq_some.mp hx, coordinate?_eq_some.mp hy, rfl⟩
    · cases h
  · rintro ⟨id, street, detail, longitude, latitude, rest, x, y, rfl, hid, hx, hy, rfl⟩
    simp only [position?, stationNumber?_eq_some.mpr hid, coordinate?_eq_some.mpr hx,
      coordinate?_eq_some.mpr hy, bind, pure, Option.bind_some]

theorem fieldReads_iff {α : Type} {column : Nat} {read? : List Char → Option α} {a : α} :
    FieldReads record column read? a ↔ ∃ field, trimmed? record column = some field ∧
      read? field = some a := by
  unfold trimmed? FieldReads
  simp only [Option.map_eq_some_iff]
  constructor
  · rintro ⟨text, htext, h⟩
    exact ⟨_, ⟨text, htext, rfl⟩, h⟩
  · rintro ⟨_, ⟨text, htext, rfl⟩, h⟩
    exact ⟨text, htext, h⟩

theorem levelDate?_eq_some : levelDate? record = some date ↔ ∃ year month day,
    FieldReads record 1 Decimal.readInt? year ∧ FieldReads record 2 Decimal.readNat? month ∧
    FieldReads record 3 Decimal.readNat? day ∧ Date.ofCivil? year month day = some date := by
  unfold levelDate?
  simp only [bind, fieldReads_iff, Option.bind_eq_some_iff]
  constructor
  · rintro ⟨field₁, h₁, year, hyear, field₂, h₂, month, hmonth, field₃, h₃, day, hday, hdate⟩
    exact ⟨year, month, day, ⟨field₁, h₁, hyear⟩, ⟨field₂, h₂, hmonth⟩, ⟨field₃, h₃, hday⟩, hdate⟩
  · rintro ⟨year, month, day, ⟨field₁, h₁, hyear⟩, ⟨field₂, h₂, hmonth⟩, ⟨field₃, h₃, hday⟩, hdate⟩
    exact ⟨field₁, h₁, year, hyear, field₂, h₂, month, hmonth, field₃, h₃, day, hday, hdate⟩

/-- All six levels of a record are read, or none. -/
theorem levels?_eq_some {levels : List NoiseMeasurement} :
    levels? period record = some levels ↔ ∃ date, levelDate? record = some date ∧ ∃ level,
      (∀ statistic : NoiseStatistic,
        FieldReads record statistic.column Decimal.readFloat? (level statistic)) ∧
      levels = block period date level := by
  have hcolumns : NoiseStatistic.all.zipIdx =
      NoiseStatistic.all.map fun statistic => (statistic, statistic.column - 5) := rfl
  have hread (date : Date) (statistic : NoiseStatistic) :
      ((trimmed? record (5 + (statistic.column - 5))).bind fun field =>
        (Decimal.readFloat? field).bind fun value =>
          some (⟨statistic, value, date, period⟩ : NoiseMeasurement)) =
        ((trimmed? record statistic.column).bind Decimal.readFloat?).map fun value =>
          ⟨statistic, value, date, period⟩ := by
    have hcolumn : 5 + (statistic.column - 5) = statistic.column := by cases statistic <;> rfl
    rw [hcolumn, Option.map_bind]
    exact congrArg _ (funext fun field => (Option.map_eq_bind ..).symm)
  unfold levels?
  simp only [bind, pure, Option.bind_eq_some_iff, hcolumns, List.mapM_map, Function.comp_def, hread,
    mapM_map_eq_some, NoiseStatistic.mem_all, forall_const, ← fieldReads_iff]
  exact Iff.rfl

theorem levelsFor?_eq_some {levels : List NoiseMeasurement} :
    levelsFor? period record = some (number, levels) ↔ ∃ date level,
      Reports period record number date level ∧ levels = block period date level := by
  unfold levelsFor?
  simp only [bind, pure, Option.bind_eq_some_iff, Option.ite_none_left_eq_some, ne_eq, not_not,
    DayPeriod.ofCode?_eq_some, Option.some.injEq, Prod.mk.injEq, levels?_eq_some,
    levelDate?_eq_some]
  constructor
  · rintro ⟨_, hcode, rfl, id, hid, _, hk, _, ⟨date, hdate, level, hlevel, rfl⟩, rfl, rfl⟩
    exact ⟨date, level, ⟨hcode, ⟨id, hid, stationNumber?_eq_some.mp hk⟩, hdate, hlevel⟩, rfl⟩
  · rintro ⟨date, level, ⟨hcode, ⟨id, hid, hk⟩, hdate, hlevel⟩, rfl⟩
    exact ⟨_, hcode, rfl, id, hid, number, stationNumber?_eq_some.mpr hk, _,
      ⟨date, hdate, level, hlevel, rfl⟩, rfl, rfl⟩

/-! ## Positions -/

variable {records : List (List String)}

/-- The station that the last record to place a number places. -/
def PlacedLast (records : List (List String)) (number : Nat) (station : NoiseStation) : Prop :=
  SplitsAt records fun _ record later =>
    Places record number station ∧ ∀ r ∈ later, ∀ s, ¬ Places r number s

/-- One position after the other. -/
def place (stations : NoiseNetwork) (record : List String) : NoiseNetwork :=
  match position? record with
  | some (number, station) => stations.insert number station
  | none => stations

/-- A record replaces what is known of the number that it places, and of no other. -/
theorem getElem?_place (stations : NoiseNetwork) (record : List String) :
    (place stations record)[number]? = some station ↔ Places record number station ∨
      stations[number]? = some station ∧ ∀ s, ¬ Places record number s := by
  unfold place
  cases h : position? record with
  | none =>
    have hnone (s : NoiseStation) : ¬ Places record number s := by
      rw [← position?_eq_some, h]
      exact nofun
    simp only [hnone, not_false_eq_true, implies_true, and_true, false_or]
  | some placed =>
    obtain ⟨k, s⟩ := placed
    have hplaces {number : Nat} {station : NoiseStation} :
        Places record number station ↔ k = number ∧ s = station := by
      rw [← position?_eq_some, h, Option.some.injEq, Prod.mk.injEq]
    show (stations.insert k s)[number]? = _ ↔ _
    rw [Std.TreeMap.getElem?_insert]
    simp only [hplaces, Nat.compare_eq_eq]
    split_ifs with hk
    · simp [hk]
    · simp [hk]

theorem placedLast_append : PlacedLast (records ++ [record]) number station ↔
    Places record number station ∨
      PlacedLast records number station ∧ ∀ s, ¬ Places record number s := by
  unfold PlacedLast
  rw [splitsAt_append]
  simp only [List.forall_mem_append, List.forall_mem_singleton, List.not_mem_nil, false_imp_iff,
    implies_true, and_true, ← and_assoc, splitsAt_and]

theorem getElem?_foldl_place :
    (records.foldl place ∅)[number]? = some station ↔ PlacedLast records number station := by
  induction records using List.reverseRecOn with
  | nil =>
    rw [List.foldl_nil, Std.TreeMap.getElem?_emptyc]
    exact iff_of_false nofun not_splitsAt_nil
  | append_singleton records record ih =>
    rw [List.foldl_append, placedLast_append, List.foldl_cons, List.foldl_nil, getElem?_place, ih]

theorem getElem?_placed (positions : List (List String)) :
    (placed positions)[number]? = some station ↔ PlacedLast (positions.drop 2) number station :=
  getElem?_foldl_place

theorem exists_placedLast : (∃ station, PlacedLast records number station) ↔
    ∃ record ∈ records, ∃ station, Places record number station := by
  induction records using List.reverseRecOn with
  | nil =>
    refine iff_of_false ?_ ?_
    · rintro ⟨_, h⟩
      exact not_splitsAt_nil h
    · rintro ⟨_, h, -⟩
      exact List.not_mem_nil h
  | append_singleton records record ih =>
    simp only [placedLast_append, exists_or, exists_and_right, ih, List.mem_append,
      List.mem_singleton, or_and_right, exists_eq_left]
    constructor
    · rintro (h | ⟨h, -⟩)
      · exact .inr h
      · exact .inl h
    · rintro (h | h)
      · by_cases hlast : ∃ station, Places record number station
        · exact .inl hlast
        · exact .inr ⟨h, not_exists.mp hlast⟩
      · exact .inl h

/-! ## Levels -/

/-- What a record of levels gives to the station of a number: six measurements if it reports on this
station in the period, and otherwise nothing. -/
def Gives (period : DayPeriod) (number : Nat) (record : List String)
    (levels : List NoiseMeasurement) : Prop :=
  (∃ date level, Reports period record number date level ∧ levels = block period date level) ∨
    (¬ ∃ date level, Reports period record number date level) ∧ levels = []

/-- The measurements that a record gives to the station of a number. -/
def given (period : DayPeriod) (number : Nat) (record : List String) : List NoiseMeasurement :=
  match levelsFor? period record with
  | some (k, levels) => if k = number then levels else []
  | none => []

theorem gives_given (period : DayPeriod) (number : Nat) (record : List String) :
    Gives period number record (given period number record) := by
  unfold given
  cases h : levelsFor? period record with
  | none =>
    refine .inr ⟨?_, rfl⟩
    rintro ⟨date, level, hreports⟩
    rw [levelsFor?_eq_some.mpr ⟨date, level, hreports, rfl⟩] at h
    cases h
  | some report =>
    obtain ⟨k, levels⟩ := report
    obtain ⟨date, level, hreports, hlevels⟩ := levelsFor?_eq_some.mp h
    show Gives period number record (if k = number then levels else [])
    split_ifs with hk
    · exact .inl ⟨date, level, hk ▸ hreports, hlevels⟩
    · refine .inr ⟨?_, rfl⟩
      rintro ⟨date, level, hreports⟩
      rw [levelsFor?_eq_some.mpr ⟨date, level, hreports, rfl⟩] at h
      exact hk (Prod.mk.inj (Option.some.inj h)).1.symm

theorem getElem?_addLevels (period : DayPeriod) (stations : NoiseNetwork) (record : List String) :
    (addLevels period stations record)[number]? = stations[number]?.map fun station =>
      { station with measurements := station.measurements ++ given period number record } := by
  have hsame (station : Option NoiseStation) : station = station.map fun station =>
      { station with measurements := station.measurements ++ [] } := by
    cases station <;> simp
  unfold addLevels given
  cases levelsFor? period record with
  | none => exact hsame _
  | some report =>
    obtain ⟨k, levels⟩ := report
    by_cases hk : k = number
    · subst hk
      cases h : stations[k]? with
      | none => simp [h]
      | some station => simp [h]
    · cases h : stations[k]? with
      | none =>
        simp only [h, if_neg hk]
        exact hsame _
      | some station =>
        simp only [h, if_neg hk]
        rw [Std.TreeMap.getElem?_insert, if_neg (by simpa using hk)]
        exact hsame _

theorem getElem?_foldl_addLevels (period : DayPeriod) (levels : List (List String))
    (stations : NoiseNetwork) :
    (levels.foldl (addLevels period) stations)[number]? = stations[number]?.map fun station =>
      { station with
        measurements := station.measurements ++ levels.flatMap (given period number) } := by
  induction levels generalizing stations with
  | nil => cases h : stations[number]? <;> simp [h]
  | cons record levels ih =>
    rw [List.foldl_cons, ih, getElem?_addLevels, Option.map_map]
    simp only [Function.comp_def, List.flatMap_cons, List.append_assoc]

/-! ## The report -/

variable {positions levels : List (List String)}

/-- A station of a report: the last readable record of its number places it, and its measurements
are what the records of levels give to it, one after the other. -/
structure Joined (period : DayPeriod) (positions levels : List (List String)) (number : Nat)
    (station : NoiseStation) : Prop where
  placed : PlacedLast (positions.drop 2) number { station with measurements := [] }
  measured : ∃ blocks, List.Forall₂ (Gives period number) levels blocks ∧
    station.measurements = blocks.flatten

theorem PlacedLast.measurements_eq (h : PlacedLast records number station) :
    station.measurements = [] := by
  obtain ⟨_, _, _, -, ⟨_, _, _, _, _, _, _, _, -, -, -, -, rfl⟩, -⟩ := h
  rfl

theorem joined_of_getElem? (h : (stations period positions levels)[number]? = some station) :
    Joined period positions levels number station := by
  unfold stations at h
  rw [getElem?_foldl_addLevels] at h
  obtain ⟨placed, hplaced, rfl⟩ := Option.map_eq_some_iff.mp h
  have hlast := (getElem?_placed positions).mp hplaced
  have hnone := hlast.measurements_eq
  refine ⟨?_, levels.map (given period number), ?_, ?_⟩
  · rw [← hnone]
    exact hlast
  · rw [List.forall₂_map_right_iff, List.forall₂_same]
    exact fun record _ => gives_given period number record
  · rw [hnone, List.nil_append, List.flatMap_def]

theorem values_eq (stations : NoiseNetwork) : stations.values = stations.toList.map Prod.snd := by
  have hfold : stations.values = stations.foldr (fun _ station all => station :: all) [] := rfl
  rw [hfold, Std.TreeMap.foldr_eq_foldr_toList]
  induction stations.toList with
  | nil => rfl
  | cons x all ih => rw [List.foldr_cons, ih, List.map_cons]

/-- A report in two files is that of their records, and there is one just if all levels are
UTF-8. -/
theorem ofReport?_eq_some {places values : List Char} {all : List NoiseStation} :
    NoiseStation.ofReport? period places values = some all ↔
      ∃ levels, List.Forall₂ (List.Forall₂ fun field text => ofUtf8? field = some text)
          (Delimited.records levelFormat values) levels ∧
        all = (stations period ((Delimited.records positionFormat places).map
          (·.map positionText)) levels).values := by
  unfold NoiseStation.ofReport?
  simp only [bind, pure, Option.bind_eq_some_iff, mapM_eq_some_iff, Option.some.injEq]
  exact exists_congr fun levels => and_congr_right fun _ => eq_comm

/-- Whatever the two tables hold, the stations of the report are in the order of their numbers, one
for each number that a record of positions after the first two places, and each is placed by the
last such record and has the measurements that the records of levels give to it, in their order. A
record that gives any gives all six, stamped with its date at the time of the period. A report in
two files is that of their records; it fails only if a level is not UTF-8. -/
theorem stations_joined (period : DayPeriod) :
    (∀ positions levels, ∃ numbers : List Nat, numbers.Pairwise (· < ·) ∧
      (∀ number, number ∈ numbers ↔
        ∃ record ∈ positions.drop 2, ∃ station, Places record number station) ∧
      List.Forall₂ (Joined period positions levels) numbers
        (stations period positions levels).values) ∧
    (∀ date level, (block period date level).map (fun m => (m.statistic, m.value, m.updated)) =
      NoiseStatistic.all.map fun statistic =>
        (statistic, level statistic, date.render ++ " " ++ period.readingTime)) ∧
    ∀ places values all, NoiseStation.ofReport? period places values = some all ↔
      ∃ levels, List.Forall₂ (List.Forall₂ fun field text => ofUtf8? field = some text)
          (Delimited.records levelFormat values) levels ∧
        all = (stations period ((Delimited.records positionFormat places).map
          (·.map positionText)) levels).values := by
  refine ⟨fun positions levels => ?_, fun _ _ => rfl, fun _ _ _ => ofReport?_eq_some⟩
  refine ⟨(stations period positions levels).keys, ?_, fun number => ?_, ?_⟩
  · exact Std.TreeMap.ordered_keys.imp Nat.compare_eq_lt.mp
  · rw [← exists_placedLast, Std.TreeMap.mem_keys, Std.TreeMap.mem_iff_isSome_getElem?]
    unfold stations
    rw [getElem?_foldl_addLevels, Option.isSome_map, Option.isSome_iff_exists]
    exact exists_congr fun station => getElem?_placed positions
  · rw [values_eq, ← Std.TreeMap.map_fst_toList_eq_keys, List.forall₂_map_left_iff,
      List.forall₂_map_right_iff, List.forall₂_same]
    rintro ⟨number, station⟩ hmem
    exact joined_of_getElem? (Std.TreeMap.mem_toList_iff_getElem?_eq_some.mp hmem)

/-- Positions of two stations, each given twice: the first is readable both times, and the second
only at first. -/
def plazas : List (List String) :=
  [["Estaciones"], ["Nº", "Calle"], ["2", "Plaza", "7", "3º 42 1,5 O", "40º 25 0"],
    ["1", "Paseo", "8", "3 42 0 O", "40 25 0"], [" 001 ", "Paseo", "9", "3 42 0 W", "40 25 0 N"],
    ["2", "Plaza", "10", "nowhere", "40 25 0"]]

/-- Levels of two stations and of one that is not placed; those of the second are of another period,
or end in a level that is none. -/
def nights : List (List String) :=
  [["1", "2024", "3", "14", "N", "55", "60", "58", "54", "50", " 48 "],
    ["7", "2024", "3", "14", "N", "55", "60", "58", "54", "50", "48"],
    ["002", "2024", "3", "14", "D", "55", "60", "58", "54", "50", "48"],
    ["002", "2024", "3", "14", "N", "55", "60", "58", "54", "50", "N/D"],
    ["01", "2024", "3", "15", "N", "55", "60", "58", "54", "50", "48"]]

/-- The first station has the levels of two nights, and the second none. Both are a little west of
Greenwich. -/
theorem nights_joined : ∃ numbers : List Nat, numbers.Pairwise (· < ·) ∧
    List.Forall₂ (Joined .night plazas nights) numbers (stations .night plazas nights).values ∧
    (stations .night plazas nights).values.map
      (fun station => (station.id, station.location, station.measurements.length)) =
        [("001", "Paseo 9", 12), ("2", "Plaza 7", 0)] ∧
    (stations .night plazas nights).values.map
      (fun station => (station.point.longitude, station.point.latitude)) =
        [(-(3.0 + (42.0 * 60.0 + 0.0) / 3600.0), 40.0 + (25.0 * 60.0 + 0.0) / 3600.0),
          (-(3.0 + (42.0 * 60.0 + 1.5) / 3600.0), 40.0 + (25.0 * 60.0 + 0.0) / 3600.0)] := by
  obtain ⟨numbers, hordered, -, hjoined⟩ := (stations_joined .night).1 plazas nights
  exact ⟨numbers, hordered, hjoined, by decide +kernel, by decide +kernel⟩

end NoiseReport

end JourneyPlanner
