import JourneyPlanner.Monitoring.AirReport
import JourneyPlanner.Proofs.Json.Grammar
import JourneyPlanner.Proofs.Json.Shapes

/-!
# Well-formed reports of air quality

What a report has to be like, and which stations it gives, said without its reader. It is a record
with a list of locations, each of them well-formed with all its measurements, so that one that is
not spoils the whole report (`asAirReport_takes`). Locations with coordinates give stations, and
complete measurements of known pollutants that are new enough are kept (`stations_picked`).
-/

namespace JourneyPlanner

open JourneyPlanner.Json

/-- The fields of a measurement. Each may be missing, but none may be of another sort. -/
structure ReportedMeasurement.Fields (byPosition : Bool) (given : String → Option Value)
    (m : ReportedMeasurement) : Prop where
  parameter : Nullable IsText byPosition (given "parameter") m.parameter
  value : Nullable IsNumber byPosition (given "value") m.value
  updated : Nullable IsText byPosition (given "lastUpdated") m.updated
  unit : Defaulted IsText "" (given "unit") m.unit
  source : Defaulted IsText "" (given "sourceName") m.source

/-- A measurement of a report. -/
def IsMeasurement : Shape ReportedMeasurement := fun v m => ∃ byPosition given,
  IsRecord ["parameter", "value", "lastUpdated", "unit", "sourceName"] v byPosition given ∧
    ReportedMeasurement.Fields byPosition given m

/-- A pair of coordinates, which have to be there. -/
def IsPoint : Shape Point := fun v p => ∃ byPosition given,
  IsRecord ["latitude", "longitude"] v byPosition given ∧
    Required IsNumber (given "latitude") p.latitude ∧
    Required IsNumber (given "longitude") p.longitude

/-- The fields of a location. -/
structure ReportedLocation.Fields (byPosition : Bool) (given : String → Option Value)
    (l : ReportedLocation) : Prop where
  location : Defaulted IsText "" (given "location") l.location
  city : Defaulted IsText "" (given "city") l.city
  country : Defaulted IsText "" (given "country") l.country
  measurements : Defaulted (IsList IsMeasurement) [] (given "measurements") l.measurements
  point : Nullable IsPoint byPosition (given "coordinates") l.point

/-- A location of a report. -/
def IsLocation : Shape ReportedLocation := fun v l => ∃ byPosition given,
  IsRecord ["location", "city", "country", "measurements", "coordinates"] v byPosition given ∧
    ReportedLocation.Fields byPosition given l

/-- A report: its locations have to be there. -/
def IsAirReport : Shape (List ReportedLocation) := fun v locations => ∃ byPosition given,
  IsRecord ["results"] v byPosition given ∧
    Required (IsList IsLocation) (given "results") locations

theorem asReportedMeasurement_takes : Reader.Takes asReportedMeasurement IsMeasurement := by
  refine takes_record (by decide) fun r m => ?_
  simp only [bind, pure, Option.bind_eq_some_iff, Option.some.injEq,
    Record.nullable_iff asText_takes, Record.nullable_iff asFloat_takes,
    Record.withDefault_iff asText_takes]
  constructor
  · rintro ⟨parameter, hparameter, value, hvalue, updated, hupdated, unit, hunit, source, hsource,
      rfl⟩
    exact ⟨hparameter, hvalue, hupdated, hunit, hsource⟩
  · rintro ⟨hparameter, hvalue, hupdated, hunit, hsource⟩
    exact ⟨_, hparameter, _, hvalue, _, hupdated, _, hunit, _, hsource, rfl⟩

theorem asCoordinates_takes : Reader.Takes asCoordinates IsPoint := by
  refine takes_record (by decide) fun r p => ?_
  simp only [bind, pure, Option.bind_eq_some_iff, Option.some.injEq,
    Record.required_iff asFloat_takes]
  constructor
  · rintro ⟨latitude, hlatitude, longitude, hlongitude, rfl⟩
    exact ⟨hlatitude, hlongitude⟩
  · rintro ⟨hlatitude, hlongitude⟩
    exact ⟨_, hlatitude, _, hlongitude, rfl⟩

theorem asReportedLocation_takes : Reader.Takes asReportedLocation IsLocation := by
  refine takes_record (by decide) fun r l => ?_
  simp only [bind, pure, Option.bind_eq_some_iff, Option.some.injEq,
    Record.withDefault_iff asText_takes,
    Record.withDefault_iff (asList_takes asReportedMeasurement_takes),
    Record.nullable_iff asCoordinates_takes]
  constructor
  · rintro ⟨location, hlocation, city, hcity, country, hcountry, measurements, hmeasurements, point,
      hpoint, rfl⟩
    exact ⟨hlocation, hcity, hcountry, hmeasurements, hpoint⟩
  · rintro ⟨hlocation, hcity, hcountry, hmeasurements, hpoint⟩
    exact ⟨_, hlocation, _, hcity, _, hcountry, _, hmeasurements, _, hpoint, rfl⟩

/-- The reader takes well-formed reports, and no others. -/
theorem asAirReport_takes : Reader.Takes asAirReport IsAirReport :=
  takes_record (by decide) fun _ _ => Record.required_iff (asList_takes asReportedLocation_takes)

/-! ## Stations -/

/-- The results that some elements of a list have, in the order of the elements. The others have
none and are skipped. -/
inductive Picks {α β : Type} (R : α → β → Prop) : List α → List β → Prop
  | nil : Picks R [] []
  | keep {a : α} {b : β} {as : List α} {bs : List β} (h : R a b) (rest : Picks R as bs) :
    Picks R (a :: as) (b :: bs)
  | skip {a : α} {as : List α} {bs : List β} (h : ∀ b, ¬ R a b) (rest : Picks R as bs) :
    Picks R (a :: as) bs

theorem filterMap_eq_iff_picks {α β : Type} {f : α → Option β} {R : α → β → Prop}
    (hf : ∀ a b, f a = some b ↔ R a b) {as : List α} {bs : List β} :
    as.filterMap f = bs ↔ Picks R as bs := by
  induction as generalizing bs with
  | nil => exact ⟨fun h => h ▸ .nil, fun h => by cases h; rfl⟩
  | cons a as ih =>
    cases ha : f a with
    | none =>
      have hskip : ∀ b, ¬ R a b := fun b hb => nomatch ha.symm.trans ((hf a b).mpr hb)
      rw [List.filterMap_cons_none ha, ih]
      refine ⟨.skip hskip, fun h => ?_⟩
      cases h with
      | keep hb => exact absurd hb (hskip _)
      | skip _ rest => exact rest
    | some b =>
      have hkeep : R a b := (hf a b).mp ha
      rw [List.filterMap_cons_some ha]
      constructor
      · rintro rfl
        exact .keep hkeep (ih.mp rfl)
      · intro h
        cases h with
        | keep hb rest =>
          rw [Option.some.inj (ha.symm.trans ((hf a _).mpr hb)), ih.mpr rest]
        | skip hnone => exact absurd hkeep (hnone b)

/-- A measurement of a report counts as one of a pollutant. -/
structure Counts (cutOff : Instant) (m : ReportedMeasurement) (a : AirMeasurement) : Prop where
  pollutant : m.parameter = some a.pollutant.name
  value : m.value = some a.value
  updated : ∃ text, m.updated = some text ∧ Instant.parse text = .ok a.updated
  newer : cutOff.before a.updated = true
  unit : a.unit = m.unit
  source : a.source = m.source

/-- A location gives a station. -/
structure GivesStation (cutOff : Instant) (l : ReportedLocation) (s : AirStation) : Prop where
  point : l.point = some s.point
  location : s.location = l.location
  city : s.city = l.city
  country : s.country = l.country
  measurements : Picks (Counts cutOff) l.measurements s.measurements

theorem Pollutant.ofName?_eq_some {name : String} {p : Pollutant} :
    ofName? name = some p ↔ name = p.name := by
  constructor
  · intro h
    obtain ⟨before, after, heq, -⟩ := List.lookup_eq_some_iff.mp h
    have hmem : (name, p) ∈ words := by rw [heq]; simp
    obtain ⟨q, -, hq⟩ := List.mem_map.mp hmem
    cases hq
    rfl
  · rintro rfl
    exact ofName?_name p

variable {cutOff : Instant}

theorem ReportedMeasurement.measurement?_eq_some (m : ReportedMeasurement) (a : AirMeasurement) :
    m.measurement? cutOff = some a ↔ Counts cutOff m a := by
  unfold measurement?
  simp only [bind, Option.bind_eq_some_iff, Pollutant.ofName?_eq_some]
  constructor
  · rintro ⟨_, hname, pollutant, rfl, value, hvalue, text, htext, updated, hupdated, h⟩
    split_ifs at h with hnewer
    obtain rfl := Option.some.inj h
    exact ⟨hname, hvalue, ⟨text, htext, eq_ok_of_toOption hupdated⟩, hnewer, rfl, rfl⟩
  · rintro ⟨hpollutant, hvalue, ⟨text, htext, hupdated⟩, hnewer, hunit, hsource⟩
    refine ⟨_, hpollutant, _, rfl, _, hvalue, text, htext, a.updated, by rw [hupdated]; rfl, ?_⟩
    rw [if_pos hnewer, ← hunit, ← hsource]

theorem ReportedLocation.station?_eq_some (l : ReportedLocation) (s : AirStation) :
    l.station? cutOff = some s ↔ GivesStation cutOff l s := by
  unfold station?
  rw [Option.map_eq_some_iff]
  have hpicks : l.measurements.filterMap (·.measurement? cutOff) = s.measurements ↔
      Picks (Counts cutOff) l.measurements s.measurements :=
    filterMap_eq_iff_picks ReportedMeasurement.measurement?_eq_some
  constructor
  · rintro ⟨point, hpoint, rfl⟩
    exact ⟨hpoint, rfl, rfl, rfl, hpicks.mp rfl⟩
  · rintro ⟨hpoint, hlocation, hcity, hcountry, hmeasurements⟩
    refine ⟨s.point, hpoint, ?_⟩
    rw [hpicks.mpr hmeasurements, ← hlocation, ← hcity, ← hcountry]

/-- The stations of a report are those that its locations give. -/
theorem stations_picked {octets : List Char} {stations : List AirStation} :
    AirStation.ofReport? cutOff octets = some stations ↔ ∃ report locations,
      IsJson octets report ∧ IsAirReport report locations ∧
        Picks (GivesStation cutOff) locations stations := by
  unfold AirStation.ofReport?
  simp only [Option.map_eq_some_iff, Option.bind_eq_some_iff, parse?_eq_some, asAirReport_takes _ _,
    filterMap_eq_iff_picks ReportedLocation.station?_eq_some]
  constructor
  · rintro ⟨locations, ⟨report, hreport, hlocations⟩, hstations⟩
    exact ⟨report, locations, hreport, hlocations, hstations⟩
  · rintro ⟨report, locations, hreport, hlocations, hstations⟩
    exact ⟨locations, ⟨report, hreport, hlocations⟩, hstations⟩

end JourneyPlanner
