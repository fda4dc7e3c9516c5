import JourneyPlanner.Live.Polling
import JourneyPlanner.Proofs.Live.Sequential
import JourneyPlanner.Proofs.Monitoring.AirReports
import JourneyPlanner.Proofs.Monitoring.JoinedTables
import JourneyPlanner.Proofs.Network.Operations

/-!
# Polling cycles

A poller goes through cycles while the writer handles what it queues, in any order of the two. A
cycle in which a file is missing or cannot be read leaves poller and writer as they were; any other
one replaces the stations, and queues one job that carries them (`Poller.Current`). So the value
published last is what the stations of the cycles that succeeded, in their order, make of the first.
-/

namespace JourneyPlanner

open JourneyPlanner.Text

/-! ## What a cycle reads -/

/-- The file is there, is JSON, and is a well-formed report; and these are the stations that its
locations give. -/
def AirStation.Loads (url : String) (cutOff : Option Instant) (found : Surroundings)
    (stations : List AirStation) : Prop :=
  ∃ octets report locations, found.fetch? url = some octets ∧ Json.IsJson octets report ∧
    IsAirReport report locations ∧
    Picks (GivesStation (cutOff.getD found.now.measurementCutOff)) locations stations

/-- Both files are there, and all levels are UTF-8; and these are their stations. -/
def NoiseStation.Loads (positions levels : String) (hour : Option Nat) (found : Surroundings)
    (stations : List NoiseStation) : Prop :=
  ∃ places values rows, found.fetch? positions = some places ∧ found.fetch? levels = some values ∧
    List.Forall₂ (List.Forall₂ fun field text => ofUtf8? field = some text)
      (Delimited.records NoiseReport.levelFormat values) rows ∧
    stations = (NoiseReport.stations
      (.ofHour (hour.getD (found.madrid.hourAt found.now.seconds)))
      ((Delimited.records NoiseReport.positionFormat places).map (·.map NoiseReport.positionText))
      rows).values

theorem airSource_read? {url : String} {cutOff : Option Instant} {found : Surroundings}
    {stations : List AirStation} : (airSource url cutOff).read? found = some stations ↔
      AirStation.Loads url cutOff found stations := by
  show (found.fetch? url).bind _ = some stations ↔ _
  unfold AirStation.Loads
  simp only [Option.bind_eq_some_iff, stations_picked]
  constructor
  · rintro ⟨octets, hoctets, report, locations, h⟩
    exact ⟨octets, report, locations, hoctets, h⟩
  · rintro ⟨octets, report, locations, hoctets, h⟩
    exact ⟨octets, hoctets, report, locations, h⟩

theorem noiseSource_read? {positions levels : String} {hour : Option Nat} {found : Surroundings}
    {stations : List NoiseStation} :
    (noiseSource positions levels hour).read? found = some stations ↔
      NoiseStation.Loads positions levels hour found stations := by
  show ((found.fetch? positions).bind fun places => (found.fetch? levels).bind fun values => _) =
    some stations ↔ _
  unfold NoiseStation.Loads
  simp only [Option.bind_eq_some_iff, NoiseReport.ofReport?_eq_some]
  constructor
  · rintro ⟨places, hplaces, values, hvalues, rows, hrows, rfl⟩
    exact ⟨places, values, rows, hplaces, hvalues, hrows, rfl⟩
  · rintro ⟨places, values, rows, hplaces, hvalues, hrows, rfl⟩
    exact ⟨places, hplaces, values, hvalues, rows, hrows, rfl⟩

namespace Poller

variable {S : Type} [Station S] {n : Network} {initial p : Poller S} {w : Writer Network}
  {loaded : List (List S)} {found : Surroundings}

/-! ## A poller and a writer at work -/

/-- What can happen to a poller and a writer. -/
inductive Event where
  /-- The poller goes through a cycle. -/
  | cycle (found : Surroundings)
  /-- The writer handles the message that has waited longest. -/
  | work

/-- The surroundings of a cycle. -/
def Event.found? : Event → Option Surroundings
  | .cycle found => some found
  | .work => none

/-- What an event makes of a poller and a writer. -/
def step (s : Poller S × Writer Network) : Event → Poller S × Writer Network
  | .cycle found => ((s.1.poll found s.2).1, (s.1.poll found s.2).2.1)
  | .work => (s.1, s.2.work)

/-- The stations that the cycles read, without those that fail. -/
def loads (p : Poller S) (events : List Event) : List (List S) :=
  events.filterMap fun e => e.found?.bind p.source.read?

/-- The network after each list of stations has been written to it. -/
def surveyed (p : Poller S) (n : Network) (loaded : List (List S)) : Network :=
  loaded.foldl (fun n stations => (Survey.mk stations p.radius).apply n) n

/-- The job that carries a list of stations. -/
def jobOf (p : Poller S) (stations : List S) : Job Network := fun n =>
  some ((Survey.mk stations p.radius).apply n)

/-- Poller and writer are up to date with the lists of stations read so far: the poller has the
last one, there has been one job for each, and those handled have been written to the network. -/
structure Current (initial : Poller S) (n : Network) (loaded : List (List S)) (p : Poller S)
    (w : Writer Network) : Prop where
  poller : p = { initial with source := { initial.source with
    stations := loaded.getLast?.getD initial.source.stations } }
  isOpen : w.isOpen = true
  accepted : w.accepted = loaded.length
  handled_le : w.handled ≤ loaded.length
  queue : w.queue = (loaded.drop w.handled).map fun stations => .job (initial.jobOf stations)
  published : w.published = initial.surveyed n (loaded.take w.handled)

theorem current_start (p : Poller S) (n : Network) : p.Current n [] p (.start n) :=
  ⟨rfl, rfl, rfl, Nat.zero_le _, rfl, rfl⟩

theorem surveyed_append (p : Poller S) (n : Network) (loaded loaded' : List (List S)) :
    p.surveyed n (loaded ++ loaded') = p.surveyed (p.surveyed n loaded) loaded' :=
  List.foldl_append

theorem Current.work (h : initial.Current n loaded p w) :
    initial.Current n loaded p w.work := by
  unfold Writer.work
  by_cases hlt : w.handled < loaded.length
  · have hqueue := h.queue
    rw [List.drop_eq_getElem_cons hlt, List.map_cons] at hqueue
    rw [hqueue]
    refine ⟨h.poller, h.isOpen, h.accepted, hlt, rfl, ?_⟩
    show (initial.jobOf loaded[w.handled] w.published).getD w.published =
      initial.surveyed n (loaded.take (w.handled + 1))
    rw [List.take_succ_eq_append_getElem hlt, surveyed_append, ← h.published]
    rfl
  · have hqueue := h.queue
    rw [List.drop_eq_nil_of_le (Nat.le_of_not_lt hlt), List.map_nil] at hqueue
    rw [hqueue]
    exact h

theorem Current.makeRoom (h : initial.Current n loaded p w) :
    initial.Current n loaded p w.makeRoom := by
  unfold Writer.makeRoom
  split_ifs
  · exact h.work
  · exact h

theorem Current.read?_eq (h : initial.Current n loaded p w) :
    p.source.read? = initial.source.read? := by
  rw [h.poller]

/-- A cycle that cannot read everything changes nothing. -/
theorem Current.poll_of_fails (h : initial.Current n loaded p w)
    (hread : initial.source.read? found = none) : p.poll found w = (p, w, .done) := by
  have hupdate : p.source.update found = (p.source, false) := by
    unfold Source.update
    rw [h.read?_eq, hread]
  unfold Poller.poll
  rw [hupdate]

/-- A cycle that reads everything keeps the stations, and queues the job that carries them. -/
theorem Current.poll_of_loads (h : initial.Current n loaded p w) {stations : List S}
    (hread : initial.source.read? found = some stations) : ∃ p' w',
      p.poll found w = (p', w', .done) ∧ initial.Current n (loaded ++ [stations]) p' w' := by
  have hroom := h.makeRoom
  have hupdate : p.source.update found = ({ p.source with stations := stations }, true) := by
    unfold Source.update
    rw [h.read?_eq, hread, ← h.read?_eq]
  have hpoll : p.poll found w = ({ p with source := { p.source with stations := stations } },
      w.makeRoom.push (initial.jobOf stations), .done) := by
    unfold Poller.poll Writer.submit
    rw [hupdate]
    simp only [hroom.isOpen, if_true]
    rw [h.poller]
    rfl
  refine ⟨_, _, hpoll, ?_, hroom.isOpen, ?_, ?_, ?_, ?_⟩
  · rw [h.poller, List.getLast?_concat]
    rfl
  · show w.makeRoom.accepted + 1 = _
    rw [hroom.accepted, List.length_append, List.length_singleton]
  · rw [List.length_append]
    exact Nat.le_add_right_of_le hroom.handled_le
  · show w.makeRoom.queue ++ _ = ((loaded ++ [stations]).drop w.makeRoom.handled).map _
    rw [hroom.queue, List.drop_append_of_le_length hroom.handled_le, List.map_append]
    rfl
  · show w.makeRoom.published = initial.surveyed n ((loaded ++ [stations]).take w.makeRoom.handled)
    rw [List.take_append_of_le_length hroom.handled_le]
    exact hroom.published

theorem Current.step (h : initial.Current n loaded p w) (e : Event) :
    initial.Current n (loaded ++ (e.found?.bind initial.source.read?).toList)
      (Poller.step (p, w) e).1 (Poller.step (p, w) e).2 := by
  cases e with
  | work => exact (List.append_nil loaded).symm ▸ h.work
  | cycle found =>
    show initial.Current n (loaded ++ (initial.source.read? found).toList)
      (p.poll found w).1 (p.poll found w).2.1
    cases hread : initial.source.read? found with
    | none =>
      rw [h.poll_of_fails hread]
      exact (List.append_nil loaded).symm ▸ h
    | some stations =>
      obtain ⟨p', w', hpoll, hcurrent⟩ := h.poll_of_loads hread
      rw [hpoll]
      exact hcurrent

theorem Current.run (h : initial.Current n loaded p w) (events : List Event) :
    initial.Current n (loaded ++ initial.loads events)
      (events.foldl Poller.step (p, w)).1 (events.foldl Poller.step (p, w)).2 := by
  induction events generalizing loaded p w with
  | nil => exact (List.append_nil loaded).symm ▸ h
  | cons e events ih =>
    have hrun := ih (h.step e)
    have hloads : initial.loads (e :: events) =
        (e.found?.bind initial.source.read?).toList ++ initial.loads events := by
      unfold loads
      rw [List.filterMap_cons]
      cases e.found?.bind initial.source.read? <;> rfl
    rw [hloads, ← List.append_assoc]
    exact hrun

theorem Current.works (h : initial.Current n loaded p w) (queue : List (Writer.Message Network)) :
    initial.Current n loaded p (w.run (queue.map fun _ => .work)) := by
  induction queue generalizing w with
  | nil => exact h
  | cons message queue ih => exact ih h.work

/-- Once the writer has handled everything, each list of stations has been written. -/
theorem Current.drain (h : initial.Current n loaded p w) :
    initial.Current n loaded p w.drain ∧ w.drain.published = initial.surveyed n loaded := by
  have hdrain : initial.Current n loaded p w.drain := h.works w.queue
  have hqueue := hdrain.queue
  rw [(Writer.Session.drain_spec w).1] at hqueue
  have hall : loaded.length ≤ w.drain.handled :=
    List.drop_eq_nil_iff.mp (List.map_eq_nil_iff.mp hqueue.symm)
  refine ⟨hdrain, ?_⟩
  rw [hdrain.published, List.take_of_length_le hall]

/-! ## All or nothing -/

/-- A cycle of a poller reads everything or changes nothing. The two sources read the stations of a
report just when all its files are there and well-formed. After any cycles and any work of the
writer between them, the poller has the stations of the last cycle that read everything, and none if
there was none. There has been one job for each such cycle: those handled have been written to the
network in the order of the cycles, those in the queue carry the stations of the others, and once
the writer has handled everything all have been written. -/
theorem cycles_all_or_nothing :
    (∀ url cutOff found stations, (airSource url cutOff).read? found = some stations ↔
      AirStation.Loads url cutOff found stations) ∧
    (∀ positions levels hour found stations,
      (noiseSource positions levels hour).read? found = some stations ↔
        NoiseStation.Loads positions levels hour found stations) ∧
    ∀ (S : Type) [Station S] (p : Poller S) (n : Network) (events : List Event),
      p.source.stations = [] → ∀ p' w', events.foldl step (p, .start n) = (p', w') →
        p'.source.stations = (p.loads events).getLast?.getD [] ∧
        w'.isOpen = true ∧ w'.accepted = (p.loads events).length ∧
        w'.queue = ((p.loads events).drop w'.handled).map (fun stations =>
          .job fun n => some ((Survey.mk stations p.radius).apply n)) ∧
        w'.published = ((p.loads events).take w'.handled).foldl (fun n stations =>
          (Survey.mk stations p.radius).apply n) n ∧
        w'.drain.published = (p.loads events).foldl (fun n stations =>
          (Survey.mk stations p.radius).apply n) n ∧
        ∀ found, (p'.poll found w').2.2 = .done ∧
          (p.source.read? found = none → p'.poll found w' = (p', w', .done)) := by
  refine ⟨fun _ _ _ _ => airSource_read?, fun _ _ _ _ _ => noiseSource_read?, ?_⟩
  intro S _ p n events hempty p' w' hrun
  have h : p.Current n (p.loads events) p' w' := by
    have h := (current_start p n).run events
    rwa [List.nil_append, hrun] at h
  refine ⟨?_, h.isOpen, h.accepted, h.queue, h.published, h.drain.2, fun found => ?_⟩
  · rw [h.poller, hempty]
  · refine ⟨?_, h.poll_of_fails⟩
    cases hread : p.source.read? found with
    | none => rw [h.poll_of_fails hread]
    | some stations =>
      obtain ⟨p'', w'', hpoll, -⟩ := h.poll_of_loads hread
      rw [hpoll]

/-! ## Two mornings -/

/-- What some files under paths hold; all others are missing. -/
def folder (files : List (String × ByteArray)) : Surroundings where
  now := ⟨0, 0⟩
  madrid := .ofRule "Europe/Madrid" (.fixed 3600)
  content
    | .file path => files.lookup path
    | .remote _ => none

/-- A poller of noise at noon. -/
def noon : Poller NoiseStation :=
  { name := "noon", source := noiseSource "places" "levels" (some 12) }

/-- The position of one station, below two records that say nothing. -/
def oneStation : String := "-\n-\n1;Paseo;2;3 42 0 O;40 25 0\n"

/-- One file is missing at first, and later the other. In between an octet of the levels is not
UTF-8. -/
def morning : List Event :=
  [.cycle (folder [("places", oneStation.toUTF8)]),
    .cycle (folder [("places", oneStation.toUTF8), ("levels", "".toUTF8)]),
    .cycle (folder [("places", "-".toUTF8), ("levels", ⟨#[0xff]⟩)]),
    .cycle (folder [("levels", "".toUTF8)]), .work,
    .cycle (folder [("places", (oneStation ++ "2;Calle;3;3 42 0 O;40 25 0").toUTF8),
      ("levels", "1,2024,3,14,D".toUTF8)]),
    .cycle (folder [("places", "-".toUTF8)])]

/-- The text of an object with some fields. -/
def object (fields : String) : String := "\x7b" ++ fields ++ "\x7d"

/-- A poller of the quality of the air since 1970. -/
def breeze : Poller AirStation :=
  { name := "breeze", source := airSource "air" (some ⟨0, 0⟩) }

/-- The report of some locations. -/
def airReport (locations : String) : Surroundings :=
  folder [("air", (object ("\"results\":[" ++ locations ++ "]")).toUTF8)]

/-- A location with coordinates. -/
def parkLocation : String :=
  object ("\"location\":\"park\",\"coordinates\":" ++
    object "\"latitude\":40.4,\"longitude\":-3.7")

/-- A location with coordinates and a measurement, the fields of which are listed. -/
def lakeLocation : String :=
  object ("\"location\":\"lake\",\"coordinates\":[40.5,-3.8],\"measurements\":[" ++
    "[\"no2\",4e1,\"2024-03-14T08:00:00Z\"]]")

/-- The report is missing at first. Later it has no results, a location whose name is a number, or
no end. -/
def breezyMorning : List Event :=
  [.cycle (folder []), .cycle (airReport (parkLocation ++ "," ++ object "")), .work,
    .cycle (folder [("air", (object "").toUTF8)]),
    .cycle (airReport (parkLocation ++ "," ++ object "\"location\":3")),
    .cycle (airReport (lakeLocation ++ "," ++ parkLocation)),
    .cycle (folder [("air", "[[".toUTF8)])]

/-- Of the cycles of either morning two count, and the job of the second is still in the queue. -/
theorem morning_all_or_nothing :
    (∃ p' w', morning.foldl step (noon, .start (Draft.empty Draft.noService).toNetwork) = (p', w') ∧
      p'.source.stations.map (·.id) = ["1", "2"] ∧ w'.accepted = 2 ∧ w'.handled = 1 ∧
      w'.queue.length = 1 ∧ w'.isOpen = true) ∧
    (∃ p' w', breezyMorning.foldl step (breeze, .start (Draft.empty Draft.noService).toNetwork) =
        (p', w') ∧
      p'.source.stations.map (fun s => (s.location, s.measurements.map (·.pollutant))) =
        [("lake", [.no2]), ("park", [])] ∧ w'.accepted = 2 ∧ w'.handled = 1 ∧
      w'.queue.length = 1 ∧ w'.isOpen = true) ∧
    (∀ stations, ¬ AirStation.Loads "air" none (folder [("air", (object "").toUTF8)]) stations) ∧
    ∃ stations, AirStation.Loads "air" none (airReport parkLocation) stations := by
  obtain ⟨hair, -, hrun⟩ := cycles_all_or_nothing
  have hmorning {S T : Type} [Station S] {p : Poller S} {events : List Event} {view : S → T}
      {first last : List T} (hempty : p.source.stations = [])
      (hloads : (p.loads events).map (·.map view) = [first, last])
      (hhandled : (events.foldl step (p, .start
        (Draft.empty Draft.noService).toNetwork)).2.handled = 1) :
      ∃ p' w', events.foldl step (p, .start (Draft.empty Draft.noService).toNetwork) = (p', w') ∧
        p'.source.stations.map view = last ∧ w'.accepted = 2 ∧ w'.handled = 1 ∧
        w'.queue.length = 1 ∧ w'.isOpen = true := by
    obtain ⟨⟨p', w'⟩, hend⟩ : ∃ s, events.foldl step (p, .start
        (Draft.empty Draft.noService).toNetwork) = s := ⟨_, rfl⟩
    rw [hend] at hhandled
    obtain ⟨hstations, hopen, haccepted, hqueue, -⟩ := hrun S p _ events hempty p' w' hend
    have hlength : (p.loads events).length = 2 := by
      have h := congrArg List.length hloads
      rwa [List.length_map] at h
    refine ⟨p', w', hend, ?_, haccepted.trans hlength, hhandled, ?_, hopen⟩
    · have hlast : ((p.loads events).getLast?.getD []).map view =
          ((p.loads events).map (·.map view)).getLast?.getD [] := by
        rw [List.getLast?_map]
        cases (p.loads events).getLast? <;> rfl
      rw [hstations, hlast, hloads]
      rfl
    · rw [hqueue, List.length_map, List.length_drop, hhandled, hlength]
  refine ⟨hmorning rfl (by decide +kernel : _ = [["1"], _]) (by decide +kernel),
    hmorning rfl (by decide +kernel : _ = [[("park", [])], _]) (by decide +kernel), ?_, ?_⟩
  · intro stations h
    have hnone : ((airSource "air" none).read?
        (folder [("air", (object "").toUTF8)])).isSome = false := by
      decide +kernel
    rw [(hair "air" none _ stations).mpr h] at hnone
    cases hnone
  · have hsome : ((airSource "air" none).read? (airReport parkLocation)).isSome = true := by
      decide +kernel
    obtain ⟨stations, hread⟩ := Option.isSome_iff_exists.mp hsome
    exact ⟨stations, (hair "air" none _ stations).mp hread⟩

end Poller

end JourneyPlanner
