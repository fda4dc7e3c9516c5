import Mathlib.Data.List.Find
import Mathlib.Order.Bounds.Basic
import JourneyPlanner.Proofs.Journey.ThereAndBack
import JourneyPlanner.Proofs.Journey.Waits

/-!
# Vehicles of the whole window

A vehicle is looked for on three days. Backward in time the search takes the latest arrival of all
three, because none arrives on a day before the day begins
(`NetworkDescription.alights_from_latest`). Forward in time it takes the earliest departure of the
days that have begun (`NetworkDescription.boards_earliest_begun`). One of a day that is yet to begin
can be earlier, or the only one, and is not found.
-/

namespace JourneyPlanner

variable {W : Type} [Weight W] {c : Context} {e : Edge} {g : Gate} {s s' : State W}
  {stop : StopId} {meeting wait t : Int} {penalty : W} {day : ServiceDay} {p : FrequencyPattern}
  {taken : List (Passage W)}

/-! ## From when on a vehicle may be met -/

/-- What edges leave true of every state: it goes in the direction of the search, a vehicle that was
left was left before, and a trip is remembered only after a boarding. -/
structure Context.Consistent (c : Context) (s : State W) : Prop where
  arriveBy_eq : s.arriveBy = c.arriveBy
  alighted : c.AlightedBefore s
  boarded : s.everBoarded = false → s.previousTrip = none

theorem Context.consistent_origin {v : VertexId} :
    c.Consistent (State.origin v t c.request : State W) :=
  ⟨rfl, nofun, fun _ => rfl⟩

theorem Context.Consistent.step (hs : c.Consistent s) (h : c.Takes e s s') : c.Consistent s' := by
  have halighted := hs.alighted.step hs.arriveBy_eq h
  cases h with
  | find => exact ⟨hs.arriveBy_eq, halighted, nofun⟩
  | leave | stay | change | walk => exact ⟨hs.arriveBy_eq, halighted, hs.boarded⟩

theorem Context.Leads.consistent {v : VertexId}
    (h : c.Leads (State.origin v t c.request) taken s) : c.Consistent s := by
  induction h with
  | start => exact Context.consistent_origin
  | take _ _ ht ih => exact ih.step (Edge.traverse_eq_ok.mp ht)

/-- The transfer that finding a vehicle at a gate makes. -/
def Gate.transfer (g : Gate) (c : Context) (s : State W) : TransferTime :=
  match g.stop? with
  | some stop => transferAt c s stop g.pattern.trip
  | none => .unknown

/-- From when on a vehicle may be met at a gate: the time of the state or, if it comes later in the
direction of the search, the end of the least time of the transfer. -/
def Gate.meetingTime (g : Gate) (c : Context) (s : State W) : Int :=
  match g.transfer c s, s.lastAlighted with
  | .minimum least, some alighted =>
    if c.arriveBy then min s.time (alighted - least) else max s.time (alighted + least)
  | _, _ => s.time

omit [Weight W] in
theorem Gate.exactMeeting_eq (hs : c.AlightedBefore s) (hstop : g.stop? = some stop) :
    exactMeeting c s (transferAt c s stop g.pattern.trip) = g.meetingTime c s := by
  unfold exactMeeting Gate.meetingTime Gate.transfer
  rw [hstop]
  simp only
  cases transferAt c s stop g.pattern.trip with
  | minimum least =>
    cases ha : s.lastAlighted with
    | none => rfl
    | some alighted =>
      simp only [TransferTime.minimumSeconds?, onward]
      by_cases hleast : least = 0
      · -- a transfer that needs no time ends when the vehicle was left
        have hbefore := hs alighted ha
        unfold Sooner at hbefore
        rw [if_pos hleast, hleast]
        split_ifs at hbefore ⊢ <;> omega
      · rw [if_neg hleast]
        split_ifs <;> rfl
  | unknown | preferred | timed | forbidden => rfl

theorem Gate.meeting_eq (hs : c.Consistent s) (hstop : g.stop? = some stop)
    (h : checkTransfer c s stop g.pattern.trip = .ok (meeting, penalty)) :
    meeting = g.meetingTime c s ∧ Sooner c.arriveBy s.time meeting := by
  refine ⟨?_, sooner_checkTransfer h⟩
  cases hever : s.everBoarded with
  | false =>
    rw [checkTransfer_first hever] at h
    obtain ⟨rfl, -⟩ := Prod.mk.inj (Except.ok.inj h)
    unfold Gate.meetingTime Gate.transfer transferAt
    rw [hstop, hs.boarded hever]
    cases s.previousStop <;> rfl
  | true =>
    obtain ⟨-, -, hmeeting, -⟩ := (checkTransfer_eq_ok hever).mp h
    exact (JourneyPlanner.exactMeeting_eq hmeeting).symm.trans
      (Gate.exactMeeting_eq hs.alighted hstop)

/-! ## The vehicle of a day -/

/-- When the nearest vehicle of a day is at a gate, if the day runs the pattern: the first to leave
from when on it may be met, and backward in time the last to arrive until then. Seconds are counted
without bound. -/
def Gate.vehicleOn? (g : Gate) (c : Context) (s : State W) (day : ServiceDay) : Option Int :=
  if day.runs g.pattern.service then
    Option.join <| Except.toOption do
      let t ← day.sinceMidnight .unbounded (g.meetingTime c s)
      let hit? ← g.nearestTime? c.exact t ⟨c.request.wheelchair, s.streetMode == .bicycle⟩
      hit?.mapM (day.instantOf .unbounded)
  else none

omit [Weight W] in
theorem Gate.vehicleOn?_eq_some :
    g.vehicleOn? c s day = some t ↔ day.runs g.pattern.service = true ∧
      ∃ hit, g.exactTime? c (g.meetingTime c s - day.midnight)
        ⟨c.request.wheelchair, s.streetMode == .bicycle⟩ = some hit ∧ day.midnight + hit = t := by
  unfold Gate.vehicleOn? ServiceDay.sinceMidnight ServiceDay.instantOf
  by_cases hruns : day.runs g.pattern.service = true
  · rw [if_pos hruns, and_iff_right hruns, ← Option.map_eq_some_iff]
    simp only [Integers.fit_unbounded, Gate.nearestTime?_unbounded (c := c.exact) rfl, bind,
      Except.bind]
    change Option.join (Except.toOption ((g.exactTime? c (g.meetingTime c s - day.midnight) _).mapM
      _)) = _ ↔ _
    cases g.exactTime? c (g.meetingTime c s - day.midnight)
      ⟨c.request.wheelchair, s.streetMode == .bicycle⟩ <;> rfl
  · rw [if_neg hruns]
    exact iff_of_false nofun fun h => hruns h.1

omit [Weight W] in
/-- A day offers its vehicle to a search if it has begun, not too long ago. -/
theorem Gate.exactWait?_iff_vehicleOn? :
    g.exactWait? c s (g.meetingTime c s) day = some wait ↔
      (0 ≤ g.meetingTime c s - day.midnight ∧ g.meetingTime c s - day.midnight < 2 ^ 31) ∧
        g.vehicleOn? c s day = some (onward c.arriveBy s.time wait) := by
  rw [Gate.exactWait?_eq_some, Gate.vehicleOn?_eq_some, and_assoc]
  simp only [eq_comm]

/-! ## The nearest of several days -/

/-- Whether a state is on board of the nearest of the vehicles that days have at a gate, on the
first of the days that have one then. -/
structure Gate.BoardsNearest (g : Gate) (c : Context) (s : State W) (days : List ServiceDay)
    (s' : State W) : Prop where
  day_isSome : s'.serviceDay.isSome = true
  day_eq : s'.serviceDay = days.find? fun d => g.vehicleOn? c s d == some s'.time
  nearest : ∀ d ∈ days, ∀ t, g.vehicleOn? c s d = some t → Sooner c.arriveBy s'.time t

/-- The times at which days have their nearest vehicles at a gate. -/
def Gate.times (g : Gate) (c : Context) (s : State W) (days : List ServiceDay) : Set Int :=
  {t | ∃ d ∈ days, g.vehicleOn? c s d = some t}

omit [Weight W] in
theorem Gate.BoardsNearest.mem_times {days : List ServiceDay}
    (h : g.BoardsNearest c s days s') : s'.time ∈ g.times c s days := by
  obtain ⟨d, hd⟩ := Option.isSome_iff_exists.mp h.day_isSome
  have hfind := h.day_eq.symm.trans hd
  have htime : (g.vehicleOn? c s d == some s'.time) = true :=
    List.find?_some (p := fun d => g.vehicleOn? c s d == some s'.time) hfind
  exact ⟨d, List.mem_of_find?_eq_some hfind, beq_iff_eq.mp htime⟩

omit [Weight W] in
theorem Gate.BoardsNearest.isLeast {days : List ServiceDay} (h : g.BoardsNearest c s days s')
    (ha : c.arriveBy = false) : IsLeast (g.times c s days) s'.time := by
  refine ⟨h.mem_times, ?_⟩
  rintro t ⟨d, hd, ht⟩
  have hsooner := h.nearest d hd t ht
  rw [ha] at hsooner
  exact hsooner

omit [Weight W] in
theorem Gate.BoardsNearest.isGreatest {days : List ServiceDay} (h : g.BoardsNearest c s days s')
    (ha : c.arriveBy = true) : IsGreatest (g.times c s days) s'.time := by
  refine ⟨h.mem_times, ?_⟩
  rintro t ⟨d, hd, ht⟩
  have hsooner := h.nearest d hd t ht
  rw [ha] at hsooner
  exact hsooner

/-- Only for want of a vehicle is there no service. -/
theorem Gate.noVehicle_of_noService (h : g.findVehicle e s c = .error .noService) :
    ∃ stop meeting penalty, g.stop? = some stop ∧
      checkTransfer c s stop g.pattern.trip = .ok (meeting, penalty) ∧
      g.nearestVehicle? c s meeting = .ok none := by
  obtain ⟨stop, meeting, penalty, hstop, htransfer, ⟨-, hnone⟩ | ⟨hr, -⟩⟩ :=
    Gate.lookup_of_error h (.inl rfl)
  · exact ⟨stop, meeting, penalty, hstop, htransfer, hnone⟩
  · cases hr

/-- Whether a test selects, of the days that have a vehicle at a gate, those whose vehicle can be
met: they have begun, not too long ago. -/
def Gate.SelectsMet (g : Gate) (c : Context) (s : State W) (met : ServiceDay → Bool) : Prop :=
  ∀ d ∈ c.days.toList, ∀ t, g.vehicleOn? c s d = some t → (met d = true ↔
    0 ≤ g.meetingTime c s - d.midnight ∧ g.meetingTime c s - d.midnight < 2 ^ 31)

section

variable {met : ServiceDay → Bool}

omit [Weight W] in
theorem Gate.SelectsMet.exactWait?_iff (hmet : g.SelectsMet c s met) (hd : day ∈ c.days.toList) :
    g.exactWait? c s (g.meetingTime c s) day = some wait ↔
      met day = true ∧ g.vehicleOn? c s day = some (onward c.arriveBy s.time wait) := by
  rw [Gate.exactWait?_iff_vehicleOn?]
  exact and_congr_left fun ht => (hmet day hd _ ht).symm

omit [Weight W] in
theorem Gate.SelectsMet.exists_exactWait? (hmet : g.SelectsMet c s met)
    (hd : day ∈ c.days.toList.filter met) (ht : g.vehicleOn? c s day = some t) :
    ∃ w, t = onward c.arriveBy s.time w ∧ g.exactWait? c s (g.meetingTime c s) day = some w := by
  obtain ⟨hd, hm⟩ := List.mem_filter.mp hd
  obtain ⟨w, rfl⟩ : ∃ w, t = onward c.arriveBy s.time w := by
    unfold onward
    split_ifs
    · exact ⟨s.time - t, by omega⟩
    · exact ⟨t - s.time, by omega⟩
  exact ⟨w, rfl, (hmet.exactWait?_iff hd).mpr ⟨hm, ht⟩⟩

omit [Weight W] in
/-- The shortest wait is for the nearest of the vehicles that can be met. -/
theorem Gate.SelectsMet.exactVehicle? (hmet : g.SelectsMet c s met)
    (hsooner : Sooner c.arriveBy s.time (g.meetingTime c s)) :
    (g.exactVehicle? c s (g.meetingTime c s) = none ∧
      ∀ d ∈ c.days.toList.filter met, g.vehicleOn? c s d = none) ∨
    ∃ w day, g.exactVehicle? c s (g.meetingTime c s) = some (w, day) ∧
      (c.days.toList.filter met).find?
        (fun d => g.vehicleOn? c s d == some (onward c.arriveBy s.time w)) = some day ∧
      ∀ d ∈ c.days.toList.filter met, ∀ t, g.vehicleOn? c s d = some t →
        Sooner c.arriveBy (onward c.arriveBy s.time w) t := by
  rcases Gate.exactVehicle?_first (fun _ _ _ => Gate.exactWait?_nonneg hsooner) with
    ⟨hnone, hall⟩ | ⟨w, day, hr, hfirst, hle⟩
  · refine .inl ⟨hnone, ?_⟩
    intro d hd
    cases ht : g.vehicleOn? c s d with
    | none => rfl
    | some t =>
      obtain ⟨w, -, hw⟩ := hmet.exists_exactWait? hd ht
      rw [hall d (List.mem_of_mem_filter hd)] at hw
      cases hw
  · refine .inr ⟨w, day, hr, ?_, ?_⟩
    · rw [List.find?_filter]
      refine (List.find?_congr ?_).trans hfirst
      intro d hd
      rw [Bool.eq_iff_iff]
      simp only [beq_iff_eq, decide_eq_true_eq, hmet.exactWait?_iff hd]
    · intro d hd t ht
      obtain ⟨w', rfl, hw'⟩ := hmet.exists_exactWait? hd ht
      exact onward_le_onward_iff.mpr (hle d (List.mem_of_mem_filter hd) w' hw')

/-- At a gate the nearest of the vehicles that can be met is found, on the first day that has it
then, and there is no service only if none can be met. -/
theorem Gate.SelectsMet.traverse (hmet : g.SelectsMet c s met) (hs : c.Consistent s)
    (hl : e.link = g.link) (hside : g.boarding ≠ c.arriveBy) :
    (∀ s', e.traverse s c = .ok s' → g.BoardsNearest c s (c.days.toList.filter met) s') ∧
      (e.traverse s c = .error .noService →
        ∀ d ∈ c.days.toList.filter met, g.vehicleOn? c s d = none) := by
  constructor
  · intro s' h
    obtain ⟨stop, meeting, wait, day, penalty, hfinds, rfl⟩ := Gate.finds_of_traverse hl hside h
    obtain ⟨rfl, hsooner⟩ := Gate.meeting_eq hs hfinds.stop_eq hfinds.transfer_eq
    have htime : (g.boarded e s c stop wait day (g.fare s c wait penalty)).time =
        onward c.arriveBy s.time wait := by
      show onward s.arriveBy s.time wait = _
      rw [hs.arriveBy_eq]
    have hvehicle := Gate.exactVehicle?_eq hfinds.vehicle_eq
    rcases hmet.exactVehicle? hsooner with ⟨hnone, -⟩ | ⟨w, d, hr, hfirst, hnearest⟩
    · rw [hvehicle] at hnone
      cases hnone
    · obtain ⟨rfl, rfl⟩ := Prod.mk.inj (Option.some.inj (hvehicle.symm.trans hr))
      exact ⟨rfl, by rw [htime]; exact hfirst.symm, by rw [htime]; exact hnearest⟩
  · intro h
    rw [Edge.traverse_of_gate hl, Gate.traverse, if_neg hside] at h
    obtain ⟨stop, meeting, penalty, hstop, htransfer, hnone⟩ := Gate.noVehicle_of_noService h
    obtain ⟨rfl, hsooner⟩ := Gate.meeting_eq hs hstop htransfer
    rcases hmet.exactVehicle? hsooner with ⟨-, hall⟩ | ⟨w, d, hr, -⟩
    · exact hall
    · rw [Gate.exactVehicle?_eq hnone] at hr
      cases hr

end

/-! ## Days that have begun -/

/-- Vehicles of a timetable that is read from texts are there within four days of the start of their
day. -/
theorem Gate.met_bounds {d : PatternDescription} (hp : d.pattern = .ok g.pattern) {hit : Int}
    {needs : Needs} (h : g.exactTime? c t needs = some hit) :
    0 ≤ hit ∧ hit ≤ 4 * 86400 ∧ Sooner c.arriveBy t hit := by
  have hlatest : (ServiceTime.latest : Int) = 172800 := rfl
  obtain ⟨st, start, hst, hstart, rfl, hsooner⟩ := Gate.exactTime?_spec h
  obtain ⟨hs₀, hs₁⟩ := PatternDescription.isServiceTime_of_runStarts hp hstart
  obtain ⟨⟨ha₀, ha₁⟩, hd₀, hd₁⟩ := PatternDescription.timely hp st (List.mem_of_getElem? hst)
  unfold PatternStop.met at hsooner ⊢
  split_ifs at hsooner ⊢ <;> exact ⟨by omega, by omega, hsooner⟩

/-- The days that have begun when a vehicle may be met at a gate. -/
def Gate.daysBegun (g : Gate) (c : Context) (s : State W) : List ServiceDay :=
  c.days.toList.filter fun d => d.midnight ≤ g.meetingTime c s

variable {description : NetworkDescription} {zones : ZoneDatabase} {n : Network} {i : Nat}

theorem NetworkDescription.exists_pattern_of_gate (hb : description.build zones = .ok n)
    (he : e ∈ n.edges) (hl : e.link = g.link) :
    ∃ d : PatternDescription, d.pattern = .ok g.pattern := by
  obtain ⟨_, _, hp, -⟩ := (wired_of_build hb).gate he hl
  obtain ⟨d, -, hd⟩ := exists_pattern_of_build hb (Array.mem_of_getElem? hp)
  exact ⟨d, hd⟩

/-- Backward in time the alight edge takes the latest arrival of all days, on the first day that has
it then, and there is no service only if no day has an arrival. -/
theorem NetworkDescription.alights_from_latest (hb : description.build zones = .ok n)
    (ha : c.arriveBy = true) (he : e ∈ n.edges) (hl : e.link = .alight p i) (hs : c.Consistent s)
    (hnear : ∀ d ∈ c.days.toList, Gate.meetingTime ⟨p, i, false⟩ c s - d.midnight < 2 ^ 31) :
    (∀ s', e.traverse s c = .ok s' →
      IsGreatest (Gate.times ⟨p, i, false⟩ c s c.days.toList) s'.time ∧
      s'.serviceDay =
        c.days.toList.find? fun d => Gate.vehicleOn? ⟨p, i, false⟩ c s d == some s'.time) ∧
    (e.traverse s c = .error .noService →
      ∀ d ∈ c.days.toList, Gate.vehicleOn? ⟨p, i, false⟩ c s d = none) := by
  obtain ⟨_, hp⟩ := exists_pattern_of_gate (g := ⟨p, i, false⟩) hb he hl
  -- a vehicle that has arrived runs on a day that has begun
  have hmet : Gate.SelectsMet ⟨p, i, false⟩ c s fun _ => true := by
    intro d hd t ht
    obtain ⟨-, hit, hhit, -⟩ := Gate.vehicleOn?_eq_some.mp ht
    obtain ⟨hnonneg, -, hsooner⟩ := Gate.met_bounds hp hhit
    rw [ha] at hsooner
    exact iff_of_true rfl ⟨le_trans hnonneg hsooner, hnear d hd⟩
  have hall := hmet.traverse hs hl (ha ▸ nofun)
  rw [List.filter_true] at hall
  refine ⟨?_, hall.2⟩
  intro s' h
  exact ⟨(hall.1 s' h).isGreatest ha, (hall.1 s' h).day_eq⟩

/-! ## Rides around midnight -/

/-- A bus that runs after the midnight of its day, and a tram that runs in the small hours. A change
between them takes a minute. -/
def nightLines : NetworkDescription where
  timezone := "UTC"
  calendars := [⟨1, "20240101", "20241231", CalendarRule.everyDay, [], []⟩]
  stops := [.alone stopA, .alone stopB, .alone stopC]
  streetVertices := []
  streets := []
  patterns := [
    ⟨tripEast, routeOne, 1, some .bus, none, true, true,
      [⟨stopA, "00:00:00", none, 0, 0, none, none, true⟩,
        ⟨stopB, "00:05:00", none, 0, 0, none, none, true⟩],
      [⟨"24:00:00", "26:00:00", 600, true⟩]⟩,
    ⟨tripNorth, routeTwo, 1, some .tram, none, true, true,
      [⟨stopB, "00:00:00", none, 0, 0, none, none, true⟩,
        ⟨stopC, "00:04:00", none, 0, 0, none, none, true⟩],
      [⟨"00:00:00", "04:00:00", 300, true⟩]⟩]
  transfers := [⟨stopB, stopB, 2, some 60, none, none, none, none⟩]
  timedTransfers := []

/-- A vehicle found in a trial at the gate to which edges of the given positions lead. -/
theorem Trial.exists_gate (description : NetworkDescription) (q : Query) (limits : SearchLimits)
    (choices : List Nat)
    (check : Trial description q limits → State Exact → Gate → State Exact → Bool)
    (h : ((Trial.run? description q limits []).any fun t =>
      (t.context.lead? (State.origin q.start q.time t.context.request) choices).any fun r =>
        (t.context.network.edgesFrom r.1.2.vertex t.context.arriveBy)[0]?.any fun e =>
          e.gate?.any fun g => (e.traverse r.1.2 t.context).toOption.any fun s' =>
            check t r.1.2 g s') = true) :
    ∃ (t : Trial description q limits) (e : Edge) (g : Gate) (taken : List (Passage Exact))
      (s s' : State Exact),
      t.context.Leads (State.origin q.start q.time t.context.request) taken s ∧
      e ∈ t.network.edges ∧ e.link = g.link ∧ e.traverse s t.context = .ok s' ∧
      check t s g s' = true := by
  obtain ⟨t, -, h⟩ := (Option.any_eq_true _ _).mp h
  obtain ⟨⟨⟨taken, s⟩, hleads⟩, -, h⟩ := (Option.any_eq_true _ _).mp h
  obtain ⟨e, he, h⟩ := (Option.any_eq_true _ _).mp h
  obtain ⟨g, hg, h⟩ := (Option.any_eq_true _ _).mp h
  obtain ⟨s', hs', hcheck⟩ := (Option.any_eq_true _ _).mp h
  have hmem : e ∈ t.network.edges :=
    t.network_eq ▸ Network.mem_edges_of_mem_edgesFrom (List.mem_of_getElem? he)
  exact ⟨t, e, g, taken, s, s', hleads, hmem, Edge.gate?_eq_some.mp hg, eq_ok_of_toOption hs',
    hcheck⟩

/-- Who is to be at the end of the tram at 00:16 takes the tram of this day, and before it the bus
of the day before. -/
theorem nightLines_bus_of_yesterday :
    ∃ (t : Trial nightLines ⟨2, 0, 1710461760, { arriveBy := true }⟩ {}) (p : FrequencyPattern)
      (e : Edge) (taken : List (Passage Exact)) (s s' : State Exact),
      t.context.Leads (State.origin 2 1710461760 t.context.request) taken s ∧
      s.everBoarded = true ∧ e ∈ t.network.edges ∧ e.link = .alight p 1 ∧
      e.traverse s t.context = .ok s' ∧ s'.time = 1710461100 ∧
      s'.serviceDay = some t.context.days.yesterday ∧
      IsGreatest (Gate.times ⟨p, 1, false⟩ t.context s t.context.days.toList) s'.time ∧
      s'.serviceDay = t.context.days.toList.find? fun d =>
        Gate.vehicleOn? ⟨p, 1, false⟩ t.context s d == some s'.time := by
  obtain ⟨t, e, ⟨p, i, boarding⟩, taken, s, s', hleads, hmem, hlink, htaken, hcheck⟩ :=
    Trial.exists_gate nightLines ⟨2, 0, 1710461760, { arriveBy := true }⟩ {} [0, 0, 0]
      (fun t s g s' => t.context.arriveBy && s.everBoarded && !g.boarding && g.index == 1 &&
        s'.time == 1710461100 && s'.serviceDay == some t.context.days.yesterday &&
        t.context.days.toList.all fun d =>
          decide (g.meetingTime t.context s - d.midnight < 2 ^ 31)) (by decide +kernel)
  simp only [Bool.and_eq_true, Bool.not_eq_true', beq_iff_eq, List.all_eq_true,
    decide_eq_true_eq] at hcheck
  obtain ⟨⟨⟨⟨⟨⟨ha, hboarded⟩, rfl⟩, rfl⟩, htime⟩, hday⟩, hnear⟩ := hcheck
  have hlatest := NetworkDescription.alights_from_latest t.build_eq ha hmem hlink
    hleads.consistent hnear
  exact ⟨t, p, e, taken, s, s', hleads, hboarded, hmem, hlink, htaken, htime, hday,
    hlatest.1 s' htaken⟩

/-- Forward in time the board edge takes the earliest departure of the days that have begun, on the
first day that has it then, and there is no service only if none of them has a departure. -/
theorem NetworkDescription.boards_earliest_begun (hb : description.build zones = .ok n)
    (ha : c.arriveBy = false) (he : e ∈ n.edges) (hl : e.link = .board p i) (hs : c.Consistent s) :
    (∀ s', e.traverse s c = .ok s' →
      IsLeast (Gate.times ⟨p, i, true⟩ c s (Gate.daysBegun ⟨p, i, true⟩ c s)) s'.time ∧
      s'.serviceDay = (Gate.daysBegun ⟨p, i, true⟩ c s).find? fun d =>
        Gate.vehicleOn? ⟨p, i, true⟩ c s d == some s'.time) ∧
    (e.traverse s c = .error .noService →
      ∀ d ∈ Gate.daysBegun ⟨p, i, true⟩ c s, Gate.vehicleOn? ⟨p, i, true⟩ c s d = none) := by
  obtain ⟨_, hp⟩ := exists_pattern_of_gate (g := ⟨p, i, true⟩) hb he hl
  -- a vehicle that is yet to leave runs on a day that began a few days ago
  have hmet : Gate.SelectsMet ⟨p, i, true⟩ c s fun d =>
      d.midnight ≤ Gate.meetingTime ⟨p, i, true⟩ c s := by
    intro d _ t ht
    obtain ⟨-, hit, hhit, -⟩ := Gate.vehicleOn?_eq_some.mp ht
    obtain ⟨-, hle, hsooner⟩ := Gate.met_bounds hp hhit
    rw [ha] at hsooner
    unfold Sooner at hsooner
    rw [if_neg Bool.false_ne_true] at hsooner
    rw [decide_eq_true_iff]
    omega
  have hall := hmet.traverse hs hl (ha ▸ nofun)
  refine ⟨?_, hall.2⟩
  intro s' h
  exact ⟨(hall.1 s' h).isLeast ha, (hall.1 s' h).day_eq⟩

/-- Who leaves at 23:58 takes the bus of the day, and after it the tram of the day that has begun in
the meantime. -/
theorem nightLines_tram_of_tomorrow :
    ∃ (t : Trial nightLines ⟨0, 2, 1710460680, {}⟩ {}) (p : FrequencyPattern) (e : Edge)
      (taken : List (Passage Exact)) (s s' : State Exact),
      t.context.Leads (State.origin 0 1710460680 t.context.request) taken s ∧
      s.everBoarded = true ∧ e ∈ t.network.edges ∧ e.link = .board p 0 ∧
      e.traverse s t.context = .ok s' ∧ s'.time = 1710461400 ∧
      s'.serviceDay = some t.context.days.tomorrow ∧
      IsLeast (Gate.times ⟨p, 0, true⟩ t.context s (Gate.daysBegun ⟨p, 0, true⟩ t.context s))
        s'.time ∧
      s'.serviceDay = (Gate.daysBegun ⟨p, 0, true⟩ t.context s).find? fun d =>
        Gate.vehicleOn? ⟨p, 0, true⟩ t.context s d == some s'.time := by
  obtain ⟨t, e, ⟨p, i, boarding⟩, taken, s, s', hleads, hmem, hlink, htaken, hcheck⟩ :=
    Trial.exists_gate nightLines ⟨0, 2, 1710460680, {}⟩ {} [0, 0, 0]
      (fun t s g s' => !t.context.arriveBy && s.everBoarded && g.boarding && g.index == 0 &&
        s'.time == 1710461400 && s'.serviceDay == some t.context.days.tomorrow) (by decide +kernel)
  simp only [Bool.and_eq_true, Bool.not_eq_true', beq_iff_eq] at hcheck
  obtain ⟨⟨⟨⟨⟨ha, hboarded⟩, rfl⟩, rfl⟩, htime⟩, hday⟩ := hcheck
  have hearliest := NetworkDescription.boards_earliest_begun t.build_eq ha hmem hlink
    hleads.consistent
  exact ⟨t, p, e, taken, s, s', hleads, hboarded, hmem, hlink, htaken, htime, hday,
    hearliest.1 s' htaken⟩

/-- At 23:58 there is no tram to be found, although one leaves two minutes later: its day has not
begun. -/
theorem nightLines_tram_not_found :
    ∃ (t : Trial nightLines ⟨1, 2, 1710460680, {}⟩ {}) (p : FrequencyPattern) (e : Edge),
      e ∈ t.network.edges ∧ e.link = .board p 0 ∧
      e.traverse (State.origin 1 1710460680 t.context.request : State Exact) t.context =
        .error .noService ∧
      Gate.vehicleOn? ⟨p, 0, true⟩ t.context
          (State.origin 1 1710460680 t.context.request : State Exact) t.context.days.tomorrow =
        some (1710460680 + 120) := by
  have h : ((Trial.run? nightLines ⟨1, 2, 1710460680, {}⟩ {} []).any fun t =>
      (t.context.network.edgesFrom 1 t.context.arriveBy)[0]?.any fun e =>
        (match e.traverse (State.origin 1 1710460680 t.context.request : State Exact) t.context with
          | .error r => r == .noService
          | .ok _ => false) &&
        e.gate?.any fun g => g.boarding && g.index == 0 &&
          Gate.vehicleOn? g t.context
            (State.origin 1 1710460680 t.context.request : State Exact) t.context.days.tomorrow ==
              some (1710460680 + 120)) = true := by
    decide +kernel
  obtain ⟨t, -, h⟩ := (Option.any_eq_true _ _).mp h
  obtain ⟨e, he, h⟩ := (Option.any_eq_true _ _).mp h
  rw [Bool.and_eq_true] at h
  obtain ⟨⟨p, i, boarding⟩, hg, hvehicle⟩ := (Option.any_eq_true _ _).mp h.2
  simp only [Bool.and_eq_true, beq_iff_eq] at hvehicle
  obtain ⟨⟨rfl, rfl⟩, hvehicle⟩ := hvehicle
  refine ⟨t, p, e, t.network_eq ▸ Network.mem_edges_of_mem_edgesFrom (List.mem_of_getElem? he),
    Edge.gate?_eq_some.mp hg, ?_, hvehicle⟩
  have htraverse := h.1
  split at htraverse
  · rename_i r heq
    rw [heq, beq_iff_eq.mp htraverse]
  · cases htraverse

end JourneyPlanner
