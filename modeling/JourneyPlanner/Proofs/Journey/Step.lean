import JourneyPlanner.Proofs.Journey.Vehicle

/-!
# What a step does

Taking an edge either fails or has one of five effects, one constructor of `Context.Takes` for
each, with all that was checked on the way (`Edge.traverse_eq_ok`).
-/

namespace JourneyPlanner

variable {W : Type} [Weight W]

/-- Whether a weight can be added to a state. -/
def Weight.IsCharge (w : W) : Prop := Weight.isNaN w = false ∧ Weight.less w Weight.zero = false

variable {c : Context} {g : Gate} {e : Edge} {s s' : State W} {m : Move W}

/-! ## Moves -/

omit [Weight W] in
theorem Move.finish_eq_ok : m.finish = .ok s ↔ m.isDefective = false ∧ m.state = s := by
  unfold Move.finish
  cases m.isDefective <;> simp

theorem Move.isDefective_addWeight {w : W} : (m.addWeight w).isDefective = false ↔
    m.isDefective = false ∧ Weight.IsCharge w := by
  unfold Move.addWeight Weight.IsCharge
  cases Weight.isNaN w <;> cases Weight.less w Weight.zero <;> simp

theorem Move.addWeight_eq {w : W} (h : Weight.IsCharge w) :
    m.addWeight w = { m with state := { m.state with weight := m.state.weight + w } } := by
  unfold Move.addWeight
  rw [h.1, h.2]
  rfl

omit [Weight W] in
theorem Move.advance_eq_ok {k : Integers} {seconds : Int} {m' : Move W} :
    m.advance k seconds = .ok m' ∧ m'.isDefective = false ↔
      m.isDefective = false ∧ 0 ≤ seconds ∧
        k.Holds 64 (onward m.state.arriveBy m.state.time seconds) ∧
        m' = { m with state := { m.state with
          time := onward m.state.arriveBy m.state.time seconds } } := by
  unfold Move.advance
  by_cases h : seconds < 0
  · rw [if_pos h]
    refine ⟨fun ⟨hm, hok⟩ => ?_, fun h' => absurd h'.2.1 (by omega)⟩
    cases Except.ok.inj hm
    cases hok
  · rw [if_neg h, bind_eq_ok]
    constructor
    · rintro ⟨⟨time, htime, hm⟩, hok⟩
      obtain ⟨hheld, rfl⟩ := Integers.fit_eq_ok.mp htime
      cases Except.ok.inj hm
      exact ⟨hok, by omega, hheld, rfl⟩
    · rintro ⟨hok, -, hheld, rfl⟩
      exact ⟨⟨_, Integers.fit_of_holds hheld, rfl⟩, hok⟩

/-- Going on for some seconds at some weight. -/
theorem Move.finish_onward {k : Integers} {seconds : Int} {w : W} {mode : Mode} :
    (do
      let m ← unlessOverflow (m.advance k seconds)
      ((m.addWeight w).setBackMode mode).finish) = .ok s ↔
      (m.isDefective = false ∧ 0 ≤ seconds ∧ Weight.IsCharge w ∧
        k.Holds 64 (onward m.state.arriveBy m.state.time seconds)) ∧
        { m.state with
          time := onward m.state.arriveBy m.state.time seconds
          weight := m.state.weight + w
          backMode := some mode } = s := by
  rw [bind_eq_ok]
  constructor
  · rintro ⟨m', hm', h⟩
    obtain ⟨hok, rfl⟩ := Move.finish_eq_ok.mp h
    obtain ⟨hok, hw⟩ := Move.isDefective_addWeight.mp hok
    obtain ⟨hok, hs, hheld, rfl⟩ :=
      Move.advance_eq_ok.mp ⟨unlessOverflow_eq_ok.mp hm', hok⟩
    exact ⟨⟨hok, hs, hw, hheld⟩, by rw [Move.addWeight_eq hw]; rfl⟩
  · rintro ⟨⟨hok, hs, hw, hheld⟩, rfl⟩
    refine ⟨_, unlessOverflow_eq_ok.mpr (Move.advance_eq_ok.mpr ⟨hok, hs, hheld, rfl⟩).1, ?_⟩
    rw [Move.addWeight_eq hw]
    exact Move.finish_eq_ok.mpr ⟨hok, rfl⟩

/-- Getting on a vehicle after some wait at some weight. -/
theorem Move.finish_boarded {k : Integers} {day : ServiceDay} {wait : Int} {trip : Trip}
    {zone : Option String} {w : W} {mode : Mode} :
    (do
      let m ← unlessOverflow ((m.setServiceDay day).advance k wait)
      ((((m.countBoarding.board trip).setZone zone).addWeight w).setBackMode mode).finish) =
        .ok s ↔
      (m.isDefective = false ∧ 0 ≤ wait ∧ Weight.IsCharge w ∧
        k.Holds 64 (onward m.state.arriveBy m.state.time wait)) ∧
        { m.state with
          time := onward m.state.arriveBy m.state.time wait
          weight := m.state.weight + w
          boardings := m.state.boardings + 1
          everBoarded := true
          trip := some trip
          previousTrip := some trip
          serviceDay := some day
          zone := zone
          backMode := some mode } = s := by
  rw [bind_eq_ok]
  constructor
  · rintro ⟨m', hm', h⟩
    obtain ⟨hok, rfl⟩ := Move.finish_eq_ok.mp h
    obtain ⟨hok, hw⟩ := Move.isDefective_addWeight.mp hok
    obtain ⟨hok, hs, hheld, rfl⟩ :=
      Move.advance_eq_ok.mp ⟨unlessOverflow_eq_ok.mp hm', hok⟩
    exact ⟨⟨hok, hs, hw, hheld⟩, by rw [Move.addWeight_eq hw]; rfl⟩
  · rintro ⟨⟨hok, hs, hw, hheld⟩, rfl⟩
    refine ⟨_, unlessOverflow_eq_ok.mpr
      (Move.advance_eq_ok (m := m.setServiceDay day).mpr ⟨hok, hs, hheld, rfl⟩).1, ?_⟩
    rw [Move.addWeight_eq hw]
    exact Move.finish_eq_ok.mpr ⟨hok, rfl⟩

namespace Gate

/-- The link of a gate. -/
def link (g : Gate) : Link :=
  if g.boarding then .board g.pattern g.index else .alight g.pattern g.index

/-- What those who pass are told. -/
def notes (g : Gate) (stop : StopId) : List Note :=
  match g.access with
  | .regular => []
  | access => [⟨stop, access, g.boarding⟩]

omit [Weight W] in
theorem pass_eq_ok {stop : StopId} {m' : Move W} : g.pass stop m = .ok m' ↔
    g.access ≠ .notAvailable ∧
      m' = { m with state := { m.state with notes := m.state.notes ++ g.notes stop } } := by
  unfold Gate.pass Gate.notes
  cases g.access with
  | regular =>
    rw [List.append_nil]
    exact ⟨fun h => ⟨nofun, (Except.ok.inj h).symm⟩, fun h => congrArg _ h.2.symm⟩
  | notAvailable => exact ⟨nofun, fun h => absurd rfl h.1⟩
  | mustPhone | coordinateWithDriver =>
    exact ⟨fun h => ⟨nofun, (Except.ok.inj h).symm⟩, fun h => congrArg _ h.2.symm⟩

/-- On board of a vehicle found at a gate. -/
def boarded (g : Gate) (e : Edge) (s : State W) (c : Context) (stop : StopId) (wait : Int)
    (day : ServiceDay) (weight : W) : State W :=
  { s with
    vertex := e.target c.arriveBy
    time := onward s.arriveBy s.time wait
    weight := s.weight + weight
    boardings := s.boardings + 1
    everBoarded := true
    trip := some g.pattern.trip
    previousTrip := some g.pattern.trip
    serviceDay := some day
    zone := g.pattern.zoneAt g.index
    backMode := some .legSwitch
    backEdge := some e.reference
    notes := g.notes stop }

/-- Back on the ground behind a gate. -/
def left (g : Gate) (e : Edge) (s : State W) (c : Context) (stop : StopId) : State W :=
  { s with
    vertex := e.target c.arriveBy
    trip := none
    previousStop := some stop
    lastAlighted := some s.time
    backMode := some .legSwitch
    backEdge := some e.reference
    notes := g.notes stop }

/-- What boarding at a gate weighs. -/
def fare (g : Gate) (s : State W) (c : Context) (wait : Int) (penalty : W) : W :=
  c.request.boardingWeight {
    wait := wait
    first := !s.everBoarded
    transferPenalty := penalty
    preferencePenalty := c.request.preferencePenalty g.pattern.trip
    mode := s.streetMode }

/-- Finding a vehicle, with all that is checked. -/
structure Finds (g : Gate) (s : State W) (c : Context) (stop : StopId) (meeting wait : Int)
    (day : ServiceDay) (penalty : W) : Prop where
  mode_allowed : c.request.modes.contains g.pattern.mode = true
  stop_eq : g.stop? = some stop
  transfer_eq : checkTransfer c s stop g.pattern.trip = .ok (meeting, penalty)
  trip_allowed : c.request.bansTrip g.pattern.trip = false
  vehicle_eq : g.nearestVehicle? c s meeting = .ok (some (wait, day))
  wait_nonneg : 0 ≤ wait
  held : c.integers.Holds 64 (onward s.arriveBy s.time wait)
  route_allowed : c.request.bansRoute g.pattern.trip = false
  access : g.access ≠ .notAvailable
  charge : Weight.IsCharge (g.fare s c wait penalty)

theorem findVehicle_eq_ok : g.findVehicle e s c = .ok s' ↔ ∃ stop meeting wait day penalty,
    g.Finds s c stop meeting wait day penalty ∧
      s' = g.boarded e s c stop wait day (g.fare s c wait penalty) := by
  constructor
  · intro h
    unfold Gate.findVehicle at h
    obtain ⟨hmode, h⟩ := refuse_eq_ok.mp h
    cases hstop : g.stop? with
    | none => rw [hstop] at h; cases h
    | some stop =>
      rw [hstop] at h
      obtain ⟨⟨meeting, penalty⟩, htransfer, h⟩ := bind_eq_ok.mp h
      obtain ⟨htrip, h⟩ := refuse_eq_ok.mp h
      obtain ⟨hit?, hvehicle, h⟩ := bind_eq_ok.mp h
      cases hit? with
      | none => cases h
      | some hit =>
        obtain ⟨wait, day⟩ := hit
        obtain ⟨hwait, h⟩ := refuse_eq_ok.mp h
        obtain ⟨hroute, h⟩ := refuse_eq_ok.mp h
        obtain ⟨m, hpass, h⟩ := bind_eq_ok.mp h
        obtain ⟨haccess, rfl⟩ := pass_eq_ok.mp hpass
        obtain ⟨⟨-, -, hcharge, hheld⟩, rfl⟩ := Move.finish_boarded.mp h
        exact ⟨stop, meeting, wait, day, penalty, ⟨by simpa using hmode, hstop, htransfer,
          by simpa using htrip, unlessOverflow_eq_ok.mp hvehicle, by omega, hheld,
          by simpa using hroute, haccess, hcharge⟩, rfl⟩
  · rintro ⟨stop, meeting, wait, day, penalty, h, rfl⟩
    unfold Gate.findVehicle
    refine refuse_eq_ok.mpr ⟨by rw [h.mode_allowed]; decide, ?_⟩
    rw [h.stop_eq]
    refine bind_eq_ok.mpr ⟨_, h.transfer_eq, ?_⟩
    refine refuse_eq_ok.mpr ⟨by rw [h.trip_allowed]; decide, ?_⟩
    refine bind_eq_ok.mpr ⟨_, unlessOverflow_eq_ok.mpr h.vehicle_eq, ?_⟩
    refine refuse_eq_ok.mpr ⟨by have := h.wait_nonneg; omega, ?_⟩
    refine refuse_eq_ok.mpr ⟨by rw [h.route_allowed]; decide, ?_⟩
    refine bind_eq_ok.mpr ⟨_, pass_eq_ok.mpr ⟨h.access, rfl⟩, ?_⟩
    exact Move.finish_boarded.mpr ⟨⟨rfl, h.wait_nonneg, h.charge, h.held⟩, rfl⟩

omit [Weight W] in
theorem leave_eq_ok : g.leave e s c = .ok s' ↔ ∃ stop, s.cameBy g.kind = false ∧
    g.stop? = some stop ∧ g.access ≠ .notAvailable ∧ s' = g.left e s c stop := by
  constructor
  · intro h
    unfold Gate.leave at h
    obtain ⟨hfresh, h⟩ := refuse_eq_ok.mp h
    cases hstop : g.stop? with
    | none => rw [hstop] at h; cases h
    | some stop =>
      rw [hstop] at h
      obtain ⟨m, hpass, h⟩ := bind_eq_ok.mp h
      obtain ⟨haccess, rfl⟩ := pass_eq_ok.mp hpass
      obtain ⟨-, rfl⟩ := Move.finish_eq_ok.mp h
      exact ⟨stop, by simpa using hfresh, rfl, haccess, rfl⟩
  · rintro ⟨stop, hfresh, hstop, haccess, rfl⟩
    unfold Gate.leave
    refine refuse_eq_ok.mpr ⟨by rw [hfresh]; decide, ?_⟩
    rw [hstop]
    refine bind_eq_ok.mpr ⟨_, pass_eq_ok.mpr ⟨haccess, rfl⟩, ?_⟩
    exact Move.finish_eq_ok.mpr ⟨rfl, rfl⟩

end Gate

/-! ## Edges -/

namespace Edge

/-- The pattern and the seconds of an edge that stays on board. -/
def stay? (e : Edge) (k : Integers) : Option (FrequencyPattern × Int) :=
  match e.link with
  | .hop p .. | .dwell p .. => (e.staySeconds k).toOption.map (p, ·)
  | _ => none

theorem stay?_eq_some {k : Integers} {p : FrequencyPattern} {seconds : Int} :
    e.stay? k = some (p, seconds) ↔
      ((∃ i j, e.link = .hop p i j) ∨ ∃ i, e.link = .dwell p i) ∧
        e.staySeconds k = .ok seconds := by
  unfold stay?
  cases e.link <;> cases e.staySeconds k <;> simp [Except.toOption]

/-- In words the seconds on board are the exact ones, unless they overflow. -/
theorem staySeconds_same (k : Integers) (e : Edge) :
    SameUnless .overflow (e.staySeconds k) (e.staySeconds .unbounded) := by
  unfold staySeconds
  cases e.link with
  | hop p i j =>
    refine SameUnless.bind ?_ fun _ => .refl _ _
    unfold FrequencyPattern.rideTime?
    cases p.stops[i]? with
    | none => exact .refl _ _
    | some a =>
      cases p.stops[j]? with
      | none => exact .refl _ _
      | some b => exact (k.fit_same 32 _).bind fun _ => .refl _ _
  | dwell p i =>
    exact SameUnless.bind (.optionMapM (fun _ => k.fit_same 32 _) _) fun _ => .refl _ _
  | board | alight | timedTransfer | street => exact .refl _ _

/-- Further along an edge after some seconds at some weight. -/
def moved (e : Edge) (s : State W) (c : Context) (seconds : Int) (weight : W) (mode : Mode) :
    State W :=
  { s with
    vertex := e.target c.arriveBy
    time := onward s.arriveBy s.time seconds
    weight := s.weight + weight
    backMode := some mode
    backEdge := some e.reference
    notes := [] }

/-- At the other stop of a timed transfer. -/
def changed (e : Edge) (s : State W) (c : Context) : State W :=
  { s with
    vertex := e.target c.arriveBy
    backMode := some .walk
    backEdge := some e.reference
    notes := [] }

end Edge

/-- Whether a street can be walked or cycled from a state. -/
structure Street.Open (street : Street) (e : Edge) (s : State W) (c : Context) : Prop where
  off_board : s.isOnBoard = false
  mode_allowed : c.request.modes.contains s.streetMode = true
  permitted : street.permission.contains s.streetMode = true
  exposure : c.request.exceeds (c.network.exposures e.id) = false

/-- The seconds that a street takes in a mode, rounded up. -/
def Street.seconds (street : Street) (c : Context) (mode : Mode) : W :=
  Weight.ceil (c.request.streetSeconds street.length mode)

/-- What taking an edge from a state leads to, with all that is checked. -/
inductive Context.Takes (c : Context) (e : Edge) (s : State W) : State W → Prop
  | find {g : Gate} {stop : StopId} {meeting wait : Int} {day : ServiceDay} {penalty : W}
      (link_eq : e.link = g.link) (side : g.boarding ≠ c.arriveBy)
      (finds : g.Finds s c stop meeting wait day penalty) :
      Takes c e s (g.boarded e s c stop wait day (g.fare s c wait penalty))
  | leave {g : Gate} {stop : StopId} (link_eq : e.link = g.link) (side : g.boarding = c.arriveBy)
      (fresh : s.cameBy g.kind = false) (stop_eq : g.stop? = some stop)
      (access : g.access ≠ .notAvailable) : Takes c e s (g.left e s c stop)
  | stay {p : FrequencyPattern} {seconds : Int} (link_eq : e.stay? c.integers = some (p, seconds))
      (on_trip : s.trip.map (·.id) = some p.trip.id) (nonneg : 0 ≤ seconds)
      (charge : Weight.IsCharge (Weight.ofInt seconds : W))
      (held : c.integers.Holds 64 (onward s.arriveBy s.time seconds)) :
      Takes c e s (e.moved s c seconds (Weight.ofInt seconds) p.mode)
  | change (link_eq : e.link = .timedTransfer) (off_board : s.isOnBoard = false) :
      Takes c e s (e.changed s c)
  | walk {street : Street} (link_eq : e.link = .street street) (is_open : street.Open e s c)
      (nonneg : 0 ≤ Weight.truncate (street.seconds c s.streetMode : W))
      (charge : Weight.IsCharge
        (c.request.streetWeight (street.seconds c s.streetMode : W) s.streetMode))
      (held : c.integers.Holds 64
        (onward s.arriveBy s.time (Weight.truncate (street.seconds c s.streetMode : W)))) :
      Takes c e s (e.moved s c (Weight.truncate (street.seconds c s.streetMode : W))
        (c.request.streetWeight (street.seconds c s.streetMode) s.streetMode) s.streetMode)

theorem Gate.takes_of_traverse (hl : e.link = g.link) (h : g.traverse e s c = .ok s') :
    c.Takes e s s' := by
  unfold Gate.traverse at h
  split_ifs at h with hside
  · obtain ⟨stop, hfresh, hstop, haccess, rfl⟩ := Gate.leave_eq_ok.mp h
    exact .leave hl hside hfresh hstop haccess
  · obtain ⟨stop, meeting, wait, day, penalty, hfinds, rfl⟩ := Gate.findVehicle_eq_ok.mp h
    exact .find hl hside hfinds

theorem Edge.traverse_of_gate (hl : e.link = g.link) : e.traverse s c = g.traverse e s c := by
  obtain ⟨p, i, boarding⟩ := g
  unfold Edge.traverse
  rw [hl]
  cases boarding <;> rfl

theorem ride_eq_ok {p : FrequencyPattern} {seconds : Int} : ride p seconds e s c = .ok s' ↔
    s.trip.map (·.id) = some p.trip.id ∧ 0 ≤ seconds ∧
      Weight.IsCharge (Weight.ofInt seconds : W) ∧
      c.integers.Holds 64 (onward s.arriveBy s.time seconds) ∧
      s' = e.moved s c seconds (Weight.ofInt seconds) p.mode := by
  unfold ride
  split_ifs with htrip
  · rw [Move.finish_onward, eq_comm (b := s')]
    exact ⟨fun h => ⟨htrip, h.1.2.1, h.1.2.2.1, h.1.2.2.2, h.2⟩,
      fun h => ⟨⟨rfl, h.2.1, h.2.2.1, h.2.2.2.1⟩, h.2.2.2.2⟩⟩
  · exact ⟨nofun, fun h => absurd h.1 htrip⟩

theorem Street.traverse_eq_ok {street : Street} : street.traverse e s c = .ok s' ↔
    street.Open e s c ∧ 0 ≤ Weight.truncate (street.seconds c s.streetMode : W) ∧
      Weight.IsCharge (c.request.streetWeight (street.seconds c s.streetMode : W) s.streetMode) ∧
      c.integers.Holds 64
        (onward s.arriveBy s.time (Weight.truncate (street.seconds c s.streetMode : W))) ∧
      s' = e.moved s c (Weight.truncate (street.seconds c s.streetMode : W))
        (c.request.streetWeight (street.seconds c s.streetMode) s.streetMode) s.streetMode := by
  unfold Street.traverse
  simp only
  split_ifs with hboard hmode hexposure
  · exact ⟨nofun, fun h => by rw [h.1.off_board] at hboard; cases hboard⟩
  · refine ⟨nofun, fun h => ?_⟩
    rw [h.1.mode_allowed, h.1.permitted] at hmode
    cases hmode
  · exact ⟨nofun, fun h => by rw [h.1.exposure] at hexposure; cases hexposure⟩
  · rw [Move.finish_onward, eq_comm (b := s')]
    refine ⟨fun h => ⟨⟨?_, ?_, ?_, ?_⟩, h.1.2.1, h.1.2.2.1, h.1.2.2.2, h.2⟩,
      fun h => ⟨⟨rfl, h.2.1, h.2.2.1, h.2.2.2.1⟩, h.2.2.2.2⟩⟩ <;> simp_all

omit [Weight W] in
theorem changeVehicles_eq_ok : changeVehicles e s c = .ok s' ↔
    s.isOnBoard = false ∧ s' = e.changed s c := by
  unfold changeVehicles
  split_ifs with h
  · exact ⟨nofun, fun h' => by rw [h'.1] at h; cases h⟩
  · rw [Move.finish_eq_ok, eq_comm (b := s')]
    exact ⟨fun h' => ⟨by simpa using h, h'.2⟩, fun h' => ⟨rfl, h'.2⟩⟩

/-- A step is one of five, with everything that is checked for it. -/
theorem Edge.traverse_eq_ok : e.traverse s c = .ok s' ↔ c.Takes e s s' := by
  constructor
  · intro h
    unfold Edge.traverse at h
    cases hl : e.link with
    | board p i => rw [hl] at h; exact Gate.takes_of_traverse (g := ⟨p, i, true⟩) hl h
    | alight p i => rw [hl] at h; exact Gate.takes_of_traverse (g := ⟨p, i, false⟩) hl h
    | hop p i j =>
      rw [hl] at h
      obtain ⟨seconds, hseconds, h⟩ := bind_eq_ok.mp h
      obtain ⟨htrip, hs, hw, hheld, rfl⟩ := ride_eq_ok.mp h
      exact .stay (Edge.stay?_eq_some.mpr ⟨.inl ⟨i, j, hl⟩, unlessOverflow_eq_ok.mp hseconds⟩)
        htrip hs hw hheld
    | dwell p i =>
      rw [hl] at h
      obtain ⟨seconds, hseconds, h⟩ := bind_eq_ok.mp h
      obtain ⟨htrip, hs, hw, hheld, rfl⟩ := ride_eq_ok.mp h
      exact .stay (Edge.stay?_eq_some.mpr ⟨.inr ⟨i, hl⟩, unlessOverflow_eq_ok.mp hseconds⟩)
        htrip hs hw hheld
    | timedTransfer =>
      rw [hl] at h
      obtain ⟨hoff, rfl⟩ := changeVehicles_eq_ok.mp h
      exact .change hl hoff
    | street street =>
      rw [hl] at h
      obtain ⟨hopen, hs, hw, hheld, rfl⟩ := Street.traverse_eq_ok.mp h
      exact .walk hl hopen hs hw hheld
  · intro h
    cases h with
    | find hl hside hfinds =>
      rw [Edge.traverse_of_gate hl, Gate.traverse, if_neg hside]
      exact Gate.findVehicle_eq_ok.mpr ⟨_, _, _, _, _, hfinds, rfl⟩
    | leave hl hside hfresh hstop haccess =>
      rw [Edge.traverse_of_gate hl, Gate.traverse, if_pos hside]
      exact Gate.leave_eq_ok.mpr ⟨_, hfresh, hstop, haccess, rfl⟩
    | @stay p seconds hl htrip hs hw hheld =>
      obtain ⟨hlink, hseconds⟩ := Edge.stay?_eq_some.mp hl
      have hride : (do ride p (← unlessOverflow (e.staySeconds c.integers)) e s c) =
          .ok (e.moved s c seconds (Weight.ofInt seconds) p.mode) := bind_eq_ok.mpr
        ⟨_, unlessOverflow_eq_ok.mpr hseconds, ride_eq_ok.mpr ⟨htrip, hs, hw, hheld, rfl⟩⟩
      unfold Edge.traverse
      rcases hlink with ⟨i, j, hlink⟩ | ⟨i, hlink⟩
      · rw [hlink]
        exact hride
      · rw [hlink]
        exact hride
    | change hl hoff =>
      unfold Edge.traverse
      rw [hl]
      exact changeVehicles_eq_ok.mpr ⟨hoff, rfl⟩
    | walk hl hopen hs hw hheld =>
      unfold Edge.traverse
      rw [hl]
      exact Street.traverse_eq_ok.mpr ⟨hopen, hs, hw, hheld, rfl⟩

end JourneyPlanner
