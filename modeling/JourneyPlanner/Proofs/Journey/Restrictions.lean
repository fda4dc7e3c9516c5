import JourneyPlanner.Proofs.Journey.Permits
import JourneyPlanner.Proofs.Search.CheapestFirst

/-!
# Narrower requests

A request that allows fewer modes, bans and limits more, or comes with a wheelchair is served by
fewer edges, but each of them leads where it leads without these restrictions
(`Edge.traverse_of_narrows`). A restriction removes every vehicle of a gate or none, and neither
fares nor streets are weighed by it.
-/

namespace JourneyPlanner

/-- Whether a request restricts no less than another, and asks for the same otherwise. -/
structure Request.Narrows (narrow wide : Request) : Prop where
  modes : ∀ mode, narrow.modes.contains mode = true → wide.modes.contains mode = true
  bannedTrips : wide.bannedTrips ⊆ narrow.bannedTrips
  bannedRoutes : wide.bannedRoutes ⊆ narrow.bannedRoutes
  thresholds : wide.thresholds ⊆ narrow.thresholds
  wheelchair : wide.wheelchair = true → narrow.wheelchair = true
  same : narrow = { wide with
    modes := narrow.modes
    bannedTrips := narrow.bannedTrips
    bannedRoutes := narrow.bannedRoutes
    thresholds := narrow.thresholds
    wheelchair := narrow.wheelchair }

/-! ## Bans and limits -/

namespace Request.Narrows

variable {narrow wide : Request} (h : narrow.Narrows wide)

include h

theorem bansTrip {trip : Trip} (ht : narrow.bansTrip trip = false) :
    wide.bansTrip trip = false := by
  unfold Request.bansTrip at ht ⊢
  rw [List.contains_eq_mem, decide_eq_false_iff_not] at ht ⊢
  exact fun hmem => ht (h.bannedTrips hmem)

theorem bansRoute {trip : Trip} (ht : narrow.bansRoute trip = false) :
    wide.bansRoute trip = false := by
  unfold Request.bansRoute at ht ⊢
  rw [List.contains_eq_mem, decide_eq_false_iff_not] at ht ⊢
  exact fun hmem => ht (h.bannedRoutes hmem)

theorem exceeds {exposures : List Exposure} (hx : narrow.exceeds exposures = false) :
    wide.exceeds exposures = false := by
  unfold Request.exceeds at hx ⊢
  rw [List.any_eq_false] at hx ⊢
  intro e he hbroken
  obtain ⟨t, ht, hbreaks⟩ := List.any_eq_true.mp hbroken
  exact hx e he (List.any_eq_true.mpr ⟨t, h.thresholds ht, hbreaks⟩)

end Request.Narrows

/-! ## Vehicles -/

/-- Whether needs ask for no less than others, with the same bicycle. -/
structure Needs.Narrows (narrow wide : Needs) : Prop where
  wheelchair : wide.wheelchair = true → narrow.wheelchair = true
  bicycle : narrow.bicycle = wide.bicycle

section

variable {p : FrequencyPattern} {st : PatternStop} {narrow wide needs needs' : Needs}

theorem Needs.Narrows.isUsable (h : narrow.Narrows wide) (hu : p.isUsable st narrow = true) :
    p.isUsable st wide = true := by
  obtain ⟨hwheelchair, hbicycle⟩ := h
  unfold FrequencyPattern.isUsable at hu ⊢
  rw [hbicycle] at hu
  cases hw : wide.wheelchair with
  | false =>
    rw [Bool.and_eq_true] at hu
    exact hu.2
  | true => rwa [hwheelchair hw] at hu

/-- Needs matter to a lookup only by whether they are met. -/
theorem FrequencyPattern.lookups_congr {k : Integers} {i : Nat} {t : Int} {checked : Bool}
    (hst : p.stops[i]? = some st) (hu : p.isUsable st needs = p.isUsable st needs') :
    p.nextDeparture? k i t needs checked = p.nextDeparture? k i t needs' checked ∧
      p.previousArrival? k i t needs checked = p.previousArrival? k i t needs' checked := by
  unfold nextDeparture? previousArrival?
  rw [hst]
  simp only [hu, and_self]

end

variable {W : Type} [Weight W] {c : Context} {r : Request} {e : Edge} {s s' : State W} {g : Gate}
  {stop : StopId} {meeting wait : Int} {day : ServiceDay} {penalty : W}

omit [Weight W] in
/-- A context gives the same wait under other needs, as far as the stop meets both or neither. -/
theorem Gate.waitOn?_congr {c' : Context} {st : PatternStop} (hk : c'.integers = c.integers)
    (ha : c'.arriveBy = c.arriveBy) (hst : g.pattern.stops[g.index]? = some st)
    (hu : g.pattern.isUsable st ⟨c'.request.wheelchair, s.streetMode == .bicycle⟩ =
      g.pattern.isUsable st ⟨c.request.wheelchair, s.streetMode == .bicycle⟩) :
    g.waitOn? c' s meeting day = g.waitOn? c s meeting day := by
  have htime : ∀ t, g.nearestTime? c' t ⟨c'.request.wheelchair, s.streetMode == .bicycle⟩ =
      g.nearestTime? c t ⟨c.request.wheelchair, s.streetMode == .bicycle⟩ := by
    intro t
    unfold Gate.nearestTime?
    rw [hk, ha, (FrequencyPattern.lookups_congr hst hu).1,
      (FrequencyPattern.lookups_congr hst hu).2]
  unfold Gate.waitOn?
  simp only [hk, ha, htime]

section

variable (h : r.Narrows c.request)

include h

omit [Weight W] in
theorem Request.Narrows.arriveBy_eq : r.arriveBy = c.arriveBy := by
  rw [h.same]
  rfl

omit [Weight W] in
/-- Where a vehicle is found in spite of the restrictions, it is the nearest one without them. -/
theorem Request.Narrows.nearestVehicle?
    (hv : g.nearestVehicle? { c with request := r } s meeting = .ok (some (wait, day))) :
    g.nearestVehicle? c s meeting = .ok (some (wait, day)) := by
  obtain ⟨-, hwait⟩ := Gate.exactVehicle?_mem (Gate.exactVehicle?_eq hv)
  obtain ⟨-, -, -, hit, hhit, -⟩ := Gate.exactWait?_eq_some.mp hwait
  obtain ⟨st, hst, husable⟩ := Gate.isUsable_of_exactTime? hhit
  -- the stop meets the needs of both requests, so that no day notices whose they are
  have hneeds : Needs.Narrows ⟨r.wheelchair, s.streetMode == .bicycle⟩
      ⟨c.request.wheelchair, s.streetMode == .bicycle⟩ := ⟨h.wheelchair, rfl⟩
  have hboth := husable.trans (hneeds.isUsable husable).symm
  have hdays : g.waitOn? { c with request := r } s meeting = g.waitOn? c s meeting :=
    funext fun _ => Gate.waitOn?_congr rfl h.arriveBy_eq hst hboth
  unfold Gate.nearestVehicle? at hv ⊢
  rwa [hdays] at hv

/-- A vehicle that is found in spite of the restrictions is found without them, after the same
wait. -/
theorem Request.Narrows.finds
    (hf : g.Finds s { c with request := r } stop meeting wait day penalty) :
    g.Finds s c stop meeting wait day penalty where
  mode_allowed := h.modes _ hf.mode_allowed
  stop_eq := hf.stop_eq
  transfer_eq := by
    have htransfer := hf.transfer_eq
    rw [h.same] at htransfer
    exact htransfer
  trip_allowed := h.bansTrip hf.trip_allowed
  vehicle_eq := h.nearestVehicle? hf.vehicle_eq
  wait_nonneg := hf.wait_nonneg
  held := hf.held
  route_allowed := h.bansRoute hf.route_allowed
  access := hf.access
  charge := by
    have hcharge := hf.charge
    rw [h.same] at hcharge
    exact hcharge

omit [Weight W] in
theorem Request.Narrows.streetOpen {street : Street}
    (ho : street.Open e s { c with request := r }) : street.Open e s c :=
  ⟨ho.off_board, h.modes _ ho.mode_allowed, ho.permitted, h.exceeds ho.exposure⟩

/-- What is taken in spite of the restrictions leads to the same state without them: weights, times
and notes are read off what the two requests have in common. -/
theorem Request.Narrows.takes (ht : Context.Takes { c with request := r } e s s') :
    c.Takes e s s' := by
  obtain ⟨modes, trips, routes, thresholds, wheelchair, rfl⟩ :
      ∃ modes trips routes thresholds wheelchair, r = { c.request with
        modes := modes
        bannedTrips := trips
        bannedRoutes := routes
        thresholds := thresholds
        wheelchair := wheelchair } := ⟨_, _, _, _, _, h.same⟩
  cases ht with
  | find hl hside hfinds => exact .find hl hside (h.finds hfinds)
  | leave hl hside hfresh hstop haccess => exact .leave hl hside hfresh hstop haccess
  | stay hl htrip hnonneg hcharge hheld => exact .stay hl htrip hnonneg hcharge hheld
  | change hl hoff => exact .change hl hoff
  | walk hl hopen hnonneg hcharge hheld =>
    exact .walk hl (h.streetOpen hopen) hnonneg hcharge hheld

end

/-! ## Edges and journeys -/

/-- An edge that can be taken in spite of more restrictions leads to the same state without
them. -/
theorem Edge.traverse_of_narrows (h : r.Narrows c.request)
    (ht : e.traverse s { c with request := r } = .ok s') : e.traverse s c = .ok s' :=
  Edge.traverse_eq_ok.mpr (h.takes (Edge.traverse_eq_ok.mp ht))

/-- A request with a wheelchair that only takes buses, avoids another line and keeps to quiet
streets. -/
def quietBuses : Request where
  modes := .ofList [.bus]
  bannedTrips := [tripNorth]
  bannedRoutes := [routeTwo]
  wheelchair := true
  thresholds := [⟨.noise, some 60.0, none⟩]

theorem quietBuses_narrows : quietBuses.Narrows {} where
  modes := by
    intro mode
    cases mode <;> decide
  bannedTrips := List.nil_subset _
  bannedRoutes := List.nil_subset _
  thresholds := List.nil_subset _
  wheelchair := nofun
  same := rfl

theorem laneAndLine_bus_of_quietBuses :
    ∃ (t : Trial laneAndLine ⟨0, 1, shuttleTime, {}⟩ {}) (e : Edge) (s' : State Exact),
      quietBuses.Narrows t.context.request ∧ e ∈ t.network.edges ∧ s'.isOnBoard = true ∧
      e.traverse (State.origin 0 shuttleTime t.context.request)
        { t.context with request := quietBuses } = .ok s' ∧
      e.traverse (State.origin 0 shuttleTime t.context.request) t.context = .ok s' := by
  have h : ((Trial.run? laneAndLine ⟨0, 1, shuttleTime, {}⟩ {} []).any fun t =>
      (t.context.network.edgesFrom 0 false)[1]?.any fun e =>
        (e.traverse (State.origin 0 shuttleTime t.context.request : State Exact)
          { t.context with request := quietBuses }).toOption.any (·.isOnBoard)) = true := by
    decide +kernel
  obtain ⟨t, -, h⟩ := (Option.any_eq_true _ _).mp h
  obtain ⟨e, he, h⟩ := (Option.any_eq_true _ _).mp h
  obtain ⟨s', hs', honboard⟩ := (Option.any_eq_true _ _).mp h
  have hnarrows : quietBuses.Narrows t.context.request := t.request_eq ▸ quietBuses_narrows
  exact ⟨t, e, s', hnarrows,
    t.network_eq ▸ Network.mem_edges_of_mem_edgesFrom (List.mem_of_getElem? he), honboard,
    eq_ok_of_toOption hs', Edge.traverse_of_narrows hnarrows (eq_ok_of_toOption hs')⟩

theorem Context.Journey.of_narrows {origin : State W} {l : List (State W)}
    (h : r.Narrows c.request) (hj : Context.Journey { c with request := r } origin l) :
    c.Journey origin l := by
  refine ⟨hj.head_eq, hj.chain.imp ?_⟩
  rintro s y ⟨e, he, ht⟩
  rw [show Context.arriveBy { c with request := r } = c.arriveBy from h.arriveBy_eq] at he
  exact ⟨e, he, Edge.traverse_eq_ok.mpr (h.takes (Edge.traverse_eq_ok.mp ht))⟩

end JourneyPlanner
