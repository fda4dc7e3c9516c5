import JourneyPlanner.Proofs.Journey.Ride

/-!
# What requests permit

A request rules out modes, trips and routes, vehicles that cannot take a bicycle, and streets that
are closed to its off-board mode or too exposed. Every edge that a journey takes is one that its
request permits (`Context.Licensed.permits`), also those on board, where nothing of this is checked
again: a vehicle that may not be ridden is never found.
-/

namespace JourneyPlanner

/-- What a request asks of the vehicles of a pattern. -/
structure Request.MayRide (r : Request) (p : FrequencyPattern) : Prop where
  mode_allowed : r.modes.contains p.mode = true
  trip_allowed : p.trip.id ∉ r.bannedTrips
  route_allowed : p.trip.route ∉ r.bannedRoutes
  takes_bicycle : r.initialMode = .bicycle → p.bikesAllowed = true

/-- What a request asks of a street with these exposures. -/
structure Request.MayUse (r : Request) (street : Street) (exposures : List Exposure) : Prop where
  mode_allowed : r.modes.contains r.initialMode = true
  permitted : street.permission.contains r.initialMode = true
  tolerated : ∀ x ∈ exposures, ∀ t ∈ r.thresholds, t.allows x = true

/-- What a request asks of an edge of a network. -/
def Request.Permits (r : Request) (n : Network) (e : Edge) : Prop :=
  match e.link with
  | .board p i => r.MayRide p ∧ p.boardAccess i ≠ .notAvailable
  | .alight p i => r.MayRide p ∧ p.alightAccess i ≠ .notAvailable
  | .hop p _ _ => r.MayRide p
  | .dwell p _ => r.MayRide p
  | .timedTransfer => True
  | .street street => r.MayUse street (n.exposures e.id)

variable {W : Type} [Weight W] {c : Context} {s s' : State W} {e : Edge} {g : Gate}
  {stop : StopId} {meeting wait : Int} {day : ServiceDay} {penalty : W}

/-! ## Vehicles and streets -/

theorem Gate.Finds.isUsable (h : g.Finds s c stop meeting wait day penalty) :
    ∃ st, g.pattern.stops[g.index]? = some st ∧
      g.pattern.isUsable st ⟨c.request.wheelchair, s.streetMode == .bicycle⟩ = true := by
  obtain ⟨-, hwait⟩ := Gate.exactVehicle?_mem (Gate.exactVehicle?_eq h.vehicle_eq)
  obtain ⟨-, -, -, hit, hhit, -⟩ := Gate.exactWait?_eq_some.mp hwait
  exact Gate.isUsable_of_exactTime? hhit

theorem Gate.Finds.mayRide (hmode : s.streetMode = c.request.initialMode)
    (h : g.Finds s c stop meeting wait day penalty) : c.request.MayRide g.pattern := by
  obtain ⟨st, -, husable⟩ := h.isUsable
  have htrip := h.trip_allowed
  have hroute := h.route_allowed
  unfold Request.bansTrip at htrip
  unfold Request.bansRoute at hroute
  refine ⟨h.mode_allowed, by simpa using htrip, by simpa using hroute, fun hbicycle => ?_⟩
  rw [hmode, hbicycle] at husable
  unfold FrequencyPattern.isUsable at husable
  simp only [BEq.rfl, Bool.not_true, Bool.false_or, Bool.and_eq_true] at husable
  exact husable.2

omit [Weight W] in
theorem Street.Open.mayUse {street : Street} (hmode : s.streetMode = c.request.initialMode)
    (h : street.Open e s c) : c.request.MayUse street (c.network.exposures e.id) := by
  refine ⟨hmode ▸ h.mode_allowed, hmode ▸ h.permitted, fun x hx t ht => ?_⟩
  have hexposure := h.exposure
  unfold Request.exceeds at hexposure
  by_contra hallows
  exact List.any_eq_false.mp hexposure x hx
    (List.any_eq_true.mpr ⟨t, ht, by rw [Bool.eq_false_of_not_eq_true hallows]; rfl⟩)

theorem Request.permits_of_gate {r : Request} {n : Network} (hl : e.link = g.link)
    (hride : r.MayRide g.pattern) (haccess : g.access ≠ .notAvailable) : r.Permits n e := by
  obtain ⟨p, i, boarding⟩ := g
  unfold Request.Permits
  rw [hl]
  cases boarding <;> exact ⟨hride, haccess⟩

theorem Request.permits_of_stay {r : Request} {n : Network} {k : Integers} {p : FrequencyPattern}
    {seconds : Int} (hl : e.stay? k = some (p, seconds)) (hride : r.MayRide p) : r.Permits n e := by
  unfold Request.Permits
  rcases (Edge.stay?_eq_some.mp hl).1 with ⟨i, j, hlink⟩ | ⟨i, hlink⟩
  · rw [hlink]
    exact hride
  · rw [hlink]
    exact hride

/-! ## Every state of a journey -/

/-- The state is off every vehicle, or on board of a pattern that the request may ride. -/
structure Context.Licensed (c : Context) (s : State W) : Prop where
  mode_eq : s.streetMode = c.request.initialMode
  placed : c.OnFoot s ∨ ∃ k p, c.Aboard s k p ∧ c.request.MayRide p

section

variable (hn : c.network.Wired) (h : c.Licensed s) (he : e ∈ c.network.edges)
  (hsrc : e.source c.arriveBy = s.vertex) (ht : c.Takes e s s')

include hn h he hsrc ht

theorem Context.Licensed.permits : c.request.Permits c.network e := by
  rcases h.placed with hfoot | ⟨k, p, haboard, hride⟩
  · cases ht with
    | find hl _ hfinds =>
      exact Request.permits_of_gate hl (hfinds.mayRide h.mode_eq) hfinds.access
    | leave hl hside _ _ _ => exact absurd hside (hfoot.not_leave hn he hsrc hl)
    | stay _ htrip _ _ => rw [hfoot.trip_eq] at htrip; cases htrip
    | change hl _ =>
      unfold Request.Permits
      rw [hl]
      trivial
    | walk hl hopen _ _ =>
      unfold Request.Permits
      rw [hl]
      exact hopen.mayUse h.mode_eq
  · -- nothing is asked of the vehicle on board: it is still the one that was found
    rcases ht.aboard hn haboard he hsrc with
      ⟨κ, κ', t, t', seconds, hstays, -⟩ | ⟨g, stop, hleaves, -⟩
    · exact Request.permits_of_stay hstays.link_eq hride
    · obtain rfl : g.pattern = p :=
        Option.some.inj (hleaves.pattern_eq.symm.trans haboard.pattern_eq)
      exact Request.permits_of_gate hleaves.link_eq hride hleaves.access

theorem Context.Licensed.step : c.Licensed s' := by
  rcases h.placed with hfoot | ⟨k, p, haboard, hride⟩
  · rcases ht.onFoot hn hfoot he hsrc with
      ⟨g, k, stop, meeting, wait, day, penalty, hfinds, rfl⟩ | ⟨hend, rfl | ⟨_, _, _, -, rfl⟩⟩
    · exact ⟨h.mode_eq, .inr ⟨k, _, hfinds.aboard, hfinds.finds.mayRide h.mode_eq⟩⟩
    · exact ⟨h.mode_eq, .inl ⟨hfoot.trip_eq, hend⟩⟩
    · exact ⟨h.mode_eq, .inl ⟨hfoot.trip_eq, hend⟩⟩
  · rcases ht.aboard hn haboard he hsrc with
      ⟨κ, κ', t, t', seconds, hstays, rfl⟩ | ⟨g, stop, hleaves, rfl⟩
    · exact ⟨h.mode_eq, .inr ⟨k, p, haboard.moved hstays, hride⟩⟩
    · exact ⟨h.mode_eq, .inl ⟨rfl, _, hleaves.stop_kind, rfl⟩⟩

end

theorem Context.licensed_origin {v : VertexId} {time : Int} (hv : c.network.IsGround v) :
    c.Licensed (State.origin v time c.request : State W) :=
  ⟨rfl, .inl ⟨rfl, hv⟩⟩

/-- Every state of a journey is off board or rides what the request may ride. -/
theorem Context.Journey.licensed {v : VertexId} {time : Int} {l : List (State W)}
    (hn : c.network.Wired) (hv : c.network.IsGround v)
    (h : c.Journey (State.origin v time c.request) l) : ∀ s ∈ l, c.Licensed s := by
  refine h.forall_of_step (Context.licensed_origin hv) fun s _ y _ hsy hs => ?_
  obtain ⟨e, he, hsrc, ht⟩ := hn.step_iff.mp hsy
  exact hs.step hn he hsrc ht

/-- Every step of a journey takes an edge that the request permits. -/
theorem Context.Journey.permitted {v : VertexId} {time : Int} {l : List (State W)}
    (hn : c.network.Wired) (hv : c.network.IsGround v)
    (h : c.Journey (State.origin v time c.request) l) :
    l.IsChain fun s y => ∃ e ∈ c.network.edgesFrom s.vertex c.arriveBy,
      e.traverse s c = .ok y ∧ c.request.Permits c.network e := by
  refine List.isChain_iff_getElem.mpr fun i hi => ?_
  obtain ⟨e, he, ht⟩ := List.isChain_iff_getElem.mp h.chain i hi
  obtain ⟨hmem, hsrc⟩ := hn.mem_edgesFrom.mp he
  have hlicensed := h.licensed hn hv _ (List.getElem_mem (i.lt_of_succ_lt hi))
  exact ⟨e, he, ht, hlicensed.permits hn hmem hsrc (Edge.traverse_eq_ok.mp ht)⟩

/-! ## Rides -/

/-- Whether wheelchairs can use the stop at a position of a pattern. -/
def FrequencyPattern.IsStepFree (p : FrequencyPattern) (i : Nat) : Prop :=
  ∃ st, p.stops[i]? = some st ∧ st.wheelchair = true

/-- Whether wheelchairs can use all stops where a search can leave the vehicles of a pattern. -/
def FrequencyPattern.ExitsStepFree (p : FrequencyPattern) (arriveBy : Bool) : Prop :=
  ∀ st ∈ p.stops, (if arriveBy then st.board else st.alight) ≠ .notAvailable → st.wheelchair = true

theorem FrequencyPattern.exists_of_boardAccess {p : FrequencyPattern} {i : Nat}
    (h : p.boardAccess i ≠ .notAvailable) :
    ∃ st, p.stops[i]? = some st ∧ st.board ≠ .notAvailable := by
  unfold boardAccess at h
  cases hst : p.stops[i]? with
  | none => rw [hst] at h; exact absurd rfl h
  | some st => rw [hst] at h; exact ⟨st, rfl, h⟩

theorem FrequencyPattern.exists_of_alightAccess {p : FrequencyPattern} {i : Nat}
    (h : p.alightAccess i ≠ .notAvailable) :
    ∃ st, p.stops[i]? = some st ∧ st.alight ≠ .notAvailable := by
  unfold alightAccess at h
  cases hst : p.stops[i]? with
  | none => rw [hst] at h; exact absurd rfl h
  | some st => rw [hst] at h; exact ⟨st, rfl, h⟩

namespace Context.RidesBetween

variable {x y : State W} {ride : List (State W)} {k i j : Nat} {g g' : Gate}
  (h : c.RidesBetween x ride y k i j g g')

include h

theorem mayRide (hmode : x.streetMode = c.request.initialMode) : c.request.MayRide g.pattern := by
  obtain ⟨_, _, _, _, _, _, hfinds, -⟩ := h.found
  exact hfinds.finds.mayRide hmode

theorem accessible :
    g.pattern.boardAccess i ≠ .notAvailable ∧ g.pattern.alightAccess j ≠ .notAvailable := by
  obtain ⟨_, _, _, _, _, _, hfinds, -⟩ := h.found
  obtain ⟨_, _, _, -, hleaves, -⟩ := h.left
  have hfound := hfinds.finds.access
  have hleft := hleaves.access
  have hside := Bool.eq_not.mpr hfinds.side
  have hij := h.positions
  unfold Gate.access at hfound hleft
  rw [hside] at hfound
  rw [hleaves.side, h.pattern_eq] at hleft
  unfold travelOrder at hij
  cases ha : c.arriveBy <;> rw [ha] at hfound hleft hij <;> cases hij
  · exact ⟨hfound, hleft⟩
  · exact ⟨hleft, hfound⟩

theorem found_stepFree (hw : c.request.wheelchair = true) :
    g.pattern.wheelchair = true ∧ g.pattern.IsStepFree (if c.arriveBy then j else i) := by
  obtain ⟨_, _, _, _, _, _, hfinds, -⟩ := h.found
  obtain ⟨st, hst, husable⟩ := hfinds.finds.isUsable
  have hij := h.positions
  unfold FrequencyPattern.isUsable at husable
  rw [hw] at husable
  simp only [Bool.not_true, Bool.false_or, Bool.and_eq_true] at husable
  unfold travelOrder at hij
  refine ⟨husable.1.1, st, ?_, husable.1.2⟩
  split_ifs at hij ⊢ <;> cases hij <;> exact hst

/-- Nobody looks at the stop where a vehicle is left. It has no steps where no such stop has. -/
theorem left_stepFree (hexits : g.pattern.ExitsStepFree c.arriveBy) :
    g.pattern.IsStepFree (if c.arriveBy then i else j) := by
  obtain ⟨hboard, halight⟩ := h.accessible
  unfold FrequencyPattern.ExitsStepFree at hexits
  split_ifs at hexits ⊢
  · obtain ⟨st, hst, haccess⟩ := FrequencyPattern.exists_of_boardAccess hboard
    exact ⟨st, hst, hexits st (List.mem_of_getElem? hst) haccess⟩
  · obtain ⟨st, hst, haccess⟩ := FrequencyPattern.exists_of_alightAccess halight
    exact ⟨st, hst, hexits st (List.mem_of_getElem? hst) haccess⟩

end Context.RidesBetween

end JourneyPlanner
