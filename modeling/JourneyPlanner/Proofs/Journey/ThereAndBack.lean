import JourneyPlanner.Proofs.Journey.Bookkeeping
import JourneyPlanner.Proofs.Journey.Fares
import JourneyPlanner.Proofs.Journey.Permits

/-!
# Rides there and back

A ride on a timetable that a search forward in time finds can be found backward too. From the stop
and the time at which the vehicle was left, a search backward finds a vehicle without a wait, stays
on it along the same edges, and leaves it at the stop and the time at which it was boarded
(`NetworkDescription.ride_back`). The middle of the ride is mirrored edge by edge
(`Context.Leads.backward`); that the vehicle is there is said of the two lookups
(`Context.OnRun.arrival_found`).
-/

namespace JourneyPlanner

variable {W : Type} [Weight W] {c : Context} {e first last : Edge} {g : Gate}
  {s s' u x y aboard arrived : State W} {stays back : List (Passage W)} {k : Nat}
  {p : FrequencyPattern} {day : ServiceDay} {start : Int}

/-- Whether an edge stays on a vehicle. -/
def Edge.Stays (e : Edge) : Prop := e.kind = .hop ∨ e.kind = .dwell

/-- A ride from one state to another: the first edge finds a vehicle, others stay on it, and the
last leaves it. -/
structure Context.RidesAlong (c : Context) (x aboard : State W) (stays : List (Passage W))
    (arrived y : State W) (first last : Edge) : Prop where
  first_mem : first ∈ c.network.edgesFrom x.vertex c.arriveBy
  finds : first.traverse x c = .ok aboard
  leads : c.Leads aboard stays arrived
  stays : ∀ q ∈ stays, q.edge.Stays
  last_mem : last ∈ c.network.edgesFrom arrived.vertex c.arriveBy
  leaves : last.traverse arrived c = .ok y

/-- The context in which the same request is searched backward, on the same days. -/
def Context.backward (c : Context) : Context :=
  { c with request := { c.request with arriveBy := true } }

/-! ## Staying on the vehicle -/

theorem Edge.Stays.takes (h : e.Stays) (ht : c.Takes e s s') :
    ∃ p seconds, e.stay? c.integers = some (p, seconds) ∧ s.trip.map (·.id) = some p.trip.id ∧
      0 ≤ seconds ∧ Weight.IsCharge (Weight.ofInt seconds : W) ∧
      s' = e.moved s c seconds (Weight.ofInt seconds) p.mode := by
  have hgate : ∀ g : Gate, e.link ≠ g.link := by
    rintro ⟨p, i, boarding⟩ hl
    unfold Edge.Stays Edge.kind at h
    rw [hl] at h
    cases boarding <;> rcases h with h | h <;> cases h
  unfold Edge.Stays Edge.kind at h
  cases ht with
  | find hl _ _ => exact absurd hl (hgate _)
  | leave hl _ _ _ _ => exact absurd hl (hgate _)
  | stay hl htrip hnonneg hcharge _ => exact ⟨_, _, hl, htrip, hnonneg, hcharge, rfl⟩
  | change hl _ => rw [hl] at h; rcases h with h | h <;> cases h
  | walk hl _ _ _ _ => rw [hl] at h; rcases h with h | h <;> cases h

/-- Along edges that stay on a vehicle one stays on its run. -/
theorem Context.Leads.onRun (hn : c.network.Wired) (h : c.Leads aboard stays s)
    (hstays : ∀ q ∈ stays, q.edge.Stays)
    (ha : aboard.arriveBy = c.arriveBy) (hrun : c.OnRun aboard k p day start) :
    s.arriveBy = c.arriveBy ∧ c.OnRun s k p day start := by
  induction h with
  | start => exact ⟨ha, hrun⟩
  | take hleads he ht ih =>
    obtain ⟨hedge, hstays⟩ := List.forall_mem_cons.mp hstays
    obtain ⟨harrive, hrun⟩ := ih hstays
    obtain ⟨hmem, hsrc⟩ := hn.mem_edgesFrom.mp he
    have htakes := Edge.traverse_eq_ok.mp ht
    obtain ⟨_, _, -, -, -, -, rfl⟩ := hedge.takes htakes
    rcases htakes.aboard hn hrun.aboard hmem hsrc with ⟨_, _, _, _, _, hstay, heq⟩ | ⟨_, _, _, heq⟩
    · exact ⟨harrive, heq ▸ hrun.moved harrive hstay⟩
    · exact absurd ((congrArg State.trip heq).symm.trans hrun.trip_eq) nofun

/-- A traveller who searches backward is on the same vehicle, where and when another rides it. -/
structure State.Mirrors (u s : State W) : Prop where
  arriveBy_eq : u.arriveBy = true
  vertex_eq : u.vertex = s.vertex
  time_eq : u.time = s.time
  trip_eq : u.trip = s.trip
  not_boarded : u.cameBy .board = false

theorem Context.leads_concat {q : Passage W} : c.Leads u (back ++ [q]) y ↔
    ∃ x, q.state = u ∧ q.edge ∈ c.network.edgesFrom u.vertex c.arriveBy ∧
      q.edge.traverse u c = .ok x ∧ c.Leads x back y := by
  constructor
  · intro h
    induction back generalizing y with
    | nil =>
      cases h with
      | take h he ht =>
        cases h
        exact ⟨y, rfl, he, ht, .start⟩
    | cons r back ih =>
      cases h with
      | take h he ht =>
        obtain ⟨x, hstate, hq, hqt, hleads⟩ := ih h
        exact ⟨x, hstate, hq, hqt, hleads.take he ht⟩
  · rintro ⟨x, rfl, he, ht, h⟩
    induction h with
    | start => exact .take .start he ht
    | take _ he' ht' ih => exact ih.take he' ht'

theorem State.Mirrors.stay (hn : c.network.Wired) (hk : c.integers = .unbounded)
    (ha : c.arriveBy = false) (hs : s.arriveBy = false)
    (he : e ∈ c.network.edgesFrom s.vertex c.arriveBy) (ht : e.traverse s c = .ok s')
    (hstays : e.Stays) (hu : u.Mirrors s') :
    s'.arriveBy = false ∧ e ∈ c.network.edgesFrom u.vertex true ∧
      ∃ u', e.traverse u c.backward = .ok u' ∧ u'.Mirrors s := by
  obtain ⟨hmem, hsrc⟩ := hn.mem_edgesFrom.mp he
  obtain ⟨p, seconds, hstay, htrip, hnonneg, hcharge, rfl⟩ :=
    hstays.takes (Edge.traverse_eq_ok.mp ht)
  rw [ha] at hsrc
  refine ⟨hs, hn.mem_edgesFrom.mpr ⟨hmem, ?_⟩, _, Edge.traverse_eq_ok.mpr
    (.stay hstay (hu.trip_eq ▸ htrip) hnonneg hcharge (hk ▸ Integers.holds_unbounded)),
    hu.arriveBy_eq, hsrc, ?_, hu.trip_eq, ?_⟩
  · rw [hu.vertex_eq]
    show e.head = e.target c.arriveBy
    rw [ha]
    rfl
  · have htime := hu.time_eq
    change u.time = onward s.arriveBy s.time seconds at htime
    show onward u.arriveBy u.time seconds = s.time
    rw [hs] at htime
    rw [hu.arriveBy_eq, htime]
    unfold onward
    simp
  · show (e.kind == .board) = false
    rcases hstays with h | h <;> rw [h] <;> rfl

/-- The edges along which one stays on a vehicle lead back the way they came. -/
theorem Context.Leads.backward (hn : c.network.Wired) (hk : c.integers = .unbounded)
    (ha : c.arriveBy = false) (h : c.Leads aboard stays s) (hstays : ∀ q ∈ stays, q.edge.Stays)
    (hs : aboard.arriveBy = false) : s.arriveBy = false ∧ ∀ u : State W, u.Mirrors s →
      ∃ back u', c.backward.Leads u back u' ∧
        back.map (·.edge) = (stays.map (·.edge)).reverse ∧ u'.Mirrors aboard := by
  induction h with
  | start => exact ⟨hs, fun u hu => ⟨[], u, .start, rfl, hu⟩⟩
  | take hleads he ht ih =>
    obtain ⟨hedge, hstays⟩ := List.forall_mem_cons.mp hstays
    obtain ⟨hs', ih⟩ := ih hstays
    refine ⟨?_, fun u hu => ?_⟩
    · obtain ⟨_, _, -, -, -, -, rfl⟩ := hedge.takes (Edge.traverse_eq_ok.mp ht)
      exact hs'
    · obtain ⟨-, hu', u₁, htu, hu₁⟩ := hu.stay hn hk ha hs' he ht hedge
      obtain ⟨back, u', hback, hedges, hmirrors⟩ := ih u₁ hu₁
      exact ⟨back ++ [⟨_, u⟩], u', Context.leads_concat.mpr ⟨u₁, rfl, hu', htu, hback⟩,
        by simp [hedges], hmirrors⟩

/-! ## Finding the vehicle -/

theorem FrequencyPattern.isUsable_of {a b : PatternStop} {needs : Needs}
    (hw : needs.wheelchair = false) (h : p.isUsable a needs = true) :
    p.isUsable b needs = true := by
  unfold isUsable at *
  rw [hw] at *
  exact h

/-- Where and when a run of a timetable is left, a search backward finds a vehicle without a
wait. -/
theorem Context.OnRun.arrival_found (hk : c.integers = .unbounded)
    {description : PatternDescription} (hp : description.pattern = .ok p)
    (hexact : ∀ w ∈ p.windows, w.exact = true) {j : Nat} {st : PatternStop}
    (hst : p.stops[j]? = some st) (halight : st.alight.isAvailable = true)
    (husable : p.isUsable st ⟨c.request.wheelchair, c.request.initialMode == .bicycle⟩ = true)
    (hrun : c.OnRun arrived k p day start)
    (htime : arrived.time = day.midnight + start + st.arrival) {v : VertexId} :
    ∃ d, Gate.nearestVehicle? ⟨p, j, false⟩ c.backward
      (State.origin v arrived.time c.backward.request : State W) arrived.time =
        .ok (some (0, d)) := by
  have hlatest : (ServiceTime.latest : Int) = 172800 := rfl
  obtain ⟨hs₀, hs₁⟩ := PatternDescription.isServiceTime_of_runStarts hp hrun.starts
  obtain ⟨ha₀, ha₁⟩ := (PatternDescription.timely hp st (List.mem_of_getElem? hst)).1
  have hsince : arrived.time - day.midnight = start + st.arrival := by omega
  have hnearest : Gate.exactTime? ⟨p, j, false⟩ c.backward (start + st.arrival)
      ⟨c.request.wheelchair, c.request.initialMode == .bicycle⟩ = some (start + st.arrival) :=
    FrequencyPattern.exactArrival?_of_runStarts hexact hst husable (fun _ => halight) hrun.starts
  have hday : Gate.exactWait? ⟨p, j, false⟩ c.backward
      (State.origin v arrived.time c.backward.request : State W) arrived.time day = some 0 := by
    refine Gate.exactWait?_eq_some.mpr ⟨by omega, by omega, hrun.day_runs,
      start + st.arrival, hsince ▸ hnearest, ?_⟩
    show arrived.time - 0 = _
    omega
  -- the nearest vehicle may be one of another day, but it is there at once too
  have hnonneg : ∀ d wait, Gate.exactWait? ⟨p, j, false⟩ c.backward
      (State.origin v arrived.time c.backward.request : State W) arrived.time d = some wait →
        0 ≤ wait := fun d wait => Gate.exactWait?_nonneg (.refl _ _)
  obtain ⟨wait, d, hfound, hle⟩ :=
    Gate.exactVehicle?_le (fun d _ wait => hnonneg d wait) hrun.day_mem hday
  have := hnonneg d wait (Gate.exactVehicle?_mem hfound).2
  obtain rfl : wait = 0 := by omega
  exact ⟨d, (Gate.nearestVehicle?_unbounded (c := c.backward) hk).trans (congrArg _ hfound)⟩

/-! ## The whole ride -/

theorem Gate.finds_of_traverse (hl : e.link = g.link) (hside : g.boarding ≠ c.arriveBy)
    (h : e.traverse s c = .ok s') : ∃ stop meeting wait day penalty,
      g.Finds s c stop meeting wait day penalty ∧
        s' = g.boarded e s c stop wait day (g.fare s c wait penalty) := by
  rw [Edge.traverse_of_gate hl, Gate.traverse, if_neg hside] at h
  exact Gate.findVehicle_eq_ok.mp h

theorem Gate.leaves_of_traverse (hl : e.link = g.link) (hside : g.boarding = c.arriveBy)
    (h : e.traverse s c = .ok s') : ∃ stop, s.cameBy g.kind = false ∧ g.stop? = some stop ∧
      g.access ≠ .notAvailable ∧ s' = g.left e s c stop := by
  rw [Edge.traverse_of_gate hl, Gate.traverse, if_pos hside] at h
  exact Gate.leave_eq_ok.mp h

omit [Weight W] in
theorem Context.OnRun.time_at_gate (hn : c.network.Wired) (hrun : c.OnRun s k p day start)
    (he : e ∈ c.network.edgesFrom s.vertex c.arriveBy) (hl : e.link = g.link)
    (hside : g.boarding = c.arriveBy) : ∃ st, g.pattern = p ∧ p.stops[g.index]? = some st ∧
      s.time = day.midnight + start + st.met !c.arriveBy := by
  obtain ⟨hmem, hsrc⟩ := hn.mem_edgesFrom.mp he
  obtain ⟨l, st, hp, hst, -, hκ⟩ := hn.gate hmem hl
  rw [hside, Edge.target_not, hsrc] at hκ
  obtain ⟨κ, t, hκ', ht, htime⟩ := hrun.on_time
  obtain rfl := Option.some.inj (hκ.symm.trans hκ')
  have hside' := Gate.timeAt?_side (k := l) hst
  obtain rfl := FrequencyPattern.eq_of_timeAt? ht hside'
  obtain rfl := Option.some.inj (hp.symm.trans hrun.pattern_eq)
  obtain rfl := Option.some.inj (ht.symm.trans hside')
  exact ⟨st, rfl, hst, hside ▸ htime⟩

theorem FrequencyPattern.isAvailable_of_alightAccess {j : Nat} {st : PatternStop}
    (hst : p.stops[j]? = some st) (h : p.alightAccess j ≠ .notAvailable) :
    st.alight.isAvailable = true := by
  unfold alightAccess at h
  rw [hst] at h
  simpa [StopAccess.isAvailable] using h

/-- The edge by which a run of a timetable is left forward in time finds a vehicle backward, without
a wait, for a traveller for whom the run was found. -/
theorem Gate.Finds.find_back [Weight.Chargeable W] {i j : Nat} {stop stop' : StopId}
    {meeting wait : Int} {day' : ServiceDay} {penalty : W} {v : VertexId} {t : Int}
    (h : Gate.Finds ⟨p, i, true⟩ (State.origin v t c.request) c stop meeting wait day' penalty)
    (hn : c.network.Wired) (hk : c.integers = .unbounded) (ha : c.arriveBy = false)
    (hwheelchair : c.request.wheelchair = false)
    (hcosts : ∀ x ∈ c.request.costs, x.isFinite = true ∧ 0.0 ≤ x)
    {description : PatternDescription} (hp : description.pattern = .ok p)
    (hexact : ∀ w ∈ p.windows, w.exact = true) (hrun : c.OnRun arrived k p day start)
    (he : last ∈ c.network.edgesFrom arrived.vertex c.arriveBy) (hl : last.link = .alight p j)
    (hstop : Gate.stop? ⟨p, j, false⟩ = some stop') (haccess : p.alightAccess j ≠ .notAvailable) :
    ∃ f : State W,
      last.traverse (State.origin (last.target false) arrived.time c.backward.request) c.backward =
        .ok f ∧ f.Mirrors arrived := by
  obtain ⟨-, hsrc⟩ := hn.mem_edgesFrom.mp he
  obtain ⟨st, -, hst, htime⟩ := hrun.time_at_gate hn he (g := ⟨p, j, false⟩) hl ha.symm
  rw [ha] at hsrc htime
  -- the vehicle can be used at this stop if at the other one
  obtain ⟨st₀, -, husable⟩ := h.isUsable
  obtain ⟨d, hvehicle⟩ := hrun.arrival_found (v := last.target false) hk hp hexact hst
    (FrequencyPattern.isAvailable_of_alightAccess hst haccess)
    (FrequencyPattern.isUsable_of hwheelchair husable) htime
  have hzero : Weight.IsCharge (Weight.zero : W) := Weight.Chargeable.isCharge_zero
  have hheld : ∀ time, c.backward.integers.Holds 64 time := fun _ =>
    (show c.backward.integers = .unbounded from hk) ▸ Integers.holds_unbounded
  have hfinds : Gate.Finds ⟨p, j, false⟩
      (State.origin (last.target false) arrived.time c.backward.request : State W) c.backward stop'
      arrived.time 0 d Weight.zero :=
    ⟨h.mode_allowed, hstop, checkTransfer_first rfl, h.trip_allowed, hvehicle, le_refl 0,
      hheld _, h.route_allowed, haccess, Request.isCharge_boardingWeight hcosts rfl hzero
        (Request.isCharge_preferencePenalty hcosts p.trip)⟩
  refine ⟨_, Edge.traverse_eq_ok.mpr (.find (g := ⟨p, j, false⟩) hl nofun hfinds), rfl, hsrc, ?_,
    hrun.trip_eq.symm, ?_⟩
  · show arrived.time - 0 = _
    exact Int.sub_zero _
  · show (last.link.kind == .board) = false
    rw [hl]
    rfl

/-- A ride on a timetable forward in time can be taken back: with the time of its end as that of
arrival, on the same days, the edge that left the vehicle finds one without a wait, the edges in
between lead the same way back, and the edge that boarded leaves it at the time at which it was
boarded. -/
theorem NetworkDescription.ride_back [Weight.Chargeable W] {description : NetworkDescription}
    {zones : ZoneDatabase} {n : Network} (hb : description.build zones = .ok n)
    (hnet : c.network = n)
    (hk : c.integers = .unbounded) (ha : c.arriveBy = false)
    (hwheelchair : c.request.wheelchair = false)
    (hcosts : ∀ x ∈ c.request.costs, x.isFinite = true ∧ 0.0 ≤ x)
    (hexact : ∀ w ∈ p.windows, w.exact = true) {i j : Nat} (hfirst : first.link = .board p i)
    (hlast : last.link = .alight p j) {v : VertexId} {t : Int}
    (h : c.RidesAlong (State.origin v t c.request) aboard stays arrived y first last) :
    ∃ (back : List (Passage W)) (aboard' arrived' y' : State W),
      c.backward.RidesAlong (State.origin y.vertex y.time c.backward.request) aboard' back arrived'
        y' last first ∧
      back.map (·.edge) = (stays.map (·.edge)).reverse ∧
      aboard'.time = y.time ∧ y'.vertex = v ∧ y'.time = aboard.time := by
  have hn : c.network.Wired := hnet ▸ wired_of_build hb
  have hon : Gate.boarding ⟨p, i, true⟩ ≠ c.arriveBy := ha ▸ nofun
  obtain ⟨hfirst_mem, hfirst_src⟩ := hn.mem_edgesFrom.mp h.first_mem
  obtain ⟨hlast_mem, hlast_src⟩ := hn.mem_edgesFrom.mp h.last_mem
  obtain ⟨stop, meeting, wait, day, penalty, hfinds, haboard⟩ :=
    Gate.finds_of_traverse (g := ⟨p, i, true⟩) hfirst hon h.finds
  obtain ⟨k, hfindsBy⟩ :=
    hfinds.findsBy hn hfirst_mem hfirst_src (g := ⟨p, i, true⟩) hfirst hon
  obtain ⟨start, hrun⟩ := hfindsBy.onRun rfl
  rw [← haboard] at hrun
  obtain ⟨pd, -, hp⟩ :=
    exists_pattern_of_build hb (Array.mem_of_getElem? (hnet ▸ hfindsBy.pattern_eq))
  have hforward : aboard.arriveBy = false := haboard ▸ ha
  obtain ⟨-, hrun'⟩ := h.leads.onRun hn h.stays (hforward.trans ha.symm) hrun
  obtain ⟨stop', -, hstop', haccess', rfl⟩ :=
    Gate.leaves_of_traverse (g := ⟨p, j, false⟩) hlast ha.symm h.leaves
  obtain ⟨f, hf, hmirrors⟩ := hfinds.find_back hn hk ha hwheelchair hcosts hp hexact hrun'
    h.last_mem hlast hstop' haccess'
  obtain ⟨-, hback⟩ := h.leads.backward hn hk ha h.stays hforward
  obtain ⟨back, l, hback, hedges, hl⟩ := hback f hmirrors
  have hleft : first.traverse l c.backward = .ok (Gate.left ⟨p, i, true⟩ first l c.backward stop) :=
    Edge.traverse_eq_ok.mpr (.leave (g := ⟨p, i, true⟩) hfirst rfl hl.not_boarded hfinds.stop_eq
      hfinds.access)
  have hend : (Gate.left ⟨p, j, false⟩ last arrived c stop').vertex = last.target false :=
    congrArg last.target ha
  rw [ha] at hfirst_src
  refine ⟨back, f, l, _, ⟨hn.mem_edgesFrom.mpr ⟨hlast_mem, hend.symm⟩, ?_, hback, ?_,
    hn.mem_edgesFrom.mpr ⟨hfirst_mem, ?_⟩, hleft⟩, hedges, hmirrors.time_eq, hfirst_src, hl.time_eq⟩
  · rw [hend]
    exact hf
  · intro q hq
    have hq' := List.mem_map_of_mem (f := (·.edge)) hq
    rw [hedges, List.mem_reverse] at hq'
    obtain ⟨q', hq', heq⟩ := List.mem_map.mp hq'
    exact heq ▸ h.stays q' hq'
  · rw [hl.vertex_eq, haboard]
    exact (congrArg first.target ha).symm

/-- The edges of the given positions at the vertices reached, the latest first, taken in turn. -/
def Context.lead? (c : Context) (origin : State W) :
    List Nat → Option { r : List (Passage W) × State W // c.Leads origin r.1 r.2 }
  | [] => some ⟨([], origin), .start⟩
  | i :: rest =>
    match c.lead? origin rest with
    | none => none
    | some ⟨(taken, s), h⟩ =>
      match he : (c.network.edgesFrom s.vertex c.arriveBy)[i]? with
      | none => none
      | some e =>
        match ht : e.traverse s c with
        | .error _ => none
        | .ok s' => some ⟨(⟨e, s⟩ :: taken, s'), h.take (List.mem_of_getElem? he) ht⟩

theorem Context.Leads.ridesAlong {q r : Passage W} (h : c.Leads x (r :: (stays ++ [q])) y)
    (hstays : ∀ q ∈ stays, q.edge.Stays) :
    ∃ aboard, c.RidesAlong x aboard stays r.state y q.edge r.edge := by
  cases h with
  | take h he ht =>
    obtain ⟨aboard, -, hq, hqt, hleads⟩ := Context.leads_concat.mp h
    exact ⟨aboard, hq, hqt, hleads, hstays, he, ht⟩

/-- From the first stop of the first line to its last, past the one between them. -/
theorem shuttle_ride_back : ∃ (t : Trial shuttle ⟨0, 2, shuttleTime, {}⟩ {})
    (p : FrequencyPattern) (first last : Edge) (stays back : List (Passage Exact))
    (aboard arrived y aboard' arrived' y' : State Exact),
      first.link = .board p 0 ∧ last.link = .alight p 2 ∧ stays.length = 3 ∧
      t.context.RidesAlong (State.origin 0 shuttleTime t.context.request) aboard stays arrived y
        first last ∧
      t.context.backward.RidesAlong (State.origin y.vertex y.time t.context.backward.request)
        aboard' back arrived' y' last first ∧
      aboard'.time = y.time ∧ y'.vertex = 0 ∧ y'.time = aboard.time := by
  have h : ((Trial.run? shuttle ⟨0, 2, shuttleTime, {}⟩ {} []).any fun t =>
      !t.context.arriveBy && !t.context.request.wheelchair &&
      t.context.request.costs.all (fun x => x.isFinite && decide (0.0 ≤ x)) &&
      t.network.patterns.toList.all (fun p => p.windows.all (·.exact)) &&
      (t.context.lead? (State.origin 0 shuttleTime t.context.request : State Exact)
        [0, 0, 1, 0, 1]).any fun r =>
          r.1.1.map (·.edge.kind) == [.alight, .hop, .dwell, .hop, .board] &&
          r.1.1.getLast?.any (fun f => f.edge.gate?.any fun g =>
            g.boarding && g.index == 0 && g.pattern.trip.id == tripEast) &&
          r.1.1.head?.any (fun l => l.edge.gate?.any fun g =>
            !g.boarding && g.index == 2 && g.pattern.trip.id == tripEast)) = true := by
    decide +kernel
  obtain ⟨t, -, h⟩ := (Option.any_eq_true _ _).mp h
  simp only [Bool.and_eq_true, Bool.not_eq_true', List.all_eq_true, decide_eq_true_eq] at h
  obtain ⟨⟨⟨⟨hforward, hwheelchair⟩, hcosts⟩, hexact⟩, h⟩ := h
  obtain ⟨⟨⟨taken, y⟩, hleads⟩, -, h⟩ := (Option.any_eq_true _ _).mp h
  simp only [Bool.and_eq_true, beq_iff_eq] at h
  obtain ⟨⟨hkinds, hfirst⟩, hlast⟩ := h
  simp only [List.map_eq_cons_iff, List.map_eq_nil_iff] at hkinds
  obtain ⟨l, _, rfl, -, a, _, rfl, ha, b, _, rfl, hb, d, _, rfl, hd, f, _, rfl, -, rfl⟩ := hkinds
  simp only [List.getLast?_cons_cons, List.getLast?_singleton, List.head?_cons, Option.any_some,
    Option.any_eq_true, Bool.and_eq_true, Bool.not_eq_true', beq_iff_eq] at hfirst hlast
  obtain ⟨⟨p, i, boarding⟩, hf, ⟨rfl, rfl⟩, htrip⟩ := hfirst
  obtain ⟨⟨p', i', boarding'⟩, hl, ⟨rfl, rfl⟩, htrip'⟩ := hlast
  have hlink := Edge.gate?_eq_some.mp hf
  have hlink' := Edge.gate?_eq_some.mp hl
  have hstays : ∀ q ∈ [a, b, d], q.edge.Stays := by
    rintro q hq
    simp only [List.mem_cons, List.not_mem_nil, or_false] at hq
    rcases hq with rfl | rfl | rfl
    · exact .inl ha
    · exact .inr hb
    · exact .inl hd
  obtain ⟨aboard, hride⟩ := hleads.ridesAlong hstays
  -- both gates are those of one pattern
  have hn : t.context.network.Wired := t.network_eq ▸ NetworkDescription.wired_of_build t.build_eq
  obtain ⟨k, -, hp, -⟩ := hn.gate (hn.mem_edgesFrom.mp hride.first_mem).1 hlink
  obtain ⟨k', -, hp', -⟩ := hn.gate (hn.mem_edgesFrom.mp hride.last_mem).1 hlink'
  obtain rfl := hn.trip_inj k k' p p' hp hp' (htrip.trans htrip'.symm)
  obtain rfl := Option.some.inj (hp.symm.trans hp')
  have hmem : p ∈ t.network.patterns.toList :=
    Array.mem_toList_iff.mpr (Array.mem_of_getElem? (t.network_eq ▸ hp))
  obtain ⟨back, aboard', arrived', y', hback, -, hwait, hvertex, htime⟩ :=
    NetworkDescription.ride_back t.build_eq t.network_eq t.integers_eq hforward hwheelchair hcosts
      (hexact p hmem) hlink hlink' hride
  exact ⟨t, p, f.edge, l.edge, [a, b, d], back, aboard, l.state, y, aboard', arrived', y', hlink,
    hlink', rfl, hride, hback, hwait, hvertex, htime⟩

end JourneyPlanner
