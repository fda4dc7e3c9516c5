import JourneyPlanner.Proofs.Journey.Permits
import JourneyPlanner.Proofs.Search.CheapestFirst

/-!
# Legal paths

Every path that a search returns starts where and when its query says, takes edges that its request
permits, and ends off board at the target (`NetworkDescription.paths_legal`). A request with a
wheelchair rides vehicles that have room for it, and finds them at stops without steps; where it
leaves them nobody looks (`NetworkDescription.wheelchair_rides`).
-/

namespace JourneyPlanner

variable {W : Type} [Weight W]

/-- What a query asks of the states of a path, from the origin, where nothing has been boarded, to
the target. -/
structure Query.Legal (q : Query) (c : Context) (l : List (State W)) : Prop where
  starts : l.head? = some
    (State.origin (if q.request.arriveBy then q.goal else q.start) q.time q.request)
  steps : l.IsChain fun s y => ∃ e ∈ c.network.edgesFrom s.vertex q.request.arriveBy,
    e.traverse s c = .ok y ∧ q.request.Permits c.network e
  ends : ∃ last, l.getLast? = some last ∧
    last.vertex = (if q.request.arriveBy then q.start else q.goal) ∧ last.isOnBoard = false
  mode_eq : ∀ s ∈ l, s.streetMode = q.request.initialMode
  riding : ∀ s ∈ l, s.isOnBoard = true → ∃ k p, c.Aboard s k p ∧ q.request.MayRide p
  rides : ∀ x ride y, CompletedRide l x ride y → ∃ k i j p, c.RidesPattern x ride y k i j p ∧
    q.request.MayRide p ∧ p.boardAccess i ≠ .notAvailable ∧ p.alightAccess j ≠ .notAvailable

theorem Context.Journey.legal {c : Context} {q : Query} {l : List (State W)} {last : State W}
    (hn : c.network.Wired) (hrequest : c.request = q.request) (hv : c.network.IsGround q.origin)
    (h : c.Journey q.begin l) (hlast : l.getLast? = some last) (htarget : last.vertex = q.target)
    (hoff : last.isOnBoard = false) : q.Legal c l := by
  have hj : c.Journey (State.origin q.origin q.time c.request) l := hrequest ▸ h
  have hlicensed := hj.licensed hn hv
  have hpermitted := hj.permitted hn hv
  unfold Context.arriveBy at hpermitted
  rw [hrequest] at hpermitted
  refine ⟨h.head_eq, hpermitted, ⟨last, hlast, htarget, hoff⟩,
    fun s hs => hrequest ▸ (hlicensed s hs).mode_eq, fun s hs hon => ?_, fun x ride y hr => ?_⟩
  · rcases (hlicensed s hs).placed with hfoot | hriding
    · exact absurd hfoot.trip_eq (State.isOnBoard_eq_true.mp hon)
    · exact hrequest ▸ hriding
  · obtain ⟨k, i, j, g, g', hbetween⟩ := hj.ridesBetween hn hv hr
    have hx : x ∈ l := by
      obtain ⟨before, after, rfl⟩ := hr.within
      simp
    obtain ⟨hboard, halight⟩ := hbetween.accessible
    exact ⟨k, i, j, g.pattern, hbetween.ridesPattern,
      hrequest ▸ hbetween.mayRide (hlicensed x hx).mode_eq, hboard, halight⟩

/-- The paths of a search are legal, whatever is measured along the edges. -/
theorem NetworkDescription.paths_legal {description : NetworkDescription}
    {zones : ZoneDatabase} {n : Network} (hb : description.build zones = .ok n)
    (conditions : Std.TreeMap EdgeId (List Exposure))
    {k : Integers} {q : Query} {limits : SearchLimits} {r : SearchResult W}
    (hv : n.IsGround q.origin)
    (hs : search k { n with conditions := conditions } q limits = .ok r) :
    ∃ c, Context.make k { n with conditions := conditions } q.request q.time = .ok c ∧
      ∀ t ∈ r.paths, q.Legal c t.states := by
  obtain ⟨c, hc, hpaths⟩ := search_sound hs
  refine ⟨c, hc, fun t ht => ?_⟩
  obtain ⟨hj, htarget, hoff⟩ := hpaths t ht
  obtain ⟨days, -, rfl⟩ := Context.make_eq_ok.mp hc
  have hn := (wired_of_build hb).withConditions conditions
  exact hj.legal hn rfl hv Trail.getLast?_states htarget hoff

/-- A line between two stops, with a lane and a shorter alley beside it. -/
def laneAndAlley : NetworkDescription where
  timezone := "UTC"
  calendars := [⟨1, "20240101", "20241231", CalendarRule.everyDay, [], []⟩]
  stops := [.alone stopA, .alone stopB]
  streetVertices := []
  streets := [⟨"A", "B", "lane", some 1330.0, [.walk], false⟩,
    ⟨"A", "B", "alley", some 665.0, [.walk], false⟩]
  patterns := [
    .bus tripEast [(stopA, "00:00:00"), (stopB, "00:05:00")] ⟨"06:00:00", "10:00:00", 600, true⟩]
  transfers := []
  timedTransfers := []

/-- What is measured along the lane and the alley: on the average only the lane is quiet. -/
def loudAlley : Std.TreeMap EdgeId (List Exposure) :=
  .ofList [((0 : EdgeId), [(⟨.noise, 50.0, 70.0⟩ : Exposure)]),
    ((1 : EdgeId), [(⟨.noise, 60.5, 70.0⟩ : Exposure)])]

/-- From the one stop to the other, not on the second route and along streets with these limits. -/
def alleyQuery (thresholds : List Threshold) : Query where
  start := 0
  goal := 1
  time := shuttleTime
  request := { bannedRoutes := [routeTwo], thresholds := thresholds }

/-- With a limit on noise the line and the lane are found. Without it the alley is found too. -/
theorem laneAndAlley_paths_legal : ∃ (n : Network) (r r' : SearchResult Exact),
    laneAndAlley.build onlyUtc = .ok n ∧
      search .words { n with conditions := loudAlley } (alleyQuery [⟨.noise, some 60.0, none⟩]) {}
        = .ok r ∧ r.paths.length = 2 ∧
      (∀ t ∈ r.paths, ∀ s ∈ t.states, s.backEdge ≠ some ⟨1, .street⟩) ∧
      search .words { n with conditions := loudAlley } (alleyQuery []) {} = .ok r' ∧
      r'.paths.length = 3 ∧
      ∃ c, Context.make .words { n with conditions := loudAlley }
          (alleyQuery [⟨.noise, some 60.0, none⟩]).request shuttleTime = .ok c ∧
        ∀ t ∈ r.paths, (alleyQuery [⟨.noise, some 60.0, none⟩]).Legal c t.states := by
  have h : ((laneAndAlley.build onlyUtc).toOption.any fun n => (n.kindOf? 0).any (·.isGround) &&
      ((search .words { n with conditions := loudAlley }
        (alleyQuery [⟨.noise, some 60.0, none⟩]) {}).toOption.any fun r : SearchResult Exact =>
          r.paths.length == 2 &&
            r.paths.all fun t => t.states.all fun s => s.backEdge != some ⟨1, .street⟩) &&
      (search .words { n with conditions := loudAlley } (alleyQuery []) {}).toOption.any
        fun r : SearchResult Exact => r.paths.length == 3) = true := by
    decide +kernel
  obtain ⟨n, hb, h⟩ := (Option.any_eq_true _ _).mp h
  simp only [Bool.and_eq_true] at h
  obtain ⟨⟨hground, h⟩, h'⟩ := h
  obtain ⟨r, hs, h⟩ := (Option.any_eq_true _ _).mp h
  obtain ⟨r', hs', hall⟩ := (Option.any_eq_true _ _).mp h'
  rw [Bool.and_eq_true, beq_iff_eq] at h
  refine ⟨n, r, r', eq_ok_of_toOption hb, eq_ok_of_toOption hs, h.1, fun t ht s hs => ?_,
    eq_ok_of_toOption hs', beq_iff_eq.mp hall,
    NetworkDescription.paths_legal (eq_ok_of_toOption hb) loudAlley
      (Network.isGround_of_any hground) (eq_ok_of_toOption hs)⟩
  exact bne_iff_ne.mp (List.all_eq_true.mp (List.all_eq_true.mp h.2 t ht) s hs)

/-! ## Wheelchairs -/

/-- With a wheelchair every ride of a path is on a pattern that has room for it, found at a stop
without steps, and left at one where the pattern has no steps at such stops. -/
theorem NetworkDescription.wheelchair_rides {description : NetworkDescription}
    {zones : ZoneDatabase} {n : Network} (hb : description.build zones = .ok n)
    (conditions : Std.TreeMap EdgeId (List Exposure))
    {k : Integers} {q : Query} {limits : SearchLimits} {r : SearchResult W}
    (hv : n.IsGround q.origin) (hw : q.request.wheelchair = true)
    (hs : search k { n with conditions := conditions } q limits = .ok r) :
    ∃ c, Context.make k { n with conditions := conditions } q.request q.time = .ok c ∧
      ∀ t ∈ r.paths, ∀ x ride y, CompletedRide t.states x ride y →
        ∃ m i j p, c.RidesPattern x ride y m i j p ∧
          p.wheelchair = true ∧ p.IsStepFree (if q.request.arriveBy then j else i) ∧
            (p.ExitsStepFree q.request.arriveBy → p.IsStepFree i ∧ p.IsStepFree j) := by
  obtain ⟨c, hc, hpaths⟩ := search_sound hs
  refine ⟨c, hc, fun t ht x ride y hr => ?_⟩
  obtain ⟨hj, -, -⟩ := hpaths t ht
  obtain ⟨days, -, rfl⟩ := Context.make_eq_ok.mp hc
  have hn := (wired_of_build hb).withConditions conditions
  obtain ⟨m, i, j, g, g', hbetween⟩ := hj.ridesBetween hn hv hr
  obtain ⟨hroom, hfound⟩ := hbetween.found_stepFree hw
  refine ⟨m, i, j, g.pattern, hbetween.ridesPattern, hroom, hfound, fun hexits => ?_⟩
  have hleft := hbetween.left_stepFree hexits
  unfold Context.arriveBy at hfound hleft
  split_ifs at hfound hleft
  · exact ⟨hleft, hfound⟩
  · exact ⟨hfound, hleft⟩

omit [Weight W] in
theorem exists_completedRide {l : List (State W)} {m : Nat} {after : List Bool}
    (h : l.map (·.isOnBoard) = false :: (List.replicate (m + 1) true ++ false :: after)) :
    ∃ x ride y rest, l = x :: (ride ++ y :: rest) ∧ rest.map (·.isOnBoard) = after ∧
      CompletedRide l x ride y := by
  obtain ⟨x, _, rfl, hx, h⟩ := List.map_eq_cons_iff.mp h
  obtain ⟨ride, _, rfl, hride, h⟩ := List.map_eq_append_iff.mp h
  obtain ⟨y, rest, rfl, hy, hrest⟩ := List.map_eq_cons_iff.mp h
  refine ⟨x, ride, y, rest, rfl, hrest, ⟨[], rest, rfl⟩, ?_, fun s hs => ?_, hx, hy⟩
  · rintro rfl
    cases hride
  · have hmem := List.mem_map_of_mem (f := fun s : State W => s.isOnBoard) hs
    rw [hride] at hmem
    exact List.eq_of_mem_replicate hmem

theorem Trial.exists_ride {description : NetworkDescription} {q : Query} {limits : SearchLimits}
    (t : Trial description q limits) (hv : t.network.IsGround q.origin) {path : Trail Exact}
    (hpath : path ∈ t.result.paths) {m : Nat}
    (h : path.states.map (·.isOnBoard) = false :: (List.replicate (m + 1) true ++ [false])) :
    ∃ x ride k i j p, CompletedRide path.states x ride path.last ∧
      t.context.RidesPattern x ride path.last k i j p := by
  obtain ⟨c, hc, hpaths⟩ := search_sound t.search_eq
  obtain rfl := t.context_eq hc
  obtain ⟨hj, -, -⟩ := hpaths path hpath
  obtain ⟨x, ride, y, rest, heq, hrest, hr⟩ := exists_completedRide h
  obtain rfl : y = path.last := by
    rw [List.map_eq_nil_iff] at hrest
    have hlast := path.getLast?_states
    rw [heq, hrest, ← List.cons_append, List.getLast?_append] at hlast
    exact Option.some.inj hlast
  have hn := NetworkDescription.wired_of_build t.build_eq
  rw [← t.network_eq] at hn hv
  have hj : t.context.Journey (State.origin q.origin q.time t.context.request) path.states :=
    t.request_eq ▸ hj
  obtain ⟨k, i, j, g, g', hbetween⟩ := hj.ridesBetween hn hv hr
  exact ⟨x, ride, k, i, j, g.pattern, hr, hbetween.ridesPattern⟩

omit [Weight W] in
theorem Context.RidesPattern.mem_patterns {c : Context} {x y : State W} {ride : List (State W)}
    {k i j : Nat} {p : FrequencyPattern} (h : c.RidesPattern x ride y k i j p) (hne : ride ≠ []) :
    p ∈ c.network.patterns :=
  Array.mem_of_getElem? (h.aboard _ (List.head_mem hne)).pattern_eq

/-- From the first stop to the second, with a wheelchair. -/
def wheelchairQuery : Query := ⟨0, 1, shuttleTime, { wheelchair := true }⟩

theorem laneAndLine_wheelchair_rides : ∃ t : Trial laneAndLine wheelchairQuery {},
    ∃ path ∈ t.result.paths, ∃ x ride y, CompletedRide path.states x ride y ∧
      ∃ k i j p, t.context.RidesPattern x ride y k i j p ∧ p.wheelchair = true ∧
        p.IsStepFree i ∧ p.IsStepFree j := by
  have h : ((Trial.run? laneAndLine wheelchairQuery {} [1, 0, 0]).any fun t =>
      (t.network.kindOf? wheelchairQuery.origin).any (·.isGround) &&
        t.context.network.patterns.all (fun p => p.stops.all (·.wheelchair)) &&
        t.result.paths.any fun path =>
          path.states.map (·.isOnBoard) == [false, true, true, false]) = true := by
    decide +kernel
  obtain ⟨t, -, h⟩ := (Option.any_eq_true _ _).mp h
  simp only [Bool.and_eq_true] at h
  obtain ⟨⟨hground, hstops⟩, h⟩ := h
  obtain ⟨path, hpath, hboard⟩ := List.any_eq_true.mp h
  have hv := Network.isGround_of_any hground
  obtain ⟨x, ride, -, -, -, -, hr, -⟩ := t.exists_ride hv hpath (m := 1) (beq_iff_eq.mp hboard)
  obtain ⟨c, hc, hrides⟩ :=
    NetworkDescription.wheelchair_rides t.build_eq _ hv rfl t.search_eq
  obtain rfl := t.context_eq hc
  obtain ⟨k, i, j, p, hpattern, hroom, -, hfree⟩ := hrides path hpath x ride path.last hr
  have hall := Array.all_eq_true_iff_forall_mem.mp hstops p (hpattern.mem_patterns hr.ne_nil)
  exact ⟨t, path, hpath, x, ride, path.last, hr, k, i, j, p, hpattern, hroom,
    hfree fun st hst _ => List.all_eq_true.mp hall st hst⟩

/-! ## Steps where a vehicle is left -/

/-- Whether each stop of a network at the end of a path has steps, in every pattern. -/
def Trial.hasSteps {description : NetworkDescription} {q : Query} {limits : SearchLimits}
    (t : Trial description q limits) (path : Trail Exact) : Bool :=
  t.context.network.patterns.all fun p => p.stops.all fun st =>
    t.context.network.kindOf? path.last.vertex != some (.stop st.stop) || !st.wheelchair

theorem Trial.exists_steps {description : NetworkDescription} {q : Query} {limits : SearchLimits}
    (trial? : Option (Trial description q limits))
    (h : (trial?.any fun t => (t.network.kindOf? q.origin).any (·.isGround) &&
      t.result.paths.any fun path =>
        path.states.map (·.isOnBoard) == [false, true, true, false] && t.hasSteps path) = true) :
    ∃ t : Trial description q limits, ∃ path ∈ t.result.paths, ∃ x ride y,
      CompletedRide path.states x ride y ∧ ∃ k i j p, t.context.RidesPattern x ride y k i j p ∧
        ¬ p.IsStepFree (if q.request.arriveBy then i else j) := by
  obtain ⟨t, -, h⟩ := (Option.any_eq_true _ _).mp h
  rw [Bool.and_eq_true] at h
  obtain ⟨hground, h⟩ := h
  obtain ⟨path, hpath, h⟩ := List.any_eq_true.mp h
  rw [Bool.and_eq_true] at h
  obtain ⟨hboard, hsteps⟩ := h
  obtain ⟨x, ride, k, i, j, p, hr, hpattern⟩ :=
    t.exists_ride (Network.isGround_of_any hground) hpath (m := 1) (beq_iff_eq.mp hboard)
  refine ⟨t, path, hpath, x, ride, path.last, hr, k, i, j, p, hpattern, ?_⟩
  have hlast : t.context.IsAtStop path.last p (if q.request.arriveBy then i else j) := by
    have hi := hpattern.boards_at
    have hj := hpattern.alights_at
    rw [show t.context.arriveBy = q.request.arriveBy from congrArg Request.arriveBy t.request_eq]
      at hi hj
    split_ifs at hi hj ⊢
    · exact hi
    · exact hj
  rintro ⟨st, hst, hfree⟩
  obtain ⟨st', hst', hstop⟩ := hlast
  obtain rfl : st' = st := Option.some.inj (hst'.symm.trans hst)
  have hall := Array.all_eq_true_iff_forall_mem.mp hsteps p (hpattern.mem_patterns hr.ne_nil)
  have := List.all_eq_true.mp hall st' (List.mem_of_getElem? hst)
  rw [hstop, hfree] at this
  simp at this

/-- A line between two stops, each of them with steps or without. -/
def stairs (first second : Bool) : NetworkDescription where
  timezone := "UTC"
  calendars := [⟨1, "20240101", "20241231", CalendarRule.everyDay, [], []⟩]
  stops := [.alone stopA, .alone stopB]
  streetVertices := []
  streets := []
  patterns := [⟨tripEast, routeOne, 1, some .bus, none, true, true,
    [⟨stopA, "00:00:00", none, 0, 0, none, none, first⟩,
      ⟨stopB, "00:05:00", none, 0, 0, none, none, second⟩],
    [⟨"06:00:00", "10:00:00", 600, true⟩]⟩]
  transfers := []
  timedTransfers := []

/-- Who sets out with a wheelchair gets off where there are steps. -/
theorem stairs_at_exit : ∃ t : Trial (stairs true false) wheelchairQuery {},
    ∃ path ∈ t.result.paths, ∃ x ride y, CompletedRide path.states x ride y ∧
      ∃ k i j p, t.context.RidesPattern x ride y k i j p ∧ ¬ p.IsStepFree j :=
  Trial.exists_steps (Trial.run? _ _ _ [0, 0, 0]) (by decide +kernel)

theorem stairs_at_entry : ∃ t : Trial (stairs false true)
    ⟨0, 1, shuttleTime + 900, { arriveBy := true, wheelchair := true }⟩ {},
      ∃ path ∈ t.result.paths, ∃ x ride y, CompletedRide path.states x ride y ∧
        ∃ k i j p, t.context.RidesPattern x ride y k i j p ∧ ¬ p.IsStepFree i :=
  Trial.exists_steps (Trial.run? _ _ _ [0, 0, 0]) (by decide +kernel)

end JourneyPlanner
