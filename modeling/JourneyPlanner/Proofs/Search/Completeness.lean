import JourneyPlanner.Proofs.Search.Admissible
import JourneyPlanner.Proofs.Search.Coverage
import JourneyPlanner.Proofs.Search.Exchange
import JourneyPlanner.Proofs.Search.Overflow
import JourneyPlanner.Proofs.Search.Rides

/-!
# When a search finds a path

A search drops a state when another at its place is at least as good in everything that its label
shows. Two things that edges look at are not shown. One is whether the last edge was a timed
transfer, which decides whether a transfer can be made. The other is whether a state is too early:
the vehicles of a day that has not begun cannot be met. An answer that no rival state could fail to
follow for these reasons (`Query.Shown`) is never lost.
-/

namespace JourneyPlanner

/-- Whether a state that some journey of a query comes to covers another. A search may keep it
instead of the other. -/
def Query.Rival {W : Type} [Weight W] (q : Query) (c : Context) (s z : State W) : Prop :=
  z.Covers c.arriveBy s ∧ ∃ l, c.Journey q.begin l ∧ z ∈ l

/-- Whether labels show all that decides on the steps of a journey that find a vehicle. -/
def Query.Shown {W : Type} [Weight W] (q : Query) (c : Context) (l : List (State W)) : Prop :=
  l.IsChain fun s y => y.boardings ≠ s.boardings → ∀ z, q.Rival c s z → c.AlikeUnseen s y z

/-- Whether a search stops for having explored as many states as it may. -/
def Query.Stopped (W : Type) [Weight W] (q : Query) (c : Context) (limits : SearchLimits) : Prop :=
  limits.maxStates ≤ (q.run c limits : Progress W).explored ∧
    (q.run c limits : Progress W).queue.toList ≠ [] ∧
      (q.run c limits : Progress W).paths.length < limits.maxResults

theorem Query.rival_last {W : Type} [Weight W] {q : Query} {c : Context} {s : State W} {t : Trail W}
    (hj : c.Journey q.begin t.states) (h : t.last.Covers c.arriveBy s) : q.Rival c s t.last :=
  ⟨h, _, hj, Trail.last_mem_states⟩

/-- What covers a state covers what the state covers. -/
theorem State.Covers.of_held {W : Type} [Weight W] {u y' y : State W} {arriveBy : Bool}
    (h : y'.Covers arriveBy y) (ha : y'.arriveBy = arriveBy)
    (hu : u = y' ∨ u.label.dominates y'.arriveBy y'.label = true) : u.Covers arriveBy y := by
  rcases hu with rfl | hu
  · exact h
  · rw [ha] at hu
    exact (State.dominates_iff.mp hu).1.trans h

/-- A journey that answers a query: it ends off board at the target, after no more boardings than
allowed. -/
structure Query.AnsweredBy {W : Type} [Weight W] (q : Query) (c : Context) (limits : SearchLimits)
    (l : List (State W)) (last : State W) : Prop where
  journey : c.Journey q.begin l
  last_eq : l.getLast? = some last
  vertex_eq : last.vertex = q.target
  off_board : last.isOnBoard = false
  boardings_le : last.boardings ≤ limits.maxBoardings

/-- What a search goes by. -/
structure Query.Proper (q : Query) (c : Context) : Prop where
  wired : c.network.Wired
  unbounded : c.integers = .unbounded
  request_eq : c.request = q.request
  regular : q.request.Regular
  distances : c.network.DistancesNonneg
  near : c.DaysNear q.time
  origin_ground : c.network.IsGround q.origin
  target_ground : c.network.IsGround q.target

variable {q : Query} {c : Context} {limits : SearchLimits} {l : List (State Exact)}
  {last s y z : State Exact} {w : ℚ}

namespace Query.Proper

variable (hq : q.Proper c)

include hq

theorem regular_context : c.request.Regular := hq.request_eq ▸ hq.regular

theorem guided : q.Guided c :=
  ⟨hq.wired, Context.staysFit_of_unbounded hq.unbounded, hq.request_eq, hq.regular_context,
    hq.distances, hq.origin_ground, hq.target_ground⟩

theorem reached {l : List (State Exact)} (hj : c.Journey q.begin l) :
    ∀ s ∈ l, c.Reached q.time s := by
  rw [hq.guided.begin_eq] at hj
  exact hj.reached hq.wired hq.origin_ground

theorem reached_last {t : Trail Exact} (hj : c.Journey q.begin t.states) :
    c.Reached q.time t.last := hq.reached hj _ Trail.last_mem_states

theorem ahead (h : q.AnsweredBy c limits l last) (hw : last.weight = .finite w) :
    ∀ s ∈ l, c.Ahead (c.boundsTo q.target) s w :=
  hq.guided.ahead h.journey h.last_eq h.vertex_eq hw

/-- A state that covers one of a journey has a step that the search queues, to a state that covers
the next. -/
theorem follows (hs : c.Reached q.time s) (hz : c.Reached q.time z) (hc : z.Covers c.arriveBy s)
    (hstep : c.Step s y) (hboard : y.boardings ≤ limits.maxBoardings)
    (hy : c.Ahead (c.boundsTo q.target) y w)
    (hunseen : y.boardings ≠ s.boardings → c.AlikeUnseen s y z) :
    ∃ y', c.Step z y' ∧ (q.plan c limits).Admits y' ∧ y'.Covers c.arriveBy y ∧
      ((y.boardings ≠ s.boardings → c.WaitsPaid z s) → z.Lighter s y' y) := by
  obtain ⟨e, he, hsrc, ht⟩ := hq.wired.step_iff.mp hstep
  obtain ⟨y', ht', hc', hlighter⟩ := ht.mirror hq.unbounded hq.wired hq.regular_context hq.near hs
    hz hc he hsrc hunseen
  obtain ⟨_, a, -, ha, -⟩ := hy.heuristic (p := q.plan c limits) rfl
  have hheuristic : (q.plan c limits).heuristic y' = (q.plan c limits).heuristic y := by
    unfold Plan.heuristic
    rw [hc'.isOnBoard_eq, hc'.vertex_eq]
  refine ⟨y', hq.wired.step_iff.mpr ⟨e, he, hsrc.trans hc.vertex_eq.symm, ht'⟩,
    ⟨hc'.boardings_le.trans hboard, ?_⟩, hc', hlighter⟩
  rw [hheuristic, ha]
  rfl

/-- Held trails follow an answer whose steps labels show: what covers a state of it goes on to
cover the next. -/
theorem mirrors (h : q.AnsweredBy c limits l last) (hw : last.weight = .finite w)
    (hshown : q.Shown c l) {held : Trail Exact → Prop}
    (hheld : ∀ t, held t → c.Journey q.begin t.states) :
    l.IsChain ((q.plan c limits).Mirrors held fun z s => z.Covers c.arriveBy s) := by
  refine List.isChain_iff_getElem.mpr fun i hi t ht hc => ?_
  have hstep := List.isChain_iff_getElem.mp h.journey.chain i hi
  have hmem : l[i + 1] ∈ l := List.getElem_mem hi
  have hz := hq.reached_last (hheld t ht)
  have hs := hq.reached h.journey _ (List.getElem_mem (i.lt_of_succ_lt hi))
  obtain ⟨y', hy', hadmits, hc', -⟩ := hq.follows hs hz hc hstep
    ((h.journey.boardings_le hq.wired h.last_eq _ hmem).trans h.boardings_le)
    (hq.ahead h hw _ hmem) fun hne =>
      List.isChain_iff_getElem.mp hshown i hi hne _ (Query.rival_last (hheld t ht) hc)
  exact ⟨y', hy', hadmits, fun u _ hu =>
    hc'.of_held (hz.step hq.wired hy').arriveBy_eq hu⟩

/-- Labels show all where timed transfers and other edges do not lead to one vertex, and no vehicle
is ridden of a day that begins after the time of the search. -/
theorem shown (hj : c.Journey q.begin l)
    (htimed : ∀ s ∈ l, s.everBoarded = true → c.TimedAlike s.vertex)
    (hbegun : ∀ s ∈ l, ∀ day, s.serviceDay = some day → day.midnight ≤ q.time) : q.Shown c l := by
  refine List.isChain_iff_getElem.mpr fun i hi hne z ⟨hc, l', hj', hz⟩ => ?_
  have hstep := List.isChain_iff_getElem.mp hj.chain i hi
  have hs := hq.reached hj _ (List.getElem_mem (i.lt_of_succ_lt hi))
  have hz := hq.reached hj' z hz
  obtain ⟨hoff, -⟩ := hstep.finds hq.wired hs hne
  refine ⟨fun hever => ?_, fun ha day hday => ?_⟩
  · exact (htimed _ (List.getElem_mem _) hever).cameBy_eq hs hz hc.vertex_eq hever
      ((hc.recalls hq.wired hs hz hoff).ever_eq.trans hever)
  · have hsince := hz.since
    rw [ha] at hsince
    exact (hbegun _ (List.getElem_mem hi) day hday).trans hsince

end Query.Proper

theorem Query.proper_of_build {description : NetworkDescription} {zones : ZoneDatabase}
    {n : Network} (hb : description.build zones = .ok n) (hz : n.calendar.zone.Lawful)
    (hc : Context.make .unbounded n q.request q.time = .ok c) (hr : q.request.Regular)
    (hd : n.DistancesNonneg) (hstart : n.IsGround q.start) (hgoal : n.IsGround q.goal) :
    q.Proper c := by
  have hn := NetworkDescription.wired_of_build hb
  have hnear : c.DaysNear q.time := fun day hday => Context.make_near hz hc hday
  obtain ⟨days, -, rfl⟩ := Context.make_eq_ok.mp hc
  obtain ⟨horigin, htarget⟩ := Query.ends_ground hstart hgoal
  exact ⟨hn, rfl, rfl, hr, hd, hnear, horigin, htarget⟩

theorem Query.unknownVertex?_eq_none {n : Network} (hstart : n.IsGround q.start)
    (hgoal : n.IsGround q.goal) : q.unknownVertex? n = none := by
  refine List.find?_eq_none.mpr fun v hv => ?_
  rw [decide_eq_true_eq, not_le]
  rcases List.mem_cons.mp hv with rfl | hv
  · exact hstart.lt_size
  · rw [List.mem_singleton.mp hv]
    exact hgoal.lt_size

theorem Query.AnsweredBy.isGoal (h : q.AnsweredBy c limits l last)
    (hz : z.Covers c.arriveBy last) : (q.plan c limits).isGoal z = true :=
  Plan.isGoal_iff.mpr ⟨hz.vertex_eq.trans h.vertex_eq, hz.isOnBoard_eq.trans h.off_board⟩

theorem Query.kept_begin (q : Query) (c : Context) (limits : SearchLimits) :
    (q.plan c limits : Plan Exact).Kept q.begin [] ((q.plan c limits).begin q.begin) ∧
      ((q.plan c limits : Plan Exact).begin q.begin).Holds [] (Trail.start q.begin) :=
  Plan.kept_begin (Exact.zero_add _)

/-- A search that is not stopped finds a path when the query has an answer that weighs a number
and whose steps labels show. Local time is less than a day from UTC. -/
theorem NetworkDescription.search_finds_path {description : NetworkDescription}
    {zones : ZoneDatabase} {n : Network} (hb : description.build zones = .ok n)
    (hz : n.calendar.zone.Lawful)
    (hc : Context.make .unbounded n q.request q.time = .ok c) (hr : q.request.Regular)
    (hd : n.DistancesNonneg) (hstart : n.IsGround q.start) (hgoal : n.IsGround q.goal)
    (h : q.AnsweredBy c limits l last) (hw : Weight.isFinite last.weight = true)
    (hshown : q.Shown c l) (hresults : 1 ≤ limits.maxResults)
    (hlimit : ¬ q.Stopped Exact c limits) :
    ∃ r : SearchResult Exact, search .unbounded n q limits = .ok r ∧ r.paths ≠ [] := by
  have hq := Query.proper_of_build hb hz hc hr hd hstart hgoal
  obtain ⟨w, hw⟩ := Exact.isFinite_iff.mp hw
  refine ⟨_, search_unbounded (Query.unknownVertex?_eq_none hstart hgoal) hc, ?_⟩
  show (q.run c limits).paths.reverse ≠ []
  rw [ne_eq, List.reverse_eq_nil_iff]
  intro hnone
  obtain ⟨hkept, hheld⟩ := q.kept_begin c limits
  rcases Plan.explore_spec preorder_before limits.maxStates hkept hheld rfl with
    ⟨done, hkept, hheld, -, hstop⟩ | ⟨done, g, x, rest, -, -, -, -, hfound⟩
  · have hempty : (q.run c limits : Progress Exact).queue.toList = [] := by
      by_contra hne
      refine hlimit ⟨?_, hne, ?_⟩
      · rcases hstop with hstop | hstop
        · exact absurd hstop hne
        · exact (hstop.trans (Nat.zero_add _)).ge
      · rw [hnone]
        exact hresults
    cases hl : l with
    | nil =>
      have := h.journey.head_eq
      rw [hl] at this
      cases this
    | cons s rest =>
      subst hl
      have hs : s = q.begin := Option.some.inj h.journey.head_eq
      have hmirrors := hq.mirrors h hw hshown hkept.journey
      rcases hkept.frontier h.last_eq hmirrors ⟨_, hheld, hs ▸ State.Covers.refl _⟩ with
        ⟨x, hx, -⟩ | ⟨t, ht, hcovers⟩
      · have hx' : x ∈ (q.run c limits : Progress Exact).queue.toList := hx
        rw [hempty] at hx'
        cases hx'
      · exact absurd (h.isGoal hcovers) (by rw [hkept.not_goal t ht]; exact Bool.false_ne_true)
  · have hfound' : (q.run c limits : Progress Exact).paths.getLast? = some x.trail := hfound
    rw [hnone] at hfound'
    cases hfound'

/-! ## The search between the two lines -/

theorem Query.not_stopped {n : Network} {r : SearchResult Exact}
    (hc : Context.make .unbounded n q.request q.time = .ok c)
    (hs : search .unbounded n q limits = .ok r) (h : r.explored < limits.maxStates) :
    ¬ q.Stopped Exact c limits := by
  obtain ⟨-, c', hc', -, -, rfl⟩ := search_eq_ok.mp hs
  obtain rfl : c' = c := Except.ok.inj (hc'.symm.trans hc)
  exact fun hstop => absurd hstop.1 (not_le.mpr h)

/-- Whether a street is no shorter than nothing. -/
def Edge.measures (e : Edge) : Bool :=
  match e.link with
  | .street street => !decide (street.length < 0.0)
  | _ => true

theorem Network.distancesNonneg_of_all {n : Network} (h : n.edges.all Edge.measures = true) :
    n.DistancesNonneg := by
  intro e he street x y hl _
  have := Array.all_eq_true_iff_forall_mem.mp h e he
  unfold Edge.measures at this
  rw [hl] at this
  simpa using this

namespace Trial

variable {description : NetworkDescription}

theorem lawful (t : Trial description q limits) : t.network.calendar.zone.Lawful :=
  Zone.database_lawful (by decide) (NetworkDescription.zone_of_build t.build_eq)

/-- Whether the journey of a trial is an answer that its search should find. -/
structure Fair (t : Trial description q limits) : Prop where
  regular : q.request.Regular
  distances : t.network.DistancesNonneg
  start_ground : t.network.IsGround q.start
  goal_ground : t.network.IsGround q.goal
  answered : q.AnsweredBy t.context limits t.states t.last
  finite : Weight.isFinite t.last.weight = true
  not_stopped : ¬ q.Stopped Exact t.context limits

variable (t : Trial description q limits)

/-- The test for a fair trial. -/
def isFair : Bool :=
  decide q.request.Regular && t.network.edges.all Edge.measures &&
    (t.network.kindOf? q.start).any (·.isGround) && (t.network.kindOf? q.goal).any (·.isGround) &&
    t.last.vertex == q.target && !t.last.isOnBoard &&
    decide (t.last.boardings ≤ limits.maxBoardings) && Weight.isFinite t.last.weight &&
    decide (t.result.explored < limits.maxStates)

theorem fair (h : t.isFair = true) : t.Fair := by
  unfold isFair at h
  simp only [Bool.and_eq_true, beq_iff_eq, Bool.not_eq_true', decide_eq_true_eq] at h
  obtain ⟨⟨⟨⟨⟨⟨⟨⟨hr, hlengths⟩, hstart⟩, hgoal⟩, hv⟩, hoff⟩, hle⟩, hw⟩, hexplored⟩ := h
  exact ⟨hr, Network.distancesNonneg_of_all hlengths, Network.isGround_of_any hstart,
    Network.isGround_of_any hgoal, ⟨t.journey, t.last_eq, hv, hoff, hle⟩, hw,
    Query.not_stopped t.make_eq t.search_eq hexplored⟩

end Trial

/-- The journey over both lines is an answer, and labels show all. -/
theorem shuttle_answer : ∃ t : Trial shuttle shuttleQuery {}, t.Fair ∧
    shuttleQuery.Shown t.context t.states ∧ ∃ path, t.result.paths.head? = some path := by
  have h : (shuttleTrial?.any fun t => t.isFair && t.result.paths.head?.isSome &&
      t.network.edges.all (·.kind != .timedTransfer) &&
      t.states.all fun s => s.serviceDay.all fun day => day.midnight ≤ shuttleTime) = true := by
    decide +kernel
  obtain ⟨t, -, h⟩ := (Option.any_eq_true _ _).mp h
  simp only [Bool.and_eq_true] at h
  obtain ⟨⟨⟨hfair, hpath⟩, htimed⟩, hbegun⟩ := h
  have hf := t.fair hfair
  have hq := Query.proper_of_build t.build_eq t.lawful t.make_eq hf.regular hf.distances
    hf.start_ground hf.goal_ground
  refine ⟨t, hf, hq.shown t.journey ?_ ?_, Option.isSome_iff_exists.mp hpath⟩
  · intro s _ _ e he e' he' _ _
    rw [← t.network_eq] at htimed
    have hkind := Array.all_eq_true_iff_forall_mem.mp htimed
    exact iff_of_false (bne_iff_ne.mp (hkind e he)) (bne_iff_ne.mp (hkind e' he'))
  · intro s hs day hday
    have := List.all_eq_true.mp hbegun s hs
    rw [hday] at this
    exact of_decide_eq_true this

theorem shuttle_path_found : ∃ t : Trial shuttle shuttleQuery {}, t.Fair ∧
    shuttleQuery.Shown t.context t.states ∧ ∃ r : SearchResult Exact,
      search .unbounded t.network shuttleQuery {} = .ok r ∧ r.paths ≠ [] := by
  obtain ⟨t, hf, hshown, -⟩ := shuttle_answer
  exact ⟨t, hf, hshown, NetworkDescription.search_finds_path t.build_eq t.lawful t.make_eq
    hf.regular hf.distances hf.start_ground hf.goal_ground hf.answered hf.finite hshown (by decide)
    hf.not_stopped⟩

/-! ## Answers that are lost -/

theorem Trial.exists_lost {description : NetworkDescription}
    (trial? : Option (Trial description q limits))
    (h : (trial?.any fun t => t.isFair && t.result.paths.isEmpty) = true) :
    ∃ t : Trial description q limits, t.Fair ∧ t.result.paths = [] := by
  obtain ⟨t, -, h⟩ := (Option.any_eq_true _ _).mp h
  rw [Bool.and_eq_true, List.isEmpty_iff] at h
  exact ⟨t, t.fair h.1, h.2⟩

/-- A bus that calls at stops. -/
def PatternDescription.bus (trip : TripId) (stops : List (StopId × String))
    (window : FrequencyDescription) : PatternDescription :=
  ⟨trip, routeOne, 1, some .bus, none, true, true,
    stops.map fun s => ⟨s.1, s.2, none, 0, 0, none, none, true⟩, [window]⟩

/-- Two lines at one platform, between which the change is timed. -/
def platform : NetworkDescription where
  timezone := "UTC"
  calendars := [⟨1, "20240101", "20241231", CalendarRule.everyDay, [], []⟩]
  stops := [.alone stopA, .alone stopB, .alone stopC, .alone stopD]
  streetVertices := []
  streets := [⟨"B", "C", "platform", some 0.0, [.walk], true⟩]
  patterns := [
    .bus tripEast [(stopA, "00:00:00"), (stopB, "00:05:00")]
      ⟨"06:00:00", "10:00:00", 600, true⟩,
    .bus tripNorth [(stopC, "00:00:00"), (stopD, "00:10:00")]
      ⟨"06:00:00", "10:00:00", 600, true⟩]
  transfers := [⟨stopB, stopC, 1, none, none, none, none, none⟩]
  timedTransfers := [⟨stopB, stopC⟩]

/-- The state that walks along the platform is kept instead of the one that changes, and cannot
board. -/
theorem platform_change_lost : ∃ t : Trial platform ⟨0, 3, shuttleTime, {}⟩ {},
    t.Fair ∧ t.result.paths = [] :=
  Trial.exists_lost (Trial.run? _ _ _ [0, 0, 0, 1, 1, 0, 0]) (by decide +kernel)

/-- A line that begins to run at midnight, with a lane and a detour to it. -/
def nightLine : NetworkDescription where
  timezone := "UTC"
  calendars := [⟨1, "20240315", "20241231", CalendarRule.everyDay, [], []⟩]
  stops := [.alone stopA, .alone stopB]
  streetVertices := [⟨"home", ⟨0.0, 0.0⟩⟩, ⟨"park", ⟨0.0, 0.0⟩⟩]
  streets := [⟨"home", "A", "lane", some 399.0, [.walk], true⟩,
    ⟨"home", "park", "path", some 399.0, [.walk], true⟩,
    ⟨"park", "A", "path", some 798.0, [.walk], true⟩]
  patterns := [
    .bus tripEast [(stopA, "00:00:00"), (stopB, "00:05:00")]
      ⟨"00:00:00", "10:00:00", 600, true⟩]
  transfers := []
  timedTransfers := []

/-- From ten minutes to midnight, who takes the lane is there too early, and is kept instead of who
takes the detour. -/
theorem nightLine_ride_lost : ∃ t : Trial nightLine ⟨2, 1, 1710460200, {}⟩ {},
    t.Fair ∧ t.result.paths = [] :=
  Trial.exists_lost (Trial.run? _ _ _ [1, 1, 2, 0, 0]) (by decide +kernel)

end JourneyPlanner
