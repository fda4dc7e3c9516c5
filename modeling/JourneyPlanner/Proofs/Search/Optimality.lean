import JourneyPlanner.Proofs.Search.Completeness

/-!
# When the first path is the best

A search may drop a state for one that is no heavier and no later, and the earlier one then waits
longer for the same vehicle. Where at every boarding of an answer such a rival is lighter by what it
waits longer (`Query.CheapWaits`), the first path found weighs no more than the answer. Before the
first boarding a state weighs what its time on streets does (`Context.Weighed.strolled`), so that a
rival has saved something; after that nothing ties weight to time.
-/

namespace JourneyPlanner

/-- Whether at each boarding of a journey no rival is lighter by less than it will wait longer. -/
def Query.CheapWaits (q : Query) (c : Context) (l : List (State Exact)) : Prop :=
  l.IsChain fun s y => y.boardings ≠ s.boardings → ∀ z, q.Rival c s z → c.WaitsPaid z s

variable {c : Context} {e : Edge} {s s' y z : State Exact} {time : Int}

/-- What holds of the weight of a state that a search from a time can reach. -/
structure Context.Weighed (c : Context) (time : Int) (s : State Exact) : Prop where
  nonneg : s.weight.Nonneg
  strolled : s.everBoarded = false → secondsTo c.arriveBy time s.time < 2 ^ 63 - 1 →
    s.weight =
      .finite (secondsTo c.arriveBy time s.time * c.request.streetRate c.request.initialMode)

theorem Exact.truncate_of_int (n : Int) :
    (Weight.truncate (finite n) : Int) = max (-2 ^ 63) (min n (2 ^ 63 - 1)) := by
  show max (-2 ^ 63) (min (if 0 ≤ (n : ℚ) then ⌊(n : ℚ)⌋ else ⌈(n : ℚ)⌉) (2 ^ 63 - 1)) = _
  rw [Int.floor_intCast, Int.ceil_intCast, ite_self]

theorem Exact.truncate_intCast {n : Int} (h : (Weight.truncate (finite n) : Int) < 2 ^ 63 - 1)
    (h0 : 0 ≤ (Weight.truncate (finite n) : Int)) : (Weight.truncate (finite n) : Int) = n := by
  rw [truncate_of_int] at h h0 ⊢
  omega

/-- A street whose seconds are in range weighs these seconds at the rate of the mode. -/
theorem Street.charge_of_truncate {street : Street} {mode : Mode} (hr : c.request.Regular)
    (h0 : 0 ≤ Weight.truncate (street.seconds c mode : Exact))
    (h : Weight.truncate (street.seconds c mode : Exact) < 2 ^ 63 - 1)
    (hcharge : Weight.IsCharge (c.request.streetWeight (street.seconds c mode : Exact) mode)) :
    c.request.streetWeight (street.seconds c mode) mode = Exact.finite
      (Weight.truncate (street.seconds c mode : Exact) * c.request.streetRate mode) := by
  rcases Exact.isCharge_iff.mp hcharge with ⟨w, -, hw⟩ | hinf
  · obtain ⟨-, hseconds, hw'⟩ := Street.charge_eq hr hw
    rw [hw, hw']
    rw [hseconds] at h h0 ⊢
    rw [Exact.truncate_intCast h h0]
  · rw [Street.seconds_eq_infinite hr hinf] at h
    exact absurd h (lt_irrefl _)

theorem secondsTo_onward {arriveBy : Bool} {a b : Int} {seconds : Int} :
    secondsTo arriveBy a (onward arriveBy b seconds) = secondsTo arriveBy a b + seconds := by
  unfold secondsTo onward
  split_ifs <;> omega

@[simp] theorem secondsTo_self (arriveBy : Bool) (a : Int) : secondsTo arriveBy a a = 0 := by
  unfold secondsTo
  split_ifs <;> omega

theorem secondsTo_nonneg {arriveBy : Bool} {a b : Int} (h : Sooner arriveBy a b) :
    0 ≤ secondsTo arriveBy a b := by
  unfold secondsTo Sooner at *
  split_ifs at * <;> omega

theorem Context.Weighed.step (hn : c.network.Wired) (hr : c.request.Regular)
    (hs : c.Reached time s) (h : c.Weighed time s) (hstep : c.Step s y) : c.Weighed time y := by
  obtain ⟨e, -, -, ht⟩ := hn.step_iff.mp hstep
  refine ⟨ht.weight_nonneg h.nonneg, ?_⟩
  cases ht with
  | find => exact nofun
  | leave => exact h.strolled
  | stay _ htrip _ hcharge =>
    intro hever
    cases hs.ledger with
    | unused _ _ hnone =>
      rw [hnone] at htrip
      cases htrip
    | used hever' => exact absurd (hever'.symm.trans hever) nofun
  | change => exact h.strolled
  | @walk street _ _ hnonneg hcharge =>
    intro hever hlt
    have htime : secondsTo c.arriveBy time (onward s.arriveBy s.time
        (Weight.truncate (street.seconds c s.streetMode : Exact))) =
        secondsTo c.arriveBy time s.time +
          Weight.truncate (street.seconds c s.streetMode : Exact) := by
      rw [hs.arriveBy_eq]
      exact secondsTo_onward
    change secondsTo c.arriveBy time (onward _ _ _) < _ at hlt
    have hsince := secondsTo_nonneg hs.since
    rw [htime] at hlt
    show s.weight + c.request.streetWeight _ _ = .finite (secondsTo c.arriveBy time
      (onward s.arriveBy s.time _) * _)
    rw [htime, Street.charge_of_truncate hr hnonneg (by omega) hcharge, h.strolled hever (by omega),
      hs.mode_eq, Exact.finite_add_finite, Int.cast_add, add_mul]

theorem Context.weighed_origin {v : VertexId} :
    c.Weighed time (State.origin v time c.request : State Exact) := by
  refine ⟨.inl ⟨0, le_refl 0, Exact.zero_eq⟩, fun _ _ => ?_⟩
  show Weight.zero = Exact.finite (secondsTo c.arriveBy time time * _)
  rw [secondsTo_self, Exact.zero_eq, Int.cast_zero, zero_mul]

/-! ## Waiting longer -/

/-- A vehicle that is found first is met within some days of the search's time. -/
theorem Gate.Finds.secondsTo_lt {g : Gate} {stop : StopId} {meeting wait : Int} {day : ServiceDay}
    {penalty : Exact} (hnear : c.DaysNear time)
    (hever : s.everBoarded = false) (h : g.Finds s c stop meeting wait day penalty) :
    secondsTo c.arriveBy time s.time < 2 ^ 63 - 1 := by
  obtain ⟨hday, hwait⟩ := Gate.exactVehicle?_mem (Gate.exactVehicle?_eq h.vehicle_eq)
  obtain ⟨h0, h1, -⟩ := Gate.exactWait?_eq_some.mp hwait
  obtain ⟨hlow, hhigh⟩ := hnear day hday
  have hmeeting := h.transfer_eq
  rw [checkTransfer_first hever, Except.ok.injEq, Prod.mk.injEq] at hmeeting
  rw [← hmeeting.1] at h0 h1
  unfold secondsTo
  split_ifs <;> omega

/-- Where later waits weigh nothing, no rival weighs more after one. -/
theorem Context.waitsPaid_later (hrate : c.request.waitRate false = 0)
    (hever : s.everBoarded = true) : c.WaitsPaid z s := by
  intro q q' _ _ hle
  rw [hever, Bool.not_true, hrate, mul_zero, add_zero]
  exact hle

/-- Where a wait before the first ride weighs no more than as many seconds on a street, a rival has
saved what it waits longer. -/
theorem Context.waitsPaid_first {g : Gate} {stop : StopId} {meeting wait : Int} {day : ServiceDay}
    {penalty : Exact} (hn : c.network.Wired) (hnear : c.DaysNear time)
    (hrate : c.request.waitRate true ≤ c.request.streetRate c.request.initialMode)
    (hs : c.Reached time s) (hz : c.Reached time z) (hc : z.Covers c.arriveBy s)
    (hws : c.Weighed time s) (hwz : c.Weighed time z) (hoff : s.trip = none)
    (hever : s.everBoarded = false) (hf : g.Finds s c stop meeting wait day penalty) :
    c.WaitsPaid z s := by
  intro q q' hq hq' _
  have hlt := hf.secondsTo_lt hnear hever
  have hsum : secondsTo c.arriveBy time s.time =
      secondsTo c.arriveBy time z.time + secondsTo c.arriveBy z.time s.time := by
    unfold secondsTo
    split_ifs <;> omega
  have hlead := secondsTo_nonneg hc.sooner
  have hqs := hws.strolled hever hlt
  have hqz := hwz.strolled ((hc.recalls hn hs hz hoff).ever_eq.trans hever) (by omega)
  rw [hq, Exact.finite.injEq] at hqs
  rw [hq', Exact.finite.injEq] at hqz
  have hmul := mul_le_mul_of_nonneg_left hrate
    (show (0 : ℚ) ≤ secondsTo c.arriveBy z.time s.time by exact_mod_cast hlead)
  rw [hqs, hqz, hsum, hever, Bool.not_false, Int.cast_add, add_mul]
  exact add_le_add_right hmul _

/-! ## The first path -/

/-- Whether a state covers another and weighs no more, and both weigh numbers. -/
structure State.Betters (arriveBy : Bool) (s' s : State Exact) : Prop where
  covers : s'.Covers arriveBy s
  weight_le : ∃ q' q, s'.weight = .finite q' ∧ s.weight = .finite q ∧ q' ≤ q

variable {q : Query} {limits : SearchLimits} {l : List (State Exact)} {last : State Exact} {w : ℚ}

/-- What dominates a state is no heavier than what the state is no heavier than. -/
theorem State.Betters.of_held {u y' : State Exact} {arriveBy : Bool} (h : y'.Betters arriveBy y)
    (ha : y'.arriveBy = arriveBy) (hw : u.weight.Nonneg)
    (hu : u = y' ∨ u.label.dominates y'.arriveBy y'.label = true) : u.Betters arriveBy y := by
  refine ⟨h.covers.of_held ha hu, ?_⟩
  rcases hu with rfl | hu
  · exact h.weight_le
  · obtain ⟨q', q, hq', hq, hle⟩ := h.weight_le
    have hatMost := (State.dominates_iff.mp hu).2
    rw [hq'] at hatMost
    obtain ⟨p, hp, hple⟩ := hw.of_atMost hatMost
    exact ⟨p, q, hp, hq, hple.trans hle⟩

namespace Query.Proper

variable (hq : q.Proper c)

include hq

theorem weighed {l : List (State Exact)} (hj : c.Journey q.begin l) :
    ∀ s ∈ l, c.Weighed q.time s := by
  have hreached := hq.reached hj
  refine hj.forall_of_step ?_ fun s hs y _ hsy h =>
    h.step hq.wired hq.regular_context (hreached s hs) hsy
  rw [hq.guided.begin_eq]
  exact Context.weighed_origin

theorem weighed_last {t : Trail Exact} (hj : c.Journey q.begin t.states) :
    c.Weighed q.time t.last := hq.weighed hj _ Trail.last_mem_states

/-- Waits are cheap where one before the first ride weighs no more than as many seconds on a street,
and there are no later ones or they weigh nothing. -/
theorem cheapWaits (hj : c.Journey q.begin l)
    (hfirst : q.request.waitRate true ≤ q.request.streetRate q.request.initialMode)
    (hlater : (∀ s ∈ l, s.boardings ≤ 1) ∨ q.request.waitRate false = 0) : q.CheapWaits c l := by
  refine List.isChain_iff_getElem.mpr fun i hi hne z ⟨hc, l', hj', hz⟩ => ?_
  have hmem : l[i] ∈ l := List.getElem_mem _
  have hs := hq.reached hj _ hmem
  have hstep := List.isChain_iff_getElem.mp hj.chain i hi
  obtain ⟨hoff, g, stop, meeting, wait, day, penalty, hf⟩ := hstep.finds hq.wired hs hne
  rw [← hq.request_eq] at hfirst hlater
  cases hever : l[i].everBoarded with
  | true =>
    rcases hlater with hone | hrate
    · obtain ⟨e, -, -, ht⟩ := hq.wired.step_iff.mp hstep
      have hle := ht.boardings_le
      have hlast := hone _ (List.getElem_mem hi)
      cases hs.ledger with
      | unused never => exact absurd (never.symm.trans hever) nofun
      | used _ hpos => omega
    · exact Context.waitsPaid_later hrate hever
  | false =>
    exact Context.waitsPaid_first hq.wired hq.near hfirst hs (hq.reached hj' z hz) hc
      (hq.weighed hj _ hmem) (hq.weighed hj' z hz) hoff hever hf

/-- Where waits are cheap, held trails follow an answer at no greater weight. -/
theorem mirrors_betters (h : q.AnsweredBy c limits l last) (hw : last.weight = .finite w)
    (hshown : q.Shown c l) (hwaits : q.CheapWaits c l)
    {held : Trail Exact → Prop} (hheld : ∀ t, held t → c.Journey q.begin t.states) :
    l.IsChain ((q.plan c limits).Mirrors held fun z s => z.Betters c.arriveBy s) := by
  refine List.isChain_iff_getElem.mpr fun i hi t ht hm => ?_
  have hstep := List.isChain_iff_getElem.mp h.journey.chain i hi
  have hmem : l[i] ∈ l := List.getElem_mem _
  have hmem' : l[i + 1] ∈ l := List.getElem_mem hi
  have hs := hq.reached h.journey _ hmem
  have hz := hq.reached_last (hheld t ht)
  have hrival := Query.rival_last (hheld t ht) hm.covers
  have hboardings := h.journey.boardings_le hq.wired h.last_eq _ hmem'
  have hahead := hq.ahead h hw _ hmem'
  obtain ⟨y', hy', hadmits, hc', hlighter⟩ := hq.follows hs hz hm.covers hstep
    (hboardings.trans h.boardings_le) hahead fun hne =>
      List.isChain_iff_getElem.mp hshown i hi hne _ hrival
  have hlight := hlighter fun hne => List.isChain_iff_getElem.mp hwaits i hi hne _ hrival
  obtain ⟨q', v, hq', hv, hle⟩ := hm.weight_le
  obtain ⟨r, -, hr, -⟩ := hahead
  obtain ⟨r', hr', hrle⟩ := hlight q' r hq' hr ⟨v, hv, hle⟩
  have hbetters : y'.Betters c.arriveBy l[i + 1] := ⟨hc', r', r, hr', hr, hrle⟩
  exact ⟨y', hy', hadmits, fun u hu hd => hbetters.of_held
    (hz.step hq.wired hy').arriveBy_eq (hq.weighed_last (hheld u hu)).nonneg hd⟩

end Query.Proper

/-- A path popped while everything is kept weighs no more than an answer. -/
theorem Query.Proper.atMost_of_pop (hq : q.Proper c) (h : q.AnsweredBy c limits l last)
    (hw : last.weight = .finite w) (hshown : q.Shown c l)
    (hwaits : q.CheapWaits c l) {done : List (Trail Exact)}
    {g : Progress Exact} (hkept : (q.plan c limits).Kept q.begin done g)
    (hheld : g.Holds done (Trail.start q.begin)) {x : Candidate Exact}
    {rest : Queue (Candidate Exact)} (hpop : g.queue.pop? Candidate.before = some (x, rest))
    (hgoal : (q.plan c limits).isGoal x.trail.last = true) :
    Weight.atMost x.trail.last.weight (.finite w) = true := by
  have hx : x ∈ g.queue.toList := (Queue.mem_toList_pop _ hpop).mpr (.inl rfl)
  have hchain := hq.mirrors_betters h hw hshown hwaits hkept.journey
  cases l with
  | nil => cases h.journey.head_eq
  | cons s others =>
    have hs : s = q.begin := Option.some.inj h.journey.head_eq
    have hstart : (Trail.start q.begin).last.Betters c.arriveBy s := by
      rw [hs]
      exact ⟨.refl _, 0, 0, Exact.zero_eq, Exact.zero_eq, le_refl 0⟩
    rcases hkept.frontier h.last_eq hchain ⟨_, hheld, hstart⟩ with
      ⟨x', hx', y, hy, hbetters⟩ | ⟨t, ht, hbetters⟩
    · -- the queue holds a state of the answer, and nothing before the path popped
      have hbefore : Candidate.before x x' = true := by
        rcases (Queue.mem_toList_pop _ hpop).mp hx' with rfl | hrest
        · exact (preorder_before.total x' x').elim id id
        · exact (hkept.ordered.pop preorder_before hpop).1 x' hrest
      obtain ⟨q', v, hq', hv, hle⟩ := hbetters.weight_le
      obtain ⟨v', a, hv', ha, hsum⟩ := (hq.ahead h hw y hy).heuristic (p := q.plan c limits) rfl
      obtain rfl : v = v' := Exact.finite.inj (hv.symm.trans hv')
      have hheuristic : (q.plan c limits).heuristic x'.trail.last = .finite a := by
        rw [← ha]
        unfold Plan.heuristic
        rw [hbetters.covers.isOnBoard_eq, hbetters.covers.vertex_eq]
      have hpriority := hkept.priority_eq x hx
      have hpriority' := hkept.priority_eq x' hx'
      rw [hq.guided.heuristic_of_isGoal hgoal] at hpriority
      rw [hq', hheuristic, Exact.finite_add_finite] at hpriority'
      exact Candidate.le_of_before hbefore hpriority
        (hq.weighed_last (hkept.journey _ (.inr ⟨x, hx, rfl⟩))).nonneg hpriority' (by linarith)
    · exact absurd (h.isGoal hbetters.covers)
        (by rw [hkept.not_goal t ht]; exact Bool.false_ne_true)

/-- The first path that a search finds weighs no more than any answer whose steps labels show and
whose waits are cheap. Local time is less than a day from UTC. -/
theorem NetworkDescription.first_path_is_least {description : NetworkDescription}
    {zones : ZoneDatabase} {n : Network} (hb : description.build zones = .ok n)
    (hz : n.calendar.zone.Lawful)
    (hc : Context.make .unbounded n q.request q.time = .ok c) (hr : q.request.Regular)
    (hd : n.DistancesNonneg) (hstart : n.IsGround q.start) (hgoal : n.IsGround q.goal)
    (h : q.AnsweredBy c limits l last) (hshown : q.Shown c l)
    (hwaits : q.CheapWaits c l) {r : SearchResult Exact}
    (hs : search .unbounded n q limits = .ok r) {t : Trail Exact} (ht : r.paths.head? = some t) :
    Weight.atMost t.last.weight last.weight = true := by
  have hq := Query.proper_of_build hb hz hc hr hd hstart hgoal
  obtain ⟨-, c', hc', -, -, rfl⟩ := search_eq_ok.mp hs
  obtain rfl : c' = c := Except.ok.inj (hc'.symm.trans hc)
  have hlast : last ∈ l := List.mem_of_getLast? h.last_eq
  have hfirst : (q.run c' limits : Progress Exact).paths.getLast? = some t := by
    change (q.run c' limits : Progress Exact).paths.reverse.head? = some t at ht
    rwa [List.head?_reverse] at ht
  obtain ⟨hkept, hheld⟩ := q.kept_begin c' limits
  rcases Plan.explore_spec preorder_before limits.maxStates hkept hheld rfl with
    ⟨_, -, -, hnone, -⟩ | ⟨done, g, x, rest, hkept, hheld, hpop, hgoal', hfound⟩
  · have hnone' : (q.run c' limits : Progress Exact).paths = [] := hnone
    rw [hnone'] at hfirst
    cases hfirst
  · have hfound' : (q.run c' limits : Progress Exact).paths.getLast? = some x.trail := hfound
    obtain rfl : x.trail = t := Option.some.inj (hfound'.symm.trans hfirst)
    rcases (hq.weighed h.journey last hlast).nonneg with ⟨w, -, hw⟩ | hw
    · rw [hw]
      exact hq.atMost_of_pop h hw hshown hwaits hkept hheld hpop hgoal'
    · rw [hw]
      have hx : x ∈ g.queue.toList := (Queue.mem_toList_pop _ hpop).mpr (.inl rfl)
      exact (hq.weighed_last (hkept.journey _ (.inr ⟨x, hx, rfl⟩))).nonneg.atMost_infinite

theorem shuttle_first_path_least : ∃ (t : Trial shuttle shuttleQuery {}) (path : Trail Exact),
    t.Fair ∧ shuttleQuery.Shown t.context t.states ∧
      shuttleQuery.CheapWaits t.context t.states ∧ t.result.paths.head? = some path ∧
        Weight.atMost path.last.weight t.last.weight = true := by
  obtain ⟨t, hf, hshown, path, hpath⟩ := shuttle_answer
  have hq := Query.proper_of_build t.build_eq t.lawful t.make_eq hf.regular hf.distances
    hf.start_ground hf.goal_ground
  have hwaits := hq.cheapWaits t.journey (by decide +kernel) (.inr (by decide +kernel))
  exact ⟨t, path, hf, hshown, hwaits, hpath,
    NetworkDescription.first_path_is_least t.build_eq t.lawful t.make_eq hf.regular hf.distances
      hf.start_ground hf.goal_ground hf.answered hshown hwaits t.search_eq hpath⟩

/-! ## An answer that is beaten -/

/-- A line that one may board at either end of a lane, and another that it meets. -/
def twoEnds : NetworkDescription where
  timezone := "UTC"
  calendars := [⟨1, "20240101", "20241231", CalendarRule.everyDay, [], []⟩]
  stops := [.alone stopA, .alone stopB, .alone stopC, .alone stopD]
  streetVertices := []
  streets := [⟨"A", "B", "lane", some 66.5, [.walk], true⟩]
  patterns := [
    .bus tripEast [(stopA, "00:00:00"), (stopB, "00:00:40"),
      (stopC, "00:10:40")] ⟨"08:00:00", "10:00:00", 600, true⟩,
    .bus tripNorth [(stopC, "00:00:00"), (stopD, "00:10:00")]
      ⟨"08:21:00", "08:21:01", 600, true⟩]
  transfers := []
  timedTransfers := []

/-- Who takes the first vehicle comes to the second line lighter, and waits longer there than who
takes the next. -/
theorem twoEnds_lighter_lost :
    ∃ (t : Trial twoEnds ⟨0, 3, shuttleTime, {}⟩ {}) (path : Trail Exact), t.Fair ∧
      t.result.paths.head? = some path ∧
      Weight.less t.last.weight path.last.weight = true := by
  have h : ((Trial.run? twoEnds ⟨0, 3, shuttleTime, {}⟩ {} [0, 1, 0, 0, 0, 0, 0]).any fun t =>
      t.isFair && t.result.paths.head?.any fun path =>
        Weight.less t.last.weight path.last.weight) = true := by
    decide +kernel
  obtain ⟨t, -, h⟩ := (Option.any_eq_true _ _).mp h
  rw [Bool.and_eq_true] at h
  obtain ⟨path, hpath, hless⟩ := (Option.any_eq_true _ _).mp h.2
  exact ⟨t, path, t.fair h.1, hpath, hless⟩

end JourneyPlanner
