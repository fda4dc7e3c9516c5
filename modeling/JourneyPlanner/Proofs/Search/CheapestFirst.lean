import JourneyPlanner.Proofs.Search.Completeness

/-!
# Cheapest paths first

The bound at a state off board is no more than any way from it to the target adds
(`NetworkDescription.bound_le_rest`). On board the search adds nothing, so the priorities that it
pops may fall. Its paths come in the order of their weights all the same: whatever is still queued
when a path is found leads to no lighter one (`Plan.InOrder.due`).
-/

namespace JourneyPlanner

variable {c : Context} {e : Edge} {s y : State Exact} {w : ℚ}

/-! ## Finite weights -/

/-- Whether the seconds that an edge takes as a street fit in a word of 64 bits. -/
def Edge.fits (c : Context) (e : Edge) : Bool :=
  match e.link with
  | .street street =>
    !Weight.less (Weight.ofInt Int64.maxValue.toInt)
      (street.seconds c c.request.initialMode : Exact)
  | _ => true

/-- Whether the seconds that each street takes fit in a word of 64 bits. -/
def Context.StreetsFit (c : Context) : Prop := ∀ e ∈ c.network.edges, e.fits c = true

theorem Street.charge_finite {street : Street} (hr : c.request.Regular) (hfit : e.fits c = true)
    (hl : e.link = .street street)
    (hcharge : Weight.IsCharge (c.request.streetWeight
      (street.seconds c c.request.initialMode : Exact) c.request.initialMode)) :
    ∃ q, 0 ≤ q ∧ c.request.streetWeight (street.seconds c c.request.initialMode)
      c.request.initialMode = Exact.finite q := by
  rcases Exact.isCharge_iff.mp hcharge with ⟨q, hq0, hq⟩ | hinf
  · exact ⟨q, hq0, hq⟩
  · unfold Edge.fits at hfit
    rw [hl] at hfit
    simp only [Street.seconds_eq_infinite hr hinf, Exact.ofInt_eq, Exact.less_infinite,
      Bool.not_true, Bool.false_eq_true] at hfit

theorem Context.Takes.weight_finite (hr : c.request.Regular) (hfit : c.StreetsFit)
    (hmode : s.streetMode = c.request.initialMode) (he : e ∈ c.network.edges)
    (h : c.Takes e s y) (hw : s.weight = .finite w) : ∃ q, y.weight = .finite q := by
  cases h with
  | @find g stop meeting wait day penalty _ _ hfinds =>
    obtain ⟨t, -, rfl⟩ := penalty_of_checkTransfer hr hfinds.transfer_eq
    show ∃ q, s.weight + g.fare s c wait (.finite t) = .finite q
    rw [hw, Gate.fare_eq hr]
    exact ⟨_, rfl⟩
  | leave | change => exact ⟨w, hw⟩
  | @stay p seconds _ _ _ _ =>
    show ∃ q, s.weight + Exact.finite seconds = .finite q
    rw [hw]
    exact ⟨_, rfl⟩
  | @walk street hl _ _ hcharge =>
    show ∃ q, s.weight + c.request.streetWeight (street.seconds c s.streetMode) s.streetMode = _
    rw [hmode] at hcharge ⊢
    obtain ⟨q, -, hq⟩ := Street.charge_finite hr (hfit e he) hl hcharge
    rw [hw, hq]
    exact ⟨_, rfl⟩

theorem Context.Journey.weight_finite {v : VertexId} {time : Int} {l : List (State Exact)}
    (hn : c.network.Wired) (hr : c.request.Regular) (hfit : c.StreetsFit)
    (hv : c.network.IsGround v) (hj : c.Journey (State.origin v time c.request) l) :
    ∀ s ∈ l, ∃ q, s.weight = .finite q := by
  have hstanding := hj.standing hn hv
  refine hj.forall_of_step ⟨0, Exact.zero_eq⟩ fun s hs y _ hsy ⟨w, hw⟩ => ?_
  obtain ⟨e, he, -, ht⟩ := hn.step_iff.mp hsy
  exact ht.weight_finite hr hfit (hstanding s hs).mode_eq he hw

/-! ## Bounds and ways to the target -/

/-- The bound at a state off board is no more than what any way from it to a state off board adds,
when it is the bound for the vertex where the way ends. -/
theorem NetworkDescription.bound_le_rest {description : NetworkDescription}
    {zones : ZoneDatabase} {n : Network} (hb : description.build zones = .ok n)
    {conditions : Std.TreeMap EdgeId (List Exposure)}
    (hnet : c.network = { n with conditions := conditions }) (hr : c.request.Regular)
    (hd : n.DistancesNonneg) (hfit : c.StreetsFit) {v : VertexId} (hv : n.IsGround v) {time : Int}
    {l : List (State Exact)} (hj : c.Journey (State.origin v time c.request) l) {g : State Exact}
    (hs : s ∈ l) (hoff : s.isOnBoard = false) (hlast : l.getLast? = some g)
    (hend : g.isOnBoard = false) :
    ∃ bounds b, lowerBounds c g.vertex = .ok bounds ∧ bounds[s.vertex]? = some b ∧
      Weight.atMost b (g.weight - s.weight) = true := by
  have hn : c.network.Wired := hnet ▸ (wired_of_build hb).withConditions conditions
  have htimely : n.Timely := timely_of_build hb
  have hfits : c.StaysFit := Network.Timely.staysFit (hnet ▸ htimely) hn
  have hd : c.network.DistancesNonneg := hnet ▸ hd
  have hv : c.network.IsGround v := hnet ▸ hv
  have hg : g ∈ l := List.mem_of_getLast? hlast
  have htarget : c.network.IsGround g.vertex :=
    ((hj.standing hn hv g hg).onFoot (State.isOnBoard_eq_false.mp hend)).ground
  have hbounds := Context.lowerBounds_spec hn hfits (Context.boundsNonneg hn hr hd) htarget.lt_size
  obtain ⟨w, hw⟩ := hj.weight_finite hn hr hfit hv g hg
  obtain ⟨q, h, hq, hh, -, hle⟩ := hj.ahead hn hr hd hbounds hv hlast rfl hw s hs
  unfold Context.credit at hle
  rw [hoff, if_neg Bool.false_ne_true, add_zero] at hle
  refine ⟨c.boundsTo g.vertex, .finite h, Context.lowerBounds_of_fit hfits, ?_, ?_⟩
  · cases hv' : (c.boundsTo g.vertex : Array Exact)[s.vertex]? with
    | none => rw [hv'] at hh; cases hh
    | some b => rw [hv', Option.getD_some] at hh; rw [hh]
  · rw [hw, hq, Exact.finite_sub_finite, Exact.atMost_finite]
    linarith

/-- On the way over both lines, where one changes. -/
theorem shuttle_bound_le_rest : ∃ (t : Trial shuttle shuttleQuery {}) (s : State Exact), t.Fair ∧
    t.context.StreetsFit ∧ s ∈ t.states ∧ s.isOnBoard = false ∧ s.everBoarded = true ∧
      ∃ bounds b, lowerBounds t.context t.last.vertex = .ok bounds ∧
        bounds[s.vertex]? = some b ∧ Weight.atMost b (t.last.weight - s.weight) = true := by
  have h : (shuttleTrial?.any fun t =>
      t.isFair && t.context.network.edges.all (Edge.fits t.context) &&
        t.states.any fun s =>
          !s.isOnBoard && s.everBoarded && s.vertex != t.last.vertex) = true := by
    decide +kernel
  obtain ⟨t, -, h⟩ := (Option.any_eq_true _ _).mp h
  simp only [Bool.and_eq_true] at h
  obtain ⟨⟨hfair, hfit⟩, hstop⟩ := h
  obtain ⟨s, hs, hstop⟩ := List.any_eq_true.mp hstop
  simp only [Bool.and_eq_true, Bool.not_eq_true'] at hstop
  have hf := t.fair hfair
  have hfit : t.context.StreetsFit := Array.all_eq_true_iff_forall_mem.mp hfit
  have hq := Query.guided_of_build t.build_eq t.make_eq hf.regular hf.distances hf.start_ground
    hf.goal_ground
  exact ⟨t, s, hf, hfit, hs, hstop.1.1, hstop.1.2,
    NetworkDescription.bound_le_rest t.build_eq t.network_eq hq.regular hf.distances hfit
      hf.start_ground (hq.begin_eq ▸ t.journey) hs hstop.1.1 t.last_eq hf.answered.off_board⟩

/-! ## The order of paths -/

variable {p : Plan Exact} {origin : State Exact} {g g' : Progress Exact} {t : Trail Exact}

/-- Whether a plan adds to the weights of journeys no more than they still get. -/
structure Plan.Admissible (p : Plan Exact) (origin : State Exact) : Prop where
  nonneg : ∀ l, p.context.Journey origin l → ∀ s ∈ l, s.weight.Nonneg
  goal_eq : ∀ s, p.isGoal s = true → p.heuristic s = .finite 0
  ahead : ∀ l last w, p.context.Journey origin l → l.getLast? = some last →
    p.isGoal last = true → last.weight = .finite w →
      ∀ s ∈ l, ∃ q a, s.weight = .finite q ∧ p.heuristic s = .finite a ∧ q + a ≤ w

/-- Whether no journey that goes on from a trail and ends a path weighs less. -/
def Plan.AtLeast (p : Plan Exact) (origin : State Exact) (t : Trail Exact) (w : Exact) : Prop :=
  ∀ l last, p.context.Journey origin l → t.states <+: l → l.getLast? = some last →
    p.isGoal last = true → Weight.atMost w last.weight = true

/-- What holds of the paths of a search at every moment: they are in order, the latest first, and
what is queued leads to none that is lighter. -/
structure Plan.InOrder (p : Plan Exact) (origin : State Exact) (g : Progress Exact) : Prop where
  journey : ∀ x ∈ g.queue.toList, p.context.Journey origin x.trail.states
  priority_eq : ∀ x ∈ g.queue.toList, x.priority = x.trail.last.weight + p.heuristic x.trail.last
  ordered : g.queue.Ordered Candidate.before
  sorted : g.paths.Pairwise fun t u => Weight.atMost u.last.weight t.last.weight = true
  due : ∀ t ∈ g.paths, ∀ x ∈ g.queue.toList, p.AtLeast origin x.trail t.last.weight

theorem Plan.AtLeast.extend {w : Exact} (h : p.AtLeast origin t w) :
    p.AtLeast origin (t.extend s) w := by
  intro l last hj hstates hlast hgoal
  rw [Trail.states_extend] at hstates
  exact h l last hj ((List.prefix_append _ _).trans hstates) hlast hgoal

/-- Whatever is popped before a trail weighs no more than any path to which the trail leads, when
nothing is ahead of it. -/
theorem Plan.Admissible.atLeast (hp : p.Admissible origin) {x y : Candidate Exact}
    (hbefore : Candidate.before x y = true) (hx : x.priority = x.trail.last.weight + .finite 0)
    (hnonneg : x.trail.last.weight.Nonneg)
    (hy : y.priority = y.trail.last.weight + p.heuristic y.trail.last) :
    p.AtLeast origin y.trail x.trail.last.weight := by
  intro l last hj hstates hlast hgoal
  rcases hp.nonneg l hj last (List.mem_of_getLast? hlast) with ⟨w, -, hw⟩ | hinf
  · obtain ⟨q, a, hq, ha, hle⟩ := hp.ahead l last w hj hlast hgoal hw y.trail.last
      (hstates.subset Trail.last_mem_states)
    rw [hq, ha, Exact.finite_add_finite] at hy
    rw [hw]
    exact Candidate.le_of_before hbefore hx hnonneg hy hle
  · -- a path of infinite weight has no bound behind it, and needs none
    rw [hinf]
    exact hnonneg.atMost_infinite

section

variable {x : Candidate Exact} {rest : Queue (Candidate Exact)}

/-- What is popped at the target ends a path that is no lighter than those before it, and no
heavier than those that are still to come. -/
theorem Plan.InOrder.found (hp : p.Admissible origin) (h : p.InOrder origin g)
    (hpop : g.queue.pop? Candidate.before = some (x, rest))
    (hgoal : p.isGoal x.trail.last = true) (explored : Nat) :
    p.InOrder origin
      { g with queue := rest, explored := explored, paths := x.trail :: g.paths } := by
  have hx : x ∈ g.queue.toList := (Queue.mem_toList_pop _ hpop).mpr (.inl rfl)
  have hrest : ∀ y ∈ rest.toList, y ∈ g.queue.toList := fun y hy =>
    (Queue.mem_toList_pop _ hpop).mpr (.inr hy)
  obtain ⟨hbefore, hordered⟩ := h.ordered.pop preorder_before hpop
  have hpriority := h.priority_eq x hx
  rw [hp.goal_eq _ hgoal] at hpriority
  refine ⟨fun y hy => h.journey y (hrest y hy), fun y hy => h.priority_eq y (hrest y hy), hordered,
    List.pairwise_cons.mpr ⟨fun t ht => ?_, h.sorted⟩, fun t ht y hy => ?_⟩
  · exact h.due t ht x hx _ _ (h.journey x hx) (List.prefix_refl _) Trail.getLast?_states hgoal
  · rcases List.mem_cons.mp ht with rfl | ht
    · exact hp.atLeast (hbefore y hy) hpriority
        (hp.nonneg _ (h.journey x hx) _ Trail.last_mem_states) (h.priority_eq y (hrest y hy))
    · exact h.due t ht y (hrest y hy)

/-- What is queued behind an expanded trail leads to no lighter path than the trail. -/
theorem Plan.InOrder.expand (h : p.InOrder origin g)
    (hpop : g.queue.pop? Candidate.before = some (x, rest)) (explored : Nat) :
    p.InOrder origin (p.expand x.trail { g with queue := rest, explored := explored }) := by
  have hx : x ∈ g.queue.toList := (Queue.mem_toList_pop _ hpop).mpr (.inl rfl)
  have hrest : ∀ y ∈ rest.toList, y ∈ g.queue.toList := fun y hy =>
    (Queue.mem_toList_pop _ hpop).mpr (.inr hy)
  obtain ⟨-, hordered⟩ := h.ordered.pop preorder_before hpop
  obtain ⟨hgrows, -⟩ : p.Grows [] x.trail { g with queue := rest, explored := explored }
      (p.expand x.trail { g with queue := rest, explored := explored }) ∧ _ :=
    Plan.grows_foldl preorder_before fun e he => he
  have hpaths : (p.expand x.trail { g with queue := rest, explored := explored }).paths = g.paths :=
    hgrows.paths_eq
  refine ⟨fun y hy => ?_, fun y hy => ?_, hgrows.ordered hordered, by rw [hpaths]; exact h.sorted,
    fun t ht y hy => ?_⟩
  · rcases hgrows.queued y hy with hy | ⟨-, s, hs, hext⟩
    · exact h.journey y (hrest y hy)
    · rw [hext]
      exact (h.journey x hx).extend hs
  · rcases hgrows.queued y hy with hy | ⟨hpriority, -⟩
    · exact h.priority_eq y (hrest y hy)
    · exact hpriority
  · rw [hpaths] at ht
    rcases hgrows.queued y hy with hy | ⟨-, s, -, hext⟩
    · exact h.due t ht y (hrest y hy)
    · -- paths through the child are paths through the expanded trail, whatever their priorities
      rw [hext]
      exact (h.due t ht x hx).extend

end

/-- Exploring keeps the paths in order. -/
theorem Plan.InOrder.explore (hp : p.Admissible origin) :
    ∀ {budget : Nat} {g : Progress Exact}, p.InOrder origin g →
      p.InOrder origin (p.explore budget g)
  | 0, _, h => h
  | budget + 1, g, h => by
    unfold Plan.explore
    cases hpop : g.queue.pop? Candidate.before with
    | none => exact h
    | some r =>
      obtain ⟨x, rest⟩ := r
      simp only
      by_cases hgoal : p.isGoal x.trail.last = true
      · rw [if_pos hgoal]
        split_ifs
        · exact h.found hp hpop hgoal _
        · exact (h.found hp hpop hgoal _).explore hp
      · rw [if_neg hgoal]
        exact (h.expand hpop _).explore hp

theorem Plan.inOrder_begin (hzero : origin.weight + p.heuristic origin = p.heuristic origin) :
    p.InOrder origin (p.begin origin) := by
  have hkept := (Plan.kept_begin hzero).1
  refine ⟨fun x hx => hkept.journey _ (.inr ⟨x, hx, rfl⟩), hkept.priority_eq, hkept.ordered,
    List.Pairwise.nil, fun t ht => absurd ht List.not_mem_nil⟩

variable {q : Query} {limits : SearchLimits} {k : Integers}

theorem Query.Guided.admissible (hq : q.Guided c) : (q.plan c limits).Admissible q.begin where
  nonneg := fun _ hj => hj.weights_nonneg
  goal_eq := fun _ hs => hq.heuristic_of_isGoal hs
  ahead := fun _ _ _ hj hlast hgoal hw s hs =>
    (hq.ahead hj hlast (Plan.isGoal_iff.mp hgoal).1 hw s hs).heuristic rfl

/-- The paths that a search gives come in the order of their weights, however far it may go. -/
theorem NetworkDescription.paths_cheapest_first {description : NetworkDescription}
    {zones : ZoneDatabase} {n : Network} (hb : description.build zones = .ok n)
    (conditions : Std.TreeMap EdgeId (List Exposure))
    (hr : q.request.Regular) (hd : n.DistancesNonneg) (hstart : n.IsGround q.start)
    (hgoal : n.IsGround q.goal) {r : SearchResult Exact}
    (hs : search k { n with conditions := conditions } q limits = .ok r) :
    (r.paths.map (·.last.weight)).Pairwise fun a b => Weight.atMost a b = true := by
  obtain ⟨-, c, hc, -, -, rfl⟩ := search_eq_ok.mp hs
  have hq := Query.guided_of_build hb hc hr hd hstart hgoal
  have hbegin : (q.plan c limits).InOrder q.begin ((q.plan c limits).begin q.begin) :=
    Plan.inOrder_begin (Exact.zero_add _)
  have horder : (q.plan c limits).InOrder q.begin (q.run c limits) :=
    hbegin.explore hq.admissible
  rw [List.pairwise_map]
  exact List.pairwise_reverse.mpr horder.sorted

/-- A line beside a lane. -/
def laneAndLine : NetworkDescription where
  timezone := "UTC"
  calendars := [⟨1, "20240101", "20241231", CalendarRule.everyDay, [], []⟩]
  stops := [.alone stopA, .alone stopB]
  streetVertices := []
  streets := [⟨"A", "B", "lane", some 1330.0, [.walk], true⟩]
  patterns := [
    .bus tripEast [(stopA, "00:00:00"), (stopB, "00:05:00")] ⟨"06:00:00", "10:00:00", 600, true⟩]
  transfers := []
  timedTransfers := []

/-- The ride comes first, and then the walk. -/
theorem laneAndLine_cheapest_first : ∃ t : Trial laneAndLine ⟨0, 1, shuttleTime, {}⟩ {}, t.Fair ∧
    t.result.paths.length = 2 ∧
      (t.result.paths.map (·.last.weight)).Pairwise fun a b => Weight.atMost a b = true := by
  have h : ((Trial.run? laneAndLine ⟨0, 1, shuttleTime, {}⟩ {} [1, 0, 0]).any fun t =>
      t.isFair && t.result.paths.length == 2) = true := by
    decide +kernel
  obtain ⟨t, -, h⟩ := (Option.any_eq_true _ _).mp h
  rw [Bool.and_eq_true, beq_iff_eq] at h
  have hf := t.fair h.1
  exact ⟨t, hf, h.2, NetworkDescription.paths_cheapest_first t.build_eq _ hf.regular hf.distances
    hf.start_ground hf.goal_ground t.search_eq⟩

end JourneyPlanner
