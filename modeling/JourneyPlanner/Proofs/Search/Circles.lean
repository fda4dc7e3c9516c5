import Mathlib.Data.Set.Card
import Mathlib.Data.Set.Finite.Lattice
import JourneyPlanner.Proofs.Journey.Bookkeeping
import JourneyPlanner.Proofs.Search.Chronicle

/-!
# No search goes round in circles

There is no set of visited vertices. That no way is prolonged for ever rests on dominance alone:
what comes back to a place is there no sooner, after no fewer boardings, with no more slack and at
no less weight, so that the state met there before dominates it
(`Context.Journey.dominates_of_place_eq`), even where a circle takes no time and costs nothing. The
places of a network are finitely many, so are the ways that pass each at most once, and a search
that may explore more states than there are such ways ends by itself
(`NetworkDescription.search_never_circles`).
-/

namespace JourneyPlanner

/-! ## Places -/

/-- What the place of a state can say besides its vertex: nothing, the trip being ridden, or the
trip and the stop that were left. -/
def Network.situations (n : Network) : List (Option TripId × Option (TripId × StopId)) :=
  (none, none) :: n.patterns.toList.flatMap fun p =>
    (some p.trip.id, none) :: p.stops.map fun st => (none, some (p.trip.id, st.stop))

/-- The places of a network. -/
def Network.places (n : Network) : List Place :=
  ((List.range n.vertices.size).flatMap fun v => n.situations.map fun a => ⟨v, a.1, a.2⟩).dedup

section

variable {n : Network} {k : Nat} {p : FrequencyPattern}

theorem Network.mem_places {place : Place} : place ∈ n.places ↔
    place.vertex < n.vertices.size ∧ (place.riding, place.left) ∈ n.situations := by
  unfold places
  simp only [List.mem_dedup, List.mem_flatMap, List.mem_range, List.mem_map]
  constructor
  · rintro ⟨v, hv, a, ha, rfl⟩
    exact ⟨hv, ha⟩
  · exact fun ⟨hv, ha⟩ => ⟨_, hv, _, ha, rfl⟩

theorem Network.situation_riding (hp : n.patternAt? k = some p) :
    (some p.trip.id, none) ∈ n.situations :=
  List.mem_cons_of_mem _ (List.mem_flatMap.mpr
    ⟨p, Array.mem_toList_iff.mpr (Array.mem_of_getElem? hp), List.mem_cons_self⟩)

theorem Network.situation_left {st : PatternStop} (hp : n.patternAt? k = some p)
    (hst : st ∈ p.stops) : (none, some (p.trip.id, st.stop)) ∈ n.situations :=
  List.mem_cons_of_mem _ (List.mem_flatMap.mpr
    ⟨p, Array.mem_toList_iff.mpr (Array.mem_of_getElem? hp),
      List.mem_cons_of_mem _ (List.mem_map_of_mem hst)⟩)

end

section

variable {W : Type} [Weight W] {c : Context} {s s' x y : State W} {time : Int}

/-- Whether what the place of a state says besides its vertex is one of finitely many things. -/
def Context.Situated (c : Context) (s : State W) : Prop :=
  (s.place.riding, s.place.left) ∈ c.network.situations

omit [Weight W] in
theorem Context.Situated.keep (h : c.Situated s) (hs : s'.SameRides s) : c.Situated s' := by
  have hriding : s'.place.riding = s.place.riding := congrArg (·.map (·.id)) hs.trip_eq
  have hleft : s'.place.left = s.place.left := by
    unfold State.place State.isOnBoard
    rw [hs.trip_eq, hs.previous_eq, hs.stop_eq]
  unfold Situated
  rw [hriding, hleft]
  exact h

theorem Context.Situated.step (hn : c.network.Wired) (hr : c.Reached time s)
    (h : c.Situated s) (hs : c.Step s s') : c.Situated s' := by
  obtain ⟨e, he, hsrc, ht⟩ := hn.step_iff.mp hs
  rcases hr.placed with hfoot | ⟨k, p, day, start, hrun⟩
  · rcases ht.onFoot hn hfoot he hsrc with
      ⟨g, k, stop, meeting, wait, day, penalty, hfinds, rfl⟩ | ⟨-, rfl | ⟨_, _, _, -, rfl⟩⟩
    · exact c.network.situation_riding hfinds.pattern_eq
    · exact h.keep e.sameRides_changed
    · exact h.keep e.sameRides_moved
  · rcases ht.aboard hn hrun.aboard he hsrc with
      ⟨κ, κ', t, t', seconds, hstays, rfl⟩ | ⟨g, stop, hleaves, rfl⟩
    · exact h.keep e.sameRides_moved
    · obtain ⟨st, hst, rfl⟩ := Option.map_eq_some_iff.mp hleaves.stop_eq
      have hp := Option.some.inj (hrun.pattern_eq.symm.trans hleaves.pattern_eq)
      have hplace : (g.left e s c st.stop).place.left = some (g.pattern.trip.id, st.stop) :=
        State.place_left_eq_some rfl (hp ▸ hrun.previous_eq) rfl
      unfold Situated
      rw [hplace]
      exact c.network.situation_left hleaves.pattern_eq (List.mem_of_getElem? hst)

omit [Weight W] in
theorem Context.Reached.vertex_lt (h : c.Reached time s) : s.vertex < c.network.vertices.size := by
  rcases h.placed with hfoot | ⟨k, p, day, start, hrun⟩
  · exact hfoot.ground.lt_size
  · obtain ⟨κ, t, hκ, -⟩ := hrun.on_time
    obtain ⟨v, hv, -⟩ := Option.map_eq_some_iff.mp hκ
    exact (Array.getElem?_eq_some_iff.mp hv).1

theorem Context.Journey.mem_places {v : VertexId} {l : List (State W)} (hn : c.network.Wired)
    (hv : c.network.IsGround v)
    (h : c.Journey (State.origin v time c.request) l) : ∀ s ∈ l, s.place ∈ c.network.places := by
  have hreached := h.reached hn hv
  have hsituated : ∀ s ∈ l, c.Situated s :=
    h.forall_of_step List.mem_cons_self fun s hs y _ hsy hsituated =>
      hsituated.step hn (hreached s hs) hsy
  exact fun s hs => Network.mem_places.mpr ⟨(hreached s hs).vertex_lt, hsituated s hs⟩

/-! ## Coming back to a place -/

omit [Weight W] in
theorem Context.Ledger.isSome_left (h : c.Ledger s) (hoff : s.isOnBoard = false) :
    s.place.left.isSome = true ↔ s.everBoarded = true := by
  have htrip := State.isOnBoard_eq_false.mp hoff
  rw [State.place_left htrip]
  cases h with
  | unused hnever _ _ hprevious => simp [hnever, hprevious]
  | used hever _ _ hprevious hleft =>
    obtain ⟨stop, _, hstop, -⟩ := hleft htrip
    simp [hever, hprevious, hstop]

omit [Weight W] in
/-- What comes back to a place is covered by the state met there before. -/
theorem Context.Precedes.covers (h : c.Precedes x y) (hx : c.Reached time x)
    (hy : c.Reached time y) (hplace : x.place = y.place) : x.Covers c.arriveBy y := by
  refine ⟨hplace, h.sooner, h.boardings_le, ?_⟩
  have hsame := State.isOnBoard_of_place_eq hplace
  cases hboard : x.isOnBoard with
  | true =>
    rw [State.label_alighted_of_onBoard hboard,
      State.label_alighted_of_onBoard (hsame.symm.trans hboard)]
    exact .none
  | false =>
    have hboard' : y.isOnBoard = false := hsame.symm.trans hboard
    -- either both have left a vehicle or neither has, since the place says what was left
    have hleft : x.lastAlighted.isSome = true ↔ y.lastAlighted.isSome = true := by
      rw [(hx.ledger.left_iff hboard).2, (hy.ledger.left_iff hboard').2,
        ← hx.ledger.isSome_left hboard, ← hy.ledger.isSome_left hboard', hplace]
    rw [State.label_alighted (State.isOnBoard_eq_false.mp hboard),
      State.label_alighted (State.isOnBoard_eq_false.mp hboard')]
    cases halighted : x.lastAlighted with
    | none =>
      rw [halighted] at hleft
      rw [Option.not_isSome_iff_eq_none.mp fun hsome => Bool.false_ne_true (hleft.mpr hsome)]
      exact .none
    | some a =>
      obtain ⟨b, hb, hab⟩ := h.alighted a halighted
      rw [hb]
      exact .some hab

theorem Context.Journey.dominates_of_place_eq {v : VertexId} {l : List (State Exact)}
    (hn : c.network.Wired) (hv : c.network.IsGround v)
    (h : c.Journey (State.origin v time c.request) l) :
    l.Pairwise fun x y => x.place = y.place → x.label.dominates c.arriveBy y.label = true := by
  have hreached := h.reached hn hv
  have hnonneg := h.weights_nonneg
  have hweights : l.Pairwise fun x y => Weight.atMost x.weight y.weight = true :=
    h.pairwise_of_step Weight.Ordered.atMost_trans fun s hs _ _ ⟨_, _, ht⟩ =>
      (Edge.traverse_eq_ok.mp ht).weight_le (hnonneg s hs)
  refine List.Pairwise.imp_of_mem (fun hx hy ⟨hprecedes, hweight⟩ hplace => ?_)
    ((h.precedes hn hv).and hweights)
  exact State.dominates_iff.mpr
    ⟨hprecedes.covers (hreached _ hx) (hreached _ hy) hplace, hweight⟩

end

/-! ## The chains of a search -/

section

variable {W : Type} [Weight W] {p : Plan W} {g : Progress W} {origin : State W}
  {done : List (Candidate W)}

/-- What holds of the candidates with no state behind them and passes from each to those behind it
holds of all that a search has queued. -/
theorem Plan.Chronicle.induction (h : p.Chronicle origin done g) {P : Candidate W → Prop}
    (hroot : ∀ x ∈ g.known done, x.trail.earlier = [] → P x)
    (hstep : ∀ x ∈ g.known done, ∀ y ∈ done, y.number < x.number →
      x.trail = y.trail.extend x.trail.last → P y → P x) : ∀ x ∈ g.known done, P x := by
  have key : ∀ (number : Nat) (x : Candidate W), x ∈ g.known done → x.number = number → P x := by
    intro number
    induction number using Nat.strong_induction_on with
    | _ number ih =>
      rintro x hx rfl
      rcases h.parent x hx with hnil | ⟨y, hy, hlt, hbehind⟩
      · exact hroot x hx hnil
      · exact hstep x hx y hy hlt hbehind
          (ih y.number hlt y (List.mem_append_left _ hy) rfl)
  exact fun x hx => key x.number x hx rfl

theorem Plan.Chronicle.ancestors (h : p.Chronicle origin done g) : ∀ x ∈ g.known done,
    ∀ a ∈ x.trail.earlier, ∃ y ∈ done, y.number < x.number ∧ y.trail.last = a := by
  refine h.induction (fun x _ hnil a ha => ?_) fun x hx y hy hlt hbehind ih a ha => ?_
  · rw [hnil] at ha
    cases ha
  · rw [hbehind] at ha
    rcases List.mem_cons.mp ha with rfl | ha
    · exact ⟨y, hy, hlt, rfl⟩
    · obtain ⟨z, hz, hlt', hlast⟩ := ih a ha
      exact ⟨z, hz, hlt'.trans hlt, hlast⟩

/-- No state behind a candidate dominates a later one. -/
theorem Plan.Chronicle.undominated (h : p.Chronicle origin done g) : ∀ x ∈ g.known done,
    x.trail.states.Pairwise fun a b => a.label.dominates origin.arriveBy b.label = false := by
  refine h.induction (fun x _ hnil => ?_) fun x hx y hy hlt hbehind ih => ?_
  · unfold Trail.states
    rw [hnil]
    exact List.pairwise_singleton _ _
  · have hfresh : ∀ a ∈ x.trail.earlier,
        a.label.dominates origin.arriveBy x.trail.last.label = false := by
      intro a ha
      obtain ⟨z, hz, hlt', rfl⟩ := h.ancestors x hx a ha
      exact h.fresh z (List.mem_append_left _ hz) x hx hlt'
    rw [hbehind] at hfresh
    rw [hbehind, Trail.states_extend]
    refine List.pairwise_append.mpr ⟨ih, List.pairwise_singleton _ _, fun a ha b hb => ?_⟩
    obtain rfl := List.mem_singleton.mp hb
    refine hfresh a (List.mem_cons.mpr ?_)
    rcases List.mem_append.mp ha with ha | ha
    · exact .inr (List.mem_reverse.mp ha)
    · exact .inl (List.mem_singleton.mp ha)

/-! ## How long a search takes -/

/-- The trails that go one step further than a trail. -/
def Context.trailsBehind (c : Context) (t : Trail W) : List (Trail W) :=
  (c.network.edgesFrom t.last.vertex c.arriveBy).filterMap fun e =>
    (e.traverse t.last c).toOption.map t.extend

/-- The trails of the journeys from an origin that are of at most some length. -/
def Context.trailsWithin (c : Context) (origin : State W) (length : Nat) : Set (Trail W) :=
  {t | c.Journey origin t.states ∧ t.states.length ≤ length}

theorem Context.finite_trailsWithin (c : Context) (origin : State W) (length : Nat) :
    (c.trailsWithin origin length).Finite := by
  induction length with
  | zero =>
    refine Set.finite_empty.subset fun t ⟨_, hlength⟩ => ?_
    have := List.ne_nil_of_mem t.last_mem_states
    exact absurd (List.length_eq_zero_iff.mp (Nat.le_zero.mp hlength)) this
  | succ length ih =>
    refine ((Set.finite_singleton (Trail.start origin)).union
      (Set.Finite.biUnion ih fun t _ => (c.trailsBehind t).finite_toSet)).subset ?_
    rintro t ⟨hj, hlength⟩
    rcases hj.trail_cases with rfl | ⟨u, ht, hu, e, he, htaken⟩
    · exact .inl rfl
    · refine .inr (Set.mem_biUnion (x := u) ⟨hu, ?_⟩ (List.mem_filterMap.mpr ⟨e, he, ?_⟩))
      · rw [ht, Trail.states_extend, List.length_append] at hlength
        exact Nat.le_of_succ_le_succ hlength
      · rw [htaken]
        exact congrArg some ht.symm

theorem Plan.explored_expand (t : Trail W) (g : Progress W) :
    (p.expand t g).explored = g.explored := by
  unfold Plan.expand
  refine List.foldlRecOn (motive := fun g' : Progress W => g'.explored = g.explored) _ _ rfl
    fun g' hg' e _ => ?_
  unfold Plan.tryEdge
  split
  · exact hg'
  · exact hg'
  · simp only
    split_ifs
    · exact hg'
    · split <;> exact hg'

/-- Whether a search has nothing left to explore, or all the paths that it looks for. -/
def Plan.Ended (p : Plan W) (g : Progress W) : Prop :=
  g.queue.toList = [] ∨ g.paths ≠ [] ∧ p.limits.maxResults ≤ g.paths.length

theorem Plan.ended_explore : ∀ {budget : Nat} {g : Progress W},
    (p.explore budget g).explored < g.explored + budget → p.Ended (p.explore budget g)
  | 0, g, h => absurd h (lt_irrefl _)
  | budget + 1, g, h => by
    cases hpop : g.queue.pop? Candidate.before with
    | none =>
      rw [Plan.explore_of_empty hpop]
      refine .inl ?_
      cases hq : g.queue with
      | empty => rfl
      | node top left right => rw [hq] at hpop; cases hpop
    | some r =>
      obtain ⟨x, rest⟩ := r
      have hnext : (p.next x rest g).explored = g.explored + 1 := by
        unfold Plan.next
        split_ifs
        · rfl
        · exact Plan.explored_expand _ _
      rw [Plan.explore_succ hpop] at h ⊢
      split_ifs at h ⊢ with hfull
      · unfold Plan.isFull at hfull
        rw [Bool.and_eq_true, decide_eq_true_eq] at hfull
        unfold Plan.next
        rw [if_pos hfull.1]
        exact .inr ⟨List.cons_ne_nil _ _, hfull.2⟩
      · exact ended_explore (by omega)

end

/-- Whether a search queues a trail when it may explore enough states. -/
def Query.Queues {W : Type} [Weight W] (q : Query) (c : Context) (limits : SearchLimits)
    (t : Trail W) : Prop :=
  ∃ budget, ∃ x ∈ ((q.plan c limits).explore budget ((q.plan c limits).begin q.begin)).queue.toList,
    x.trail = t

theorem Query.queues_of_mem_paths {W : Type} [Weight W] [Weight.Ordered W] {q : Query} {c : Context}
    {limits : SearchLimits} {t : Trail W} (h : t ∈ (q.run c limits : Progress W).paths) :
    q.Queues c limits t := by
  obtain ⟨done, hdone, htaken⟩ := (q.plan c limits : Plan W).chronicle q.begin limits.maxStates
  have hpaths : t ∈ (done.filter fun x => (q.plan c limits : Plan W).isGoal x.trail.last).map
      (·.trail) := hdone.paths_eq ▸ h
  obtain ⟨x, hx, rfl⟩ := List.mem_map.mp hpaths
  obtain ⟨budget, -, hqueued⟩ := htaken x (List.mem_of_mem_filter hx)
  exact ⟨budget, x, hqueued, rfl⟩

theorem length_le_ncard {α : Type} {l : List α} {s : Set α} (hl : l.Nodup) (hs : s.Finite)
    (h : ∀ a ∈ l, a ∈ s) : l.length ≤ s.ncard := by
  classical
  calc l.length = l.toFinset.card := (List.toFinset_card_of_nodup hl).symm
    _ = (l.toFinset : Set α).ncard := (Set.ncard_coe_finset _).symm
    _ ≤ s.ncard := Set.ncard_le_ncard (fun a ha => h a (by simpa using ha)) hs

section

variable {p : Plan Exact} {g : Progress Exact} {done : List (Candidate Exact)} {v : VertexId}
  {time : Int} (h : p.Chronicle (State.origin v time p.context.request) done g)

include h

theorem Plan.Chronicle.trails_nodup : (done.map (·.trail)).Nodup := by
  have hnumbered := (List.pairwise_append.mp h.numbered).1
  have hself : ∀ x ∈ done, ∀ y ∈ done, x.trail = y.trail → ¬ x.number < y.number := by
    intro x hx y hy htrail hlt
    have hx := List.mem_append_left g.queue.toList hx
    have hfresh := h.fresh x hx y (List.mem_append_left _ hy) hlt
    unfold Candidate.dominates at hfresh
    rw [← htrail, State.dominates_iff.mpr ⟨State.Covers.refl _,
      ((h.journey x hx).weights_nonneg _ Trail.last_mem_states).atMost_self⟩] at hfresh
    cases hfresh
  refine List.pairwise_map.mpr (hnumbered.imp_of_mem fun {x y} hx hy hne htrail => ?_)
  rcases Nat.lt_or_gt_of_ne hne with hlt | hlt
  · exact hself x hx y hy htrail hlt
  · exact hself y hy x hx htrail.symm hlt

variable (hn : p.context.network.Wired) (hv : p.context.network.IsGround v)

include hn hv

/-- The ways that a search queues pass each place of the network at most once. -/
theorem Plan.Chronicle.places_nodup : ∀ x ∈ g.known done,
    (x.trail.states.map State.place).Nodup ∧
      x.trail.states.length ≤ p.context.network.places.length := by
  intro x hx
  have hj := h.journey x hx
  have hcircles := (hj.dominates_of_place_eq hn hv).and (h.undominated x hx)
  have hnodup : (x.trail.states.map State.place).Nodup := by
    refine List.pairwise_map.mpr (hcircles.imp fun ⟨hdominates, hno⟩ hplace => ?_)
    have hno : Label.dominates p.context.arriveBy _ _ = false := hno
    rw [hdominates hplace] at hno
    cases hno
  refine ⟨hnodup, ?_⟩
  rw [← List.length_map (f := State.place)]
  refine (hnodup.subperm fun place hplace => ?_).length_le
  obtain ⟨s, hs, rfl⟩ := List.mem_map.mp hplace
  exact hj.mem_places hn hv s hs

theorem Plan.Chronicle.explored_le : g.explored ≤
    (p.context.trailsWithin (State.origin v time p.context.request : State Exact)
      p.context.network.places.length).ncard := by
  rw [h.explored_eq, ← List.length_map (f := fun x : Candidate Exact => x.trail)]
  refine length_le_ncard h.trails_nodup (p.context.finite_trailsWithin _ _) fun t ht => ?_
  obtain ⟨x, hx, rfl⟩ := List.mem_map.mp ht
  have hx := List.mem_append_left g.queue.toList hx
  exact ⟨h.journey x hx, (h.places_nodup hn hv x hx).2⟩

end

/-- No way that a search queues comes back to a place. So the ways that it may queue, whatever its
limits, are finitely many, and it ends by itself when it may explore more states than there are
such ways, even where circles take no time and cost nothing. -/
theorem NetworkDescription.search_never_circles {description : NetworkDescription}
    {zones : ZoneDatabase} {n : Network} (hb : description.build zones = .ok n)
    (conditions : Std.TreeMap EdgeId (List Exposure)) {k : Integers} {q : Query} {c : Context}
    (hc : Context.make k { n with conditions := conditions } q.request q.time = .ok c)
    (hv : n.IsGround q.origin) :
    (∀ (limits : SearchLimits) (t : Trail Exact), q.Queues c limits t →
      (t.states.map State.place).Nodup ∧ t.states.length ≤ n.places.length) ∧
    {t : Trail Exact | ∃ limits, q.Queues c limits t}.Finite ∧
    ∃ bound, ∀ limits : SearchLimits, (q.run c limits : Progress Exact).explored ≤ bound ∧
      (bound < limits.maxStates →
        (q.plan c limits : Plan Exact).Ended (q.run c limits)) := by
  obtain ⟨days, -, hmake⟩ := Context.make_eq_ok.mp hc
  have hnet : c.network = { n with conditions := conditions } := congrArg Context.network hmake
  have hrequest : c.request = q.request := congrArg Context.request hmake
  have hn : c.network.Wired := hnet ▸ (wired_of_build hb).withConditions conditions
  have hv : c.network.IsGround q.origin := hnet ▸ hv
  have hplaces : c.network.places = n.places := by rw [hnet]; rfl
  have hchronicle : ∀ (limits : SearchLimits) (budget : Nat), ∃ done,
      (q.plan c limits : Plan Exact).Chronicle (State.origin q.origin q.time c.request) done
        ((q.plan c limits).explore budget ((q.plan c limits).begin q.begin)) := by
    intro limits budget
    obtain ⟨done, h, -⟩ := (q.plan c limits : Plan Exact).chronicle q.begin budget
    exact ⟨done, hrequest ▸ h⟩
  have hqueued : ∀ (limits : SearchLimits) (t : Trail Exact), q.Queues c limits t →
      t ∈ c.trailsWithin (State.origin q.origin q.time c.request) c.network.places.length ∧
        (t.states.map State.place).Nodup := by
    rintro limits t ⟨budget, x, hx, rfl⟩
    obtain ⟨done, h⟩ := hchronicle limits budget
    have hx := List.mem_append_right done hx
    obtain ⟨hnodup, hlength⟩ := h.places_nodup hn hv x hx
    exact ⟨⟨h.journey x hx, hlength⟩, hnodup⟩
  refine ⟨fun limits t ht => ⟨(hqueued limits t ht).2, hplaces ▸ (hqueued limits t ht).1.2⟩,
    (c.finite_trailsWithin _ _).subset fun t ⟨limits, ht⟩ => (hqueued limits t ht).1,
    (c.trailsWithin (State.origin q.origin q.time c.request : State Exact)
      c.network.places.length).ncard, fun limits => ?_⟩
  obtain ⟨done, h⟩ := hchronicle limits limits.maxStates
  have hle := h.explored_le hn hv
  exact ⟨hle, fun hlt => Plan.ended_explore
    (lt_of_lt_of_eq (lt_of_le_of_lt hle hlt) (Nat.zero_add _).symm)⟩

/-- Two stops that are one, a timed transfer between them, and a lane from there to a third. -/
def roundabout : NetworkDescription where
  timezone := "UTC"
  calendars := []
  stops := [.alone stopA, .alone stopB, .alone stopC]
  streetVertices := []
  streets := [⟨"A", "B", "nothing", some 0.0, [.walk], true⟩,
    ⟨"B", "C", "lane", some 133.0, [.walk], true⟩]
  patterns := []
  transfers := []
  timedTransfers := [⟨stopA, stopB⟩, ⟨stopB, stopA⟩]

/-- From the first of the two stops to the third. -/
def roundaboutQuery : Query := ⟨0, 2, shuttleTime, {}⟩

theorem roundabout_never_circles : ∃ t : Trial roundabout roundaboutQuery {},
    t.network.IsGround roundaboutQuery.origin ∧
    (∃ path : Trail Exact, roundaboutQuery.Queues t.context {} path ∧ path.states.length = 3) ∧
    (∀ (limits : SearchLimits) (path : Trail Exact), roundaboutQuery.Queues t.context limits path →
      (path.states.map State.place).Nodup ∧ path.states.length ≤ t.network.places.length) ∧
    ∃ bound, ∀ limits : SearchLimits,
      (roundaboutQuery.run t.context limits : Progress Exact).explored ≤ bound := by
  have h : ((Trial.run? roundabout roundaboutQuery {} [0]).any fun t =>
      (t.network.kindOf? roundaboutQuery.origin).any (·.isGround) &&
        t.result.paths.any fun path => path.states.length == 3) = true := by
    decide +kernel
  obtain ⟨t, -, h⟩ := (Option.any_eq_true _ _).mp h
  rw [Bool.and_eq_true] at h
  obtain ⟨path, hpath, hlength⟩ := List.any_eq_true.mp h.2
  have hv := Network.isGround_of_any h.1
  obtain ⟨hcircles, -, bound, hbound⟩ :=
    NetworkDescription.search_never_circles t.build_eq t.network.conditions t.make_eq hv
  obtain ⟨-, c, hc, -, -, hresult⟩ := search_eq_ok.mp t.search_eq
  obtain rfl := t.context_eq hc
  rw [hresult] at hpath
  have hqueued := Query.queues_of_mem_paths (List.mem_reverse.mp hpath)
  exact ⟨t, hv, ⟨path, hqueued, beq_iff_eq.mp hlength⟩, hcircles, bound,
    fun limits => (hbound limits).1⟩

end JourneyPlanner
