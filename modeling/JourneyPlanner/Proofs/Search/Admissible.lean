import JourneyPlanner.Proofs.Journey.Charges
import JourneyPlanner.Proofs.Journey.Days
import JourneyPlanner.Proofs.Search.Bounds
import JourneyPlanner.Proofs.Search.Paths

/-!
# What is still to come

Along a journey that ends at the target with a number for its weight, the weight so far
and the bound from there add up to no more than the weight at the end
(`Context.Journey.ahead`). So the search queues every state of such a journey, and no later than
the journey weighs.
-/

namespace JourneyPlanner

variable {c : Context} {e : Edge} {s y : State Exact} {target : VertexId} {bounds : Array Exact}
  {time : Int} {w : ℚ}

theorem Context.Takes.vertex_eq {W : Type} [Weight W] {s y : State W} (h : c.Takes e s y) :
    y.vertex = e.target c.arriveBy := by
  cases h <;> rfl

theorem Context.Takes.arriveBy_eq {W : Type} [Weight W] {s y : State W} (h : c.Takes e s y) :
    y.arriveBy = s.arriveBy := by
  cases h <;> rfl

theorem Context.Takes.streetMode_eq {W : Type} [Weight W] {s y : State W} (h : c.Takes e s y) :
    y.streetMode = s.streetMode := by
  cases h <;> rfl

theorem Context.Takes.boardings_le {W : Type} [Weight W] {s y : State W} (h : c.Takes e s y) :
    s.boardings ≤ y.boardings := by
  cases h with
  | find => exact Nat.le_succ _
  | leave | stay | change | walk => exact Nat.le_refl _

/-- Whether a state has a weight and a bound, and both together, but for what is paid ahead, are no
more than `w`. -/
def Context.Ahead (c : Context) (bounds : Array Exact) (s : State Exact) (w : ℚ) : Prop :=
  ∃ q h, s.weight = .finite q ∧ bounds[s.vertex]?.getD Weight.infinity = .finite h ∧ q ≤ w ∧
    q + h ≤ w + c.credit s

section

variable (hn : c.network.Wired) (hr : c.request.Regular) (hd : c.network.DistancesNonneg)

include hn hr hd

theorem Context.Ahead.step_back (hb : c.LowerBounds target bounds) (hs : c.Standing s)
    (hstep : c.Step s y) (h : c.Ahead bounds y w) : c.Ahead bounds s w := by
  obtain ⟨e, he, hsrc, ht⟩ := hn.step_iff.mp hstep
  obtain ⟨q', h', hq', hh', hle, hsum⟩ := h
  obtain ⟨q, β, hq, hβ, hqq', hpays⟩ := ht.pays hn hr hd hs he hsrc hq'
  rw [ht.vertex_eq] at hh'
  obtain ⟨b, hbound, hb'⟩ := hb.edge_le e he β h' hβ hh'
  rw [hsrc] at hbound
  refine ⟨q, b, hq, hbound, hqq'.trans hle, ?_⟩
  linarith

/-- On the way to the target the bounds are never too high. -/
theorem Context.Journey.ahead {v : VertexId} {l : List (State Exact)} {last : State Exact}
    (hb : c.LowerBounds target bounds) (hv : c.network.IsGround v)
    (hj : c.Journey (State.origin v time c.request) l) (hlast : l.getLast? = some last)
    (htarget : last.vertex = target) (hw : last.weight = .finite w) :
    ∀ s ∈ l, c.Ahead bounds s w := by
  have hstanding := hj.standing hn hv
  refine hj.forall_of_step_back hlast ?_ fun s hs y _ hsy hy =>
    hy.step_back hn hr hd hb (hstanding s hs) hsy
  refine ⟨w, 0, hw, htarget ▸ hb.target_eq, le_refl w, ?_⟩
  have := c.credit_nonneg hr last
  linarith

end

theorem Context.Journey.boardings_le {W : Type} [Weight W] {origin last : State W}
    {l : List (State W)} (hn : c.network.Wired) (hj : c.Journey origin l)
    (hlast : l.getLast? = some last) : ∀ s ∈ l, s.boardings ≤ last.boardings := by
  refine hj.forall_of_step_back hlast (Nat.le_refl _) fun s _ y _ hsy hy => ?_
  obtain ⟨e, -, -, ht⟩ := hn.step_iff.mp hsy
  exact ht.boardings_le.trans hy

theorem Context.Ahead.heuristic {p : Plan Exact} (hp : p.bounds = bounds)
    (h : c.Ahead bounds s w) :
    ∃ q a, s.weight = .finite q ∧ p.heuristic s = .finite a ∧ q + a ≤ w := by
  obtain ⟨q, b, hq, hb, hle, hsum⟩ := h
  unfold Plan.heuristic
  cases hon : s.isOnBoard with
  | true => exact ⟨q, 0, hq, Exact.zero_eq, by linarith⟩
  | false =>
    unfold Context.credit at hsum
    rw [hon, if_neg Bool.false_ne_true] at hsum
    exact ⟨q, b, hq, hp ▸ hb, by linarith⟩

/-! ## Queries -/

/-- What a search by bounds goes by, however it computes with integers. -/
structure Query.Guided (q : Query) (c : Context) : Prop where
  wired : c.network.Wired
  fits : c.StaysFit
  request_eq : c.request = q.request
  regular : c.request.Regular
  distances : c.network.DistancesNonneg
  origin_ground : c.network.IsGround q.origin
  target_ground : c.network.IsGround q.target

theorem Query.ends_ground {q : Query} {n : Network} (hstart : n.IsGround q.start)
    (hgoal : n.IsGround q.goal) : n.IsGround q.origin ∧ n.IsGround q.target := by
  unfold Query.origin Query.target
  split_ifs
  · exact ⟨hgoal, hstart⟩
  · exact ⟨hstart, hgoal⟩

theorem Query.guided_of_build {q : Query} {k : Integers} {description : NetworkDescription}
    {zones : ZoneDatabase} {n : Network} (hb : description.build zones = .ok n)
    {conditions : Std.TreeMap EdgeId (List Exposure)}
    (hc : Context.make k { n with conditions := conditions } q.request q.time = .ok c)
    (hr : q.request.Regular) (hd : n.DistancesNonneg) (hstart : n.IsGround q.start)
    (hgoal : n.IsGround q.goal) : q.Guided c := by
  have hn := (NetworkDescription.wired_of_build hb).withConditions conditions
  obtain ⟨days, -, rfl⟩ := Context.make_eq_ok.mp hc
  obtain ⟨horigin, htarget⟩ := Query.ends_ground hstart hgoal
  have htimely : n.Timely := NetworkDescription.timely_of_build hb
  exact ⟨hn, Network.Timely.staysFit htimely hn, rfl, hr, hd, horigin, htarget⟩

namespace Query.Guided

variable {q : Query} {limits : SearchLimits} {l : List (State Exact)} {last : State Exact}
  (hq : q.Guided c)

include hq

theorem lowerBounds : c.LowerBounds q.target (c.boundsTo q.target) :=
  Context.lowerBounds_spec hq.wired hq.fits
    (Context.boundsNonneg hq.wired hq.regular hq.distances) hq.target_ground.lt_size

theorem begin_eq : q.begin = (State.origin q.origin q.time c.request : State Exact) := by
  rw [hq.request_eq]
  rfl

theorem ahead (hj : c.Journey q.begin l) (hlast : l.getLast? = some last)
    (htarget : last.vertex = q.target) (hw : last.weight = .finite w) :
    ∀ s ∈ l, c.Ahead (c.boundsTo q.target) s w := by
  rw [hq.begin_eq] at hj
  exact hj.ahead hq.wired hq.regular hq.distances hq.lowerBounds hq.origin_ground hlast htarget hw

theorem heuristic_of_isGoal (hs : (q.plan c limits).isGoal s = true) :
    (q.plan c limits).heuristic s = .finite 0 := by
  obtain ⟨hv, hoff⟩ := Plan.isGoal_iff.mp hs
  unfold Plan.heuristic
  rw [hoff, if_neg Bool.false_ne_true, hv]
  exact hq.lowerBounds.target_eq

end Query.Guided

end JourneyPlanner
