import JourneyPlanner.Proofs.Journey.Chain

/-!
# Rides

Between getting on and getting off a journey passes the vertices of one pattern in order, from the
gate that found the vehicle to the gate that leaves it (`Context.Journey.ridesBetween`). It follows
one run of the pattern, at the run's times, on one service day (`Context.Journey.rides`).
-/

namespace JourneyPlanner

/-- The on-board vertices of the pattern numbered `k` between a departure from position `i` and the
arrival at position `j`, in the order of travel. -/
def rideVertices (k i j : Nat) : List VertexKind :=
  (List.range' i (j - i)).flatMap fun m => [.depart k m, .arrive k (m + 1)]

theorem rideVertices_self (k i : Nat) : rideVertices k i i = [] := by
  unfold rideVertices
  rw [Nat.sub_self]
  rfl

theorem rideVertices_of_lt {k i j : Nat} (h : i < j) :
    rideVertices k i j = .depart k i :: .arrive k (i + 1) :: rideVertices k (i + 1) j := by
  unfold rideVertices
  rw [show j - i = (j - (i + 1)) + 1 by omega, List.range'_succ]
  rfl

/-- A way over on-board vertices from a departure to an arrival passes those of a ride. -/
theorem eq_rideVertices {m j : Nat} : ∀ {vertices : List VertexKind} {k i : Nat},
    (.depart k i :: vertices).IsChain VertexKind.Follows →
      (VertexKind.depart k i :: vertices).getLast? = some (.arrive m j) →
        i < j ∧ .depart k i :: vertices = rideVertices k i j
  | [], k, i, _, hlast => by cases hlast
  | [x], k, i, h, hlast => by
    cases (List.isChain_cons_cons.mp h).1
    cases hlast
    exact ⟨Nat.lt_succ_self i, by rw [rideVertices_of_lt (Nat.lt_succ_self i), rideVertices_self]⟩
  | x :: y :: rest, k, i, h, hlast => by
    obtain ⟨hx, h⟩ := List.isChain_cons_cons.mp h
    cases hx
    obtain ⟨hy, h⟩ := List.isChain_cons_cons.mp h
    cases hy
    obtain ⟨hlt, heq⟩ := eq_rideVertices h hlast
    exact ⟨Nat.lt_of_succ_lt hlt, by rw [rideVertices_of_lt (Nat.lt_of_succ_lt hlt), ← heq]⟩

variable {W : Type}

theorem FrequencyPattern.lt_of_timeAt? {p : FrequencyPattern} {k l j : Nat} {t : Int}
    (h : p.timeAt? k (.arrive l j) = some t) : j < p.stops.length := by
  simp only [timeAt?] at h
  split_ifs at h
  obtain ⟨st, hst, -⟩ := Option.map_eq_some_iff.mp h
  exact (List.getElem?_eq_some_iff.mp hst).1

/-- States of a search in the order of travel. -/
def Context.travelOrder {α : Type} (c : Context) (l : List α) : List α :=
  if c.arriveBy then l.reverse else l

theorem Context.map_travelOrder {α β : Type} (c : Context) (f : α → β) (l : List α) :
    (c.travelOrder l).map f = c.travelOrder (l.map f) := by
  unfold travelOrder
  split_ifs
  · exact List.map_reverse
  · rfl

/-- Whether a state is at the stop of a position of a pattern. -/
def Context.IsAtStop (c : Context) (s : State W) (p : FrequencyPattern) (i : Nat) : Prop :=
  ∃ st, p.stops[i]? = some st ∧ c.network.kindOf? s.vertex = some (.stop st.stop)

/-- The states between two others ride one run of the pattern numbered `k`, which starts at `start`
seconds of a day, from position `i` to position `j`. -/
structure Context.Rides (c : Context) (x : State W) (ride : List (State W)) (y : State W)
    (k i j : Nat) (p : FrequencyPattern) (day : ServiceDay) (start : Int) : Prop where
  pattern_eq : c.network.patternAt? k = some p
  before : i < j
  inside : j < p.stops.length
  day_mem : day ∈ c.days.toList
  day_runs : p.service ∈ day.running
  starts : ∃ w ∈ p.windows, w.Starts start
  vertices : (c.travelOrder ride).map (fun s => c.network.kindOf? s.vertex) =
    (rideVertices k i j).map some
  on_time : ∀ s ∈ ride, ∃ κ t, c.network.kindOf? s.vertex = some κ ∧ p.timeAt? k κ = some t ∧
    s.time = day.midnight + start + t
  day_eq : ∀ s ∈ ride, s.serviceDay = some day
  trip_eq : ∀ s ∈ ride, s.trip = some p.trip
  boards_at : c.IsAtStop (if c.arriveBy then y else x) p i
  alights_at : c.IsAtStop (if c.arriveBy then x else y) p j

/-- The states between two others ride the pattern numbered `k` from position `i` to position
`j`. -/
structure Context.RidesPattern (c : Context) (x : State W) (ride : List (State W)) (y : State W)
    (k i j : Nat) (p : FrequencyPattern) : Prop where
  before : i < j
  inside : j < p.stops.length
  aboard : ∀ s ∈ ride, c.Aboard s k p
  vertices : (c.travelOrder ride).map (fun s => c.network.kindOf? s.vertex) =
    (rideVertices k i j).map some
  boards_at : c.IsAtStop (if c.arriveBy then y else x) p i
  alights_at : c.IsAtStop (if c.arriveBy then x else y) p j

/-- The states between two others ride the pattern numbered `k` from position `i` to position `j`,
on a vehicle that was found by one gate and is left by the other. -/
structure Context.RidesBetween [Weight W] (c : Context) (x : State W) (ride : List (State W))
    (y : State W) (k i j : Nat) (g g' : Gate) : Prop where
  found : ∃ e stop meeting wait day penalty, c.FindsBy e g x k stop meeting wait day penalty ∧
    ride.head? = some (g.boarded e x c stop wait day (g.fare x c wait penalty))
  left : ∃ e last stop, ride.getLast? = some last ∧ c.LeavesBy e g' last k stop ∧
    y = g'.left e last c stop
  pattern_eq : g'.pattern = g.pattern
  aboard : ∀ s ∈ ride, c.Aboard s k g.pattern
  positions : c.travelOrder [g.index, g'.index] = [i, j]
  before : i < j
  inside : j < g.pattern.stops.length
  vertices : (c.travelOrder ride).map (fun s => c.network.kindOf? s.vertex) =
    (rideVertices k i j).map some

/-- A part of a journey on board, between a state before getting on and one after getting off. -/
structure CompletedRide (l : List (State W)) (x : State W) (ride : List (State W)) (y : State W) :
    Prop where
  within : ∃ before after, l = before ++ x :: (ride ++ y :: after)
  ne_nil : ride ≠ []
  on_board : ∀ s ∈ ride, s.isOnBoard = true
  before_off : x.isOnBoard = false
  after_off : y.isOnBoard = false

variable [Weight W] {c : Context} {s : State W} {k : Nat} {p : FrequencyPattern} {day : ServiceDay}
  {start : Int} {time : Int}

omit [Weight W] in
theorem State.isOnBoard_eq_false : s.isOnBoard = false ↔ s.trip = none := by
  unfold State.isOnBoard
  cases s.trip <;> simp

omit [Weight W] in
theorem State.isOnBoard_eq_true : s.isOnBoard = true ↔ s.trip ≠ none := by
  unfold State.isOnBoard
  cases s.trip <;> simp

/-- As long as one stays on board one passes the vertices of one pattern in turn. -/
theorem Context.Aboard.chain (hn : c.network.Wired) :
    ∀ {rest : List (State W)} {s : State W}, c.Aboard s k p → (s :: rest).IsChain c.Step →
      (∀ x ∈ rest, x.trip ≠ none) →
        (∀ x ∈ s :: rest, c.Aboard x k p) ∧ ∃ vertices : List VertexKind,
          (s :: rest).map (fun x => c.network.kindOf? x.vertex) = vertices.map some ∧
          vertices.IsChain (VertexKind.Next c.arriveBy)
  | [], s, h, _, _ => by
    obtain ⟨κ, _, hκ, _⟩ := h.vertex_kind
    exact ⟨by simpa using h, [κ], by simp [hκ], .singleton κ⟩
  | x :: rest, s, h, hc, hb => by
    obtain ⟨hstep, hc⟩ := List.isChain_cons_cons.mp hc
    obtain ⟨e, he, hsrc, ht⟩ := hn.step_iff.mp hstep
    rcases ht.aboard hn h he hsrc with
      ⟨κ, κ', t, t', seconds, hstays, rfl⟩ | ⟨g, stop, -, rfl⟩
    · obtain ⟨hall, vertices, hmap, hchain⟩ := (h.moved hstays).chain hn hc
        fun y hy => hb y (List.mem_cons_of_mem _ hy)
      refine ⟨List.forall_mem_cons.mpr ⟨h, hall⟩, κ :: vertices, ?_, ?_⟩
      · rw [List.map_cons, hmap, hstays.source_kind]
        rfl
      · cases vertices with
        | nil => exact .singleton κ
        | cons κ₁ vertices =>
          have hκ₁ : c.network.kindOf? (e.target c.arriveBy) = some κ₁ := (List.cons.inj hmap).1
          obtain rfl := Option.some.inj (hstays.target_kind.symm.trans hκ₁)
          exact List.isChain_cons_cons.mpr ⟨hstays.next, hchain⟩
    · exact absurd rfl (hb _ List.mem_cons_self)

/-- As long as one stays on board one stays on the run. -/
theorem Context.OnRun.chain (hn : c.network.Wired) :
    ∀ {rest : List (State W)} {s : State W}, c.OnRun s k p day start →
      (∀ x ∈ s :: rest, x.arriveBy = c.arriveBy) → (s :: rest).IsChain c.Step →
      (∀ x ∈ rest, x.trip ≠ none) → ∀ x ∈ s :: rest, c.OnRun x k p day start
  | [], s, h, _, _, _ => by simpa using h
  | x :: rest, s, h, ha, hc, hb => by
    obtain ⟨hstep, hc⟩ := List.isChain_cons_cons.mp hc
    obtain ⟨e, he, hsrc, ht⟩ := hn.step_iff.mp hstep
    rcases ht.aboard hn h.aboard he hsrc with
      ⟨κ, κ', t, t', seconds, hstays, rfl⟩ | ⟨g, stop, -, rfl⟩
    · exact List.forall_mem_cons.mpr ⟨h, (h.moved (ha s List.mem_cons_self) hstays).chain hn
        (fun y hy => ha y (List.mem_cons_of_mem s hy)) hc
        fun y hy => hb y (List.mem_cons_of_mem _ hy)⟩
    · exact absurd rfl (hb _ List.mem_cons_self)

/-- Getting on, one finds a vehicle. -/
theorem Context.OnFoot.finds {s' : State W} (hn : c.network.Wired) (hfoot : c.OnFoot s)
    (hs' : s'.trip ≠ none) (h : c.Step s s') :
    ∃ e g k stop meeting wait day penalty, c.FindsBy e g s k stop meeting wait day penalty ∧
      s' = g.boarded e s c stop wait day (g.fare s c wait penalty) := by
  obtain ⟨e, he, hsrc, ht⟩ := hn.step_iff.mp h
  rcases ht.onFoot hn hfoot he hsrc with hfinds | ⟨-, rfl | ⟨_, _, _, -, rfl⟩⟩
  · exact ⟨e, hfinds⟩
  · exact absurd hfoot.trip_eq hs'
  · exact absurd hfoot.trip_eq hs'

theorem Context.Aboard.leaves {s' : State W} (hn : c.network.Wired) (haboard : c.Aboard s k p)
    (hs' : s'.trip = none) (h : c.Step s s') :
    ∃ e g stop, c.LeavesBy e g s k stop ∧ s' = g.left e s c stop := by
  obtain ⟨e, he, hsrc, ht⟩ := hn.step_iff.mp h
  rcases ht.aboard hn haboard he hsrc with ⟨_, _, _, _, _, -, rfl⟩ | hleaves
  · exact absurd (haboard.trip_eq.symm.trans hs') nofun
  · exact ⟨e, hleaves⟩

/-- A way between two gates in the order of travel is that of a ride. -/
theorem travelOrder_eq_rideVertices {vertices : List VertexKind} {g g' : Gate}
    (hg : g.boarding ≠ c.arriveBy) (hg' : g'.boarding = c.arriveBy)
    (hchain : vertices.IsChain (VertexKind.Next c.arriveBy))
    (hhead : vertices.head? = some (g.side k)) (hlast : vertices.getLast? = some (g'.side k)) :
    ∃ i j, c.travelOrder [g.index, g'.index] = [i, j] ∧ i < j ∧
      c.travelOrder vertices = rideVertices k i j ∧ .arrive k j ∈ vertices := by
  have key : ∀ (vertices : List VertexKind) {g g' : Gate}, g.boarding = true →
      g'.boarding = false → vertices.IsChain VertexKind.Follows →
      vertices.head? = some (g.side k) → vertices.getLast? = some (g'.side k) →
      g.index < g'.index ∧ vertices = rideVertices k g.index g'.index ∧
        .arrive k g'.index ∈ vertices := by
    intro vertices g g' hg hg' hchain hhead hlast
    unfold Gate.side at hhead hlast
    rw [hg, if_pos rfl] at hhead
    rw [hg', if_neg Bool.false_ne_true] at hlast
    obtain ⟨rest, rfl⟩ := List.head?_eq_some_iff.mp hhead
    obtain ⟨hlt, heq⟩ := eq_rideVertices hchain hlast
    exact ⟨hlt, heq, List.mem_of_getLast? hlast⟩
  unfold Context.travelOrder
  cases ha : c.arriveBy with
  | false =>
    rw [ha] at hg hg' hchain
    exact ⟨_, _, rfl, key vertices (by simpa using hg) hg' hchain hhead hlast⟩
  | true =>
    rw [ha] at hg hg' hchain
    obtain ⟨hlt, heq, hmem⟩ := key vertices.reverse hg' (by simpa using hg)
      (List.isChain_reverse.mpr hchain) (by rw [List.head?_reverse, hlast])
      (by rw [List.getLast?_reverse, hhead])
    exact ⟨_, _, rfl, hlt, heq, List.mem_reverse.mp hmem⟩

/-- A completed ride leads from the gate that found the vehicle to the gate that leaves it. -/
theorem Context.Journey.ridesBetween {v : VertexId} {l ride : List (State W)} {x y : State W}
    (hn : c.network.Wired) (hv : c.network.IsGround v)
    (h : c.Journey (State.origin v time c.request) l) (hr : CompletedRide l x ride y) :
    ∃ k i j g g', c.RidesBetween x ride y k i j g g' := by
  have hstanding := h.standing hn hv
  have hx := State.isOnBoard_eq_false.mp hr.before_off
  have hy := State.isOnBoard_eq_false.mp hr.after_off
  obtain ⟨before, after, rfl⟩ := hr.within
  have hchain := h.chain.right_of_append
  cases ride with
  | nil => exact absurd rfl hr.ne_nil
  | cons f rest =>
    have hne := List.cons_ne_nil f rest
    obtain ⟨hget, hchain⟩ := List.isChain_cons_cons.mp hchain
    change ((f :: rest) ++ y :: after).IsChain c.Step at hchain
    have hoff : c.Step ((f :: rest).getLast hne) y :=
      hchain.rel_getLast_head_of_append hne (List.cons_ne_nil y after)
    have hboard : ∀ z ∈ f :: rest, z.trip ≠ none := fun z hz =>
      State.isOnBoard_eq_true.mp (hr.on_board z hz)
    obtain ⟨e, g, k, stop, meeting, wait, day, penalty, hfinds, rfl⟩ :=
      ((hstanding x (by simp)).onFoot hx).finds hn (hboard f List.mem_cons_self) hget
    obtain ⟨haboard, vertices, hmap, hvertices⟩ := hfinds.aboard.chain hn hchain.left_of_append
      fun z hz => hboard z (List.mem_cons_of_mem _ hz)
    obtain ⟨e', g', stop', hleaves, rfl⟩ := (haboard _ (List.getLast_mem hne)).leaves hn hy hoff
    have heq : g'.pattern = g.pattern :=
      Option.some.inj (hleaves.pattern_eq.symm.trans hfinds.pattern_eq)
    have hhead : vertices.head? = some (g.side k) := by
      have := congrArg List.head? hmap
      rw [List.head?_map, List.head?_map, List.head?_cons, Option.map_some] at this
      obtain ⟨κ, hκ, heq⟩ := Option.map_eq_some_iff.mp this.symm
      rw [hκ, ← Option.some.inj (hfinds.side_kind.symm.trans heq.symm)]
    have hlast : vertices.getLast? = some (g'.side k) := by
      have := congrArg List.getLast? hmap
      rw [List.getLast?_map, List.getLast?_map, List.getLast?_eq_some_getLast hne,
        Option.map_some, hleaves.side_kind] at this
      obtain ⟨κ, hκ, heq⟩ := Option.map_eq_some_iff.mp this.symm
      rw [hκ, Option.some.inj heq]
    obtain ⟨i, j, hij, hlt, hway, hmem⟩ :=
      travelOrder_eq_rideVertices hfinds.side hleaves.side hvertices hhead hlast
    refine ⟨k, i, j, g, g', ⟨_, _, _, _, _, _, hfinds, rfl⟩,
      ⟨_, _, _, List.getLast?_eq_some_getLast hne, hleaves, rfl⟩, heq, haboard, hij, hlt, ?_, ?_⟩
    · have hmem' := List.mem_map_of_mem (f := some) hmem
      rw [← hmap] at hmem'
      obtain ⟨z, hz, hzκ⟩ := List.mem_map.mp hmem'
      obtain ⟨κ, t, hκ, ht⟩ := (haboard z hz).vertex_kind
      obtain rfl := Option.some.inj (hκ.symm.trans hzκ)
      exact FrequencyPattern.lt_of_timeAt? ht
    · rw [c.map_travelOrder, hmap, ← c.map_travelOrder, hway]

namespace Context.RidesBetween

variable {x y : State W} {ride : List (State W)} {i j : Nat} {g g' : Gate}
  (h : c.RidesBetween x ride y k i j g g')

include h

theorem at_found : c.IsAtStop x g.pattern g.index := by
  obtain ⟨_, _, _, _, _, _, hfinds, -⟩ := h.found
  obtain ⟨st, hst, rfl⟩ := Option.map_eq_some_iff.mp hfinds.finds.stop_eq
  exact ⟨st, hst, hfinds.stop_kind⟩

theorem at_left : c.IsAtStop y g.pattern g'.index := by
  obtain ⟨_, _, _, -, hleaves, rfl⟩ := h.left
  obtain ⟨st, hst, rfl⟩ := Option.map_eq_some_iff.mp hleaves.stop_eq
  exact ⟨st, h.pattern_eq ▸ hst, hleaves.stop_kind⟩

theorem boards_at : c.IsAtStop (if c.arriveBy then y else x) g.pattern i := by
  have hij := h.positions
  unfold travelOrder at hij
  split_ifs at hij ⊢ <;> cases hij
  · exact h.at_left
  · exact h.at_found

theorem alights_at : c.IsAtStop (if c.arriveBy then x else y) g.pattern j := by
  have hij := h.positions
  unfold travelOrder at hij
  split_ifs at hij ⊢ <;> cases hij
  · exact h.at_found
  · exact h.at_left

theorem ridesPattern : c.RidesPattern x ride y k i j g.pattern :=
  ⟨h.before, h.inside, h.aboard, h.vertices, h.boards_at, h.alights_at⟩

end Context.RidesBetween

/-- A completed ride follows one run. -/
theorem Context.Journey.rides {v : VertexId} {l ride : List (State W)} {x y : State W}
    (hn : c.network.Wired) (hv : c.network.IsGround v)
    (h : c.Journey (State.origin v time c.request) l) (hr : CompletedRide l x ride y) :
    ∃ k i j p day start, c.Rides x ride y k i j p day start := by
  obtain ⟨k, i, j, g, g', hbetween⟩ := h.ridesBetween hn hv hr
  obtain ⟨e, stop, meeting, wait, day, penalty, hfinds, hhead⟩ := hbetween.found
  have hstanding := h.standing hn hv
  obtain ⟨before, after, rfl⟩ := hr.within
  have hchain : ride.IsChain c.Step := h.chain.right_of_append.tail.left_of_append
  obtain ⟨rest, rfl⟩ := List.head?_eq_some_iff.mp hhead
  obtain ⟨start, hrun⟩ := hfinds.onRun (hstanding x (by simp)).arriveBy_eq
  have hruns := hrun.chain hn
    (fun z hz => (hstanding z (by
      simp only [List.mem_append, List.mem_cons] at hz ⊢
      tauto)).arriveBy_eq)
    hchain
    fun z hz => State.isOnBoard_eq_true.mp (hr.on_board z (List.mem_cons_of_mem _ hz))
  exact ⟨k, i, j, g.pattern, day, start, hrun.pattern_eq, hbetween.before, hbetween.inside,
    hrun.day_mem, List.contains_iff_mem.mp hrun.day_runs, hrun.starts, hbetween.vertices,
    fun z hz => (hruns z hz).on_time, fun z hz => (hruns z hz).day_eq,
    fun z hz => (hruns z hz).trip_eq, hbetween.boards_at, hbetween.alights_at⟩

end JourneyPlanner
