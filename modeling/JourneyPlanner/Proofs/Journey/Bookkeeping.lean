import JourneyPlanner.Proofs.Search.Rides

/-!
# The bookkeeping of boardings

A state does not know the edges that led to it. What it keeps of them is a count of boardings, a
flag, and what was left last, where and when. On every chain of edges these agree with the edges
taken and with the vertex (`Context.Booked`): one vehicle is counted for each edge that found one,
all but the one being ridden have been left, and nothing is forgotten.
-/

namespace JourneyPlanner

/-! ## Edges that find and leave vehicles -/

namespace Edge

/-- Whether a search in a direction finds vehicles by the edge. -/
def finds (e : Edge) (arriveBy : Bool) : Bool := e.kind == if arriveBy then .alight else .board

/-- Whether a search in a direction leaves vehicles by the edge. -/
def leaves (e : Edge) (arriveBy : Bool) : Bool := e.kind == if arriveBy then .board else .alight

/-- The gate of a board or alight edge. -/
def gate? (e : Edge) : Option Gate :=
  match e.link with
  | .board p i => some ⟨p, i, true⟩
  | .alight p i => some ⟨p, i, false⟩
  | _ => none

/-- The stop at which one passes a board or alight edge. -/
def stop? (e : Edge) : Option StopId := e.gate?.bind Gate.stop?

/-- The trip of a board or alight edge. -/
def trip? (e : Edge) : Option Trip := e.gate?.map (·.pattern.trip)

variable {e : Edge} {g : Gate} {b : Bool}

theorem gate?_eq_some : e.gate? = some g ↔ e.link = g.link := by
  obtain ⟨p, i, boarding⟩ := g
  unfold gate? Gate.link
  cases e.link <;> cases boarding <;> simp

theorem finds_eq : e.finds b = e.leaves (!b) := by
  cases b <;> rfl

theorem leaves_of_gate (h : e.link = g.link) : e.leaves b = (g.boarding == b) := by
  unfold leaves kind Gate.link at *
  rw [h]
  cases g.boarding <;> cases b <;> rfl

theorem finds_of_gate (h : e.link = g.link) : e.finds b = (g.boarding != b) := by
  rw [finds_eq, leaves_of_gate h]
  cases g.boarding <;> cases b <;> rfl

theorem not_leaves (h : e.gate? = none) : e.leaves b = false := by
  unfold leaves kind gate? at *
  cases hl : e.link <;> rw [hl] at h <;> cases b <;> first | rfl | cases h

theorem not_finds (h : e.gate? = none) : e.finds b = false :=
  finds_eq.trans (not_leaves h)

theorem exists_gate_of_leaves (h : e.leaves b = true) :
    ∃ g : Gate, e.link = g.link ∧ g.boarding = b := by
  cases hg : e.gate? with
  | none =>
    rw [not_leaves hg] at h
    cases h
  | some g =>
    have hl := gate?_eq_some.mp hg
    rw [leaves_of_gate hl] at h
    exact ⟨g, hl, beq_iff_eq.mp h⟩

theorem gate?_eq_none_of_stay {k : Integers} {p : FrequencyPattern} {seconds : Int}
    (h : e.stay? k = some (p, seconds)) : e.gate? = none := by
  unfold gate?
  rcases (stay?_eq_some.mp h).1 with ⟨i, j, hl⟩ | ⟨i, hl⟩ <;> rw [hl]

end Edge

/-! ## Chains of edges -/

/-- An edge with the state from which it was taken. -/
structure Passage (W : Type) where
  edge : Edge
  state : State W

variable {W : Type} [Weight W] {c : Context} {e : Edge} {s s' x y origin : State W}
  {taken : List (Passage W)} {time : Int}

/-- From an origin the edges of a list, the latest first, lead to a state. -/
inductive Context.Leads (c : Context) (origin : State W) : List (Passage W) → State W → Prop
  | start : Leads c origin [] origin
  | take {taken : List (Passage W)} {s s' : State W} {e : Edge} (h : Leads c origin taken s)
      (he : e ∈ c.network.edgesFrom s.vertex c.arriveBy) (ht : e.traverse s c = .ok s') :
      Leads c origin (⟨e, s⟩ :: taken) s'

/-- The trail that a chain of edges leaves. -/
def trailOf (taken : List (Passage W)) (s : State W) : Trail W := ⟨s, taken.map (·.state)⟩

omit [Weight W] in
theorem Trail.exists_states {l : List (State W)} (h : l.getLast? = some s) :
    ∃ t : Trail W, t.states = l ∧ t.last = s := by
  refine ⟨⟨s, l.dropLast.reverse⟩, ?_, rfl⟩
  unfold Trail.states
  rw [List.reverse_reverse]
  exact List.dropLast_append_getLast? s h

theorem Context.Leads.journey (h : c.Leads origin taken s) :
    c.Journey origin (trailOf taken s).states := by
  induction h with
  | start => exact Context.journey_start
  | take _ he ht ih => exact ih.extend ⟨_, he, ht⟩

/-- The trail of a journey has not moved, or its last state is a step behind another journey. -/
theorem Context.Journey.trail_cases {t : Trail W} (h : c.Journey origin t.states) :
    t = Trail.start origin ∨
      ∃ u : Trail W, t = u.extend t.last ∧ c.Journey origin u.states ∧ c.Step u.last t.last := by
  obtain ⟨s, earlier⟩ := t
  cases earlier with
  | nil =>
    obtain rfl : s = origin := Option.some.inj h.head_eq
    exact .inl rfl
  | cons x earlier =>
    have hsplit : (Trail.mk s (x :: earlier)).states = (Trail.mk x earlier).states ++ [s] :=
      Trail.states_extend (t := ⟨x, earlier⟩)
    have hhead := h.head_eq
    have hchain := h.chain
    rw [hsplit] at hhead hchain
    rw [List.head?_append_of_ne_nil _ (List.ne_nil_of_mem Trail.last_mem_states)] at hhead
    exact .inr ⟨⟨x, earlier⟩, rfl, ⟨hhead, hchain.left_of_append⟩,
      (List.isChain_append.mp hchain).2.2 x Trail.getLast?_states s rfl⟩

theorem Context.Journey.leads {t : Trail W} (h : c.Journey origin t.states) :
    ∃ taken, c.Leads origin taken t.last ∧ taken.map (·.state) = t.earlier := by
  rcases h.trail_cases with rfl | ⟨u, ht, hu, e, he, htaken⟩
  · exact ⟨[], .start, rfl⟩
  · obtain ⟨taken, hleads, hstates⟩ := hu.leads
    refine ⟨_, hleads.take he htaken, ?_⟩
    rw [ht]
    exact congrArg (u.last :: ·) hstates
termination_by t.earlier.length
decreasing_by
  rw [ht]
  exact Nat.lt_succ_self _

/-! ## What a step leaves behind -/

/-- What is counted and remembered at a state after one earlier on the way is no less. -/
structure Context.Precedes (c : Context) (x y : State W) : Prop where
  sooner : Sooner c.arriveBy x.time y.time
  boardings_le : x.boardings ≤ y.boardings
  ever_kept : x.everBoarded = true → y.everBoarded = true
  alighted : ∀ a, x.lastAlighted = some a → ∃ b, y.lastAlighted = some b ∧ Sooner c.arriveBy a b

omit [Weight W] in
theorem Context.Precedes.trans {z : State W} (h : c.Precedes x y) (h' : c.Precedes y z) :
    c.Precedes x z := by
  refine ⟨h.sooner.trans h'.sooner, h.boardings_le.trans h'.boardings_le,
    h'.ever_kept ∘ h.ever_kept, fun a ha => ?_⟩
  obtain ⟨b, hb, hab⟩ := h.alighted a ha
  obtain ⟨d, hd, hbd⟩ := h'.alighted b hb
  exact ⟨d, hd, hab.trans hbd⟩

omit [Weight W] in
theorem State.SameRides.precedes (h : s'.SameRides s) (ht : Sooner c.arriveBy s.time s'.time) :
    c.Precedes s s' :=
  ⟨ht, h.boardings_eq.ge, h.ever_eq.trans, fun a ha => ⟨a, h.alighted_eq.trans ha, .refl _ _⟩⟩

/-- Whether a vehicle left was left before. -/
def Context.AlightedBefore (c : Context) (s : State W) : Prop :=
  ∀ a, s.lastAlighted = some a → Sooner c.arriveBy a s.time

theorem Context.Takes.precedes (ha : s.arriveBy = c.arriveBy) (hs : c.AlightedBefore s)
    (h : c.Takes e s s') : c.Precedes s s' := by
  have honward : ∀ seconds : Int, 0 ≤ seconds →
      Sooner c.arriveBy s.time (onward s.arriveBy s.time seconds) := by
    intro seconds hseconds
    rw [ha]
    exact sooner_onward hseconds
  cases h with
  | find _ _ hfinds =>
    exact ⟨honward _ hfinds.wait_nonneg, Nat.le_succ _, fun _ => rfl,
      fun a ha => ⟨a, ha, .refl _ _⟩⟩
  | leave => exact ⟨.refl _ _, Nat.le_refl _, id, fun a ha => ⟨s.time, rfl, hs a ha⟩⟩
  | stay _ _ hnonneg _ _ => exact e.sameRides_moved.precedes (honward _ hnonneg)
  | change => exact e.sameRides_changed.precedes (.refl _ _)
  | walk _ _ hnonneg _ _ => exact e.sameRides_moved.precedes (honward _ hnonneg)

theorem Context.AlightedBefore.step (ha : s.arriveBy = c.arriveBy)
    (hs : c.AlightedBefore s) (h : c.Takes e s s') : c.AlightedBefore s' := by
  have hprecedes := h.precedes ha hs
  intro a halighted
  cases h with
  | leave =>
    cases halighted
    exact .refl _ _
  | find | stay | change | walk => exact (hs a halighted).trans hprecedes.sooner

theorem Context.Journey.pairwise_of_step {l : List (State W)} {R : State W → State W → Prop}
    (h : c.Journey origin l) (htrans : ∀ {x y z}, R x y → R y z → R x z)
    (hstep : ∀ s ∈ l, ∀ y ∈ l, c.Step s y → R s y) : l.Pairwise R := by
  have : Trans R R R := ⟨htrans⟩
  exact List.isChain_iff_pairwise.mp (List.isChain_iff_getElem.mpr fun i hi =>
    hstep _ (List.getElem_mem _) _ (List.getElem_mem hi) (List.isChain_iff_getElem.mp h.chain i hi))

/-- Along a journey each state precedes the later ones. -/
theorem Context.Journey.precedes {v : VertexId} {l : List (State W)} (hn : c.network.Wired)
    (hv : c.network.IsGround v) (h : c.Journey (State.origin v time c.request) l) :
    l.Pairwise c.Precedes := by
  have hstanding := h.standing hn hv
  have hbefore : ∀ s ∈ l, c.AlightedBefore s := by
    refine h.forall_of_step nofun fun s hs y _ hsy hbefore => ?_
    obtain ⟨e, -, -, ht⟩ := hn.step_iff.mp hsy
    exact hbefore.step (hstanding s hs).arriveBy_eq ht
  refine h.pairwise_of_step .trans fun s hs y _ hsy => ?_
  obtain ⟨e, -, -, ht⟩ := hn.step_iff.mp hsy
  exact ht.precedes (hstanding s hs).arriveBy_eq (hbefore s hs)

/-! ## Counting -/

/-- The edge by which a vehicle was left last, with the state from which it was. -/
def Context.lastLeft? (c : Context) (taken : List (Passage W)) : Option (Passage W) :=
  taken.find? (·.edge.leaves c.arriveBy)

omit [Weight W] in
theorem Context.lastLeft?_cons_of_not (h : e.leaves c.arriveBy = false) :
    c.lastLeft? (⟨e, s⟩ :: taken) = c.lastLeft? taken :=
  List.find?_cons_of_neg (by simp [h])

/-- What a state counts and remembers agrees with the edges taken. -/
structure Context.Tally (c : Context) (taken : List (Passage W)) (s : State W) : Prop where
  found : s.boardings = taken.countP (·.edge.finds c.arriveBy)
  left : s.boardings =
    taken.countP (·.edge.leaves c.arriveBy) + if s.isOnBoard then 1 else 0
  stop_eq : s.previousStop = (c.lastLeft? taken).bind (·.edge.stop?)
  alighted_eq : s.lastAlighted = (c.lastLeft? taken).map (·.state.time)

omit [Weight W] in
theorem Context.Tally.keep (h : c.Tally taken s) (he : e.gate? = none) (hs : s'.SameRides s) :
    c.Tally (⟨e, s⟩ :: taken) s' := by
  have hboard : s'.isOnBoard = s.isOnBoard := congrArg Option.isSome hs.trip_eq
  have hlast : c.lastLeft? (⟨e, s⟩ :: taken) = c.lastLeft? taken :=
    Context.lastLeft?_cons_of_not (Edge.not_leaves he)
  refine ⟨?_, ?_, ?_, ?_⟩
  · rw [hs.boardings_eq, h.found, List.countP_cons_of_neg (by simp [Edge.not_finds he])]
  · rw [hs.boardings_eq, h.left, hboard, List.countP_cons_of_neg (by simp [Edge.not_leaves he])]
  · rw [hs.stop_eq, h.stop_eq, hlast]
  · rw [hs.alighted_eq, h.alighted_eq, hlast]

theorem Context.Tally.take (hn : c.network.Wired) (hs : c.Standing s) (h : c.Tally taken s)
    (he : e ∈ c.network.edges) (hsrc : e.source c.arriveBy = s.vertex) (ht : c.Takes e s s') :
    c.Tally (⟨e, s⟩ :: taken) s' := by
  cases ht with
  | @find g stop meeting wait day penalty hl hside _ =>
    -- a vehicle is found on foot only, so that none was being ridden
    have hoff : s.isOnBoard = false := by
      rcases hs.placed with hfoot | ⟨k, p, haboard⟩
      · exact State.isOnBoard_eq_false.mpr hfoot.trip_eq
      · exact absurd (haboard.not_find hn he hsrc hl) hside
    have hfinds : e.finds c.arriveBy = true := by
      rw [Edge.finds_of_gate hl]
      exact bne_iff_ne.mpr hside
    have hleaves : e.leaves c.arriveBy = false := by
      rw [Edge.leaves_of_gate hl]
      exact beq_eq_false_iff_ne.mpr hside
    have hleft := h.left
    rw [hoff] at hleft
    have hlast : c.lastLeft? (⟨e, s⟩ :: taken) = c.lastLeft? taken :=
      Context.lastLeft?_cons_of_not hleaves
    refine ⟨?_, ?_, by rw [hlast]; exact h.stop_eq, by rw [hlast]; exact h.alighted_eq⟩
    · rw [List.countP_cons_of_pos (by simpa using hfinds), ← h.found]
      rfl
    · rw [List.countP_cons_of_neg (by simp [hleaves])]
      exact congrArg (· + 1) hleft
  | @leave g stop hl hside _ hstop _ =>
    -- and left on board only
    have hon : s.isOnBoard = true := by
      rcases hs.placed with hfoot | ⟨k, p, haboard⟩
      · exact absurd hside (hfoot.not_leave hn he hsrc hl)
      · exact State.isOnBoard_eq_true.mpr (haboard.trip_eq ▸ nofun)
    have hfinds : e.finds c.arriveBy = false := by
      rw [Edge.finds_of_gate hl, hside, bne_self_eq_false]
    have hleaves : e.leaves c.arriveBy = true := by
      rw [Edge.leaves_of_gate hl, hside, BEq.rfl]
    have hlast : c.lastLeft? (⟨e, s⟩ :: taken) = some ⟨e, s⟩ :=
      List.find?_cons_of_pos (by simpa using hleaves)
    have hstop' : e.stop? = some stop := by
      unfold Edge.stop?
      rw [Edge.gate?_eq_some.mpr hl]
      exact hstop
    refine ⟨?_, ?_, by rw [hlast]; exact hstop'.symm, by rw [hlast]; rfl⟩
    · rw [List.countP_cons_of_neg (by simp [hfinds])]
      exact h.found
    · rw [List.countP_cons_of_pos (by simpa using hleaves)]
      have := h.left
      rw [hon] at this
      exact this
  | stay hl _ _ _ => exact h.keep (Edge.gate?_eq_none_of_stay hl) e.sameRides_moved
  | change hl _ => exact h.keep (by unfold Edge.gate?; rw [hl]) e.sameRides_changed
  | walk hl _ _ _ => exact h.keep (by unfold Edge.gate?; rw [hl]) e.sameRides_moved

/-- On every chain of edges from the ground what is counted agrees with the edges. -/
theorem Context.Leads.tally {v : VertexId} (hn : c.network.Wired) (hv : c.network.IsGround v)
    (h : c.Leads (State.origin v time c.request) taken s) : c.Tally taken s := by
  induction h with
  | start => exact ⟨rfl, rfl, rfl, rfl⟩
  | @take taken s s' e h he ht ih =>
    obtain ⟨he, hsrc⟩ := (hn.mem_edgesFrom).mp he
    exact ih.take hn (h.journey.standing hn hv s Trail.last_mem_states) he hsrc
      (Edge.traverse_eq_ok.mp ht)

/-! ## The books of a state -/

/-- Whether a vertex is one where a vehicle of the pattern numbered `k` arrives or departs. -/
def Network.IsPassed (n : Network) (v : VertexId) (k : Nat) : Prop :=
  ∃ i, n.kindOf? v = some (.arrive k i) ∨ n.kindOf? v = some (.depart k i)

/-- What a state counts and remembers agrees with its vertex and with the edges taken. -/
structure Context.Booked (c : Context) (taken : List (Passage W)) (s : State W) : Prop where
  on_board_iff : s.isOnBoard = true ↔ ∃ k, c.network.IsPassed s.vertex k
  riding : ∀ k, c.network.IsPassed s.vertex k → ∃ p, c.network.patternAt? k = some p ∧
    s.trip = some p.trip ∧ s.previousTrip = some p.trip
  found : s.boardings = taken.countP (·.edge.finds c.arriveBy)
  left : s.boardings =
    taken.countP (·.edge.leaves c.arriveBy) + if s.isOnBoard then 1 else 0
  ever_iff : s.everBoarded = true ↔ 0 < s.boardings
  previous_iff : s.everBoarded = true ↔ s.previousTrip.isSome = true
  stop_iff : s.isOnBoard = false → (s.previousStop.isSome = true ↔ s.everBoarded = true)
  alighted_iff : s.isOnBoard = false → (s.lastAlighted.isSome = true ↔ s.everBoarded = true)
  last_left : s.isOnBoard = false → s.everBoarded = true → ∃ x stop, c.lastLeft? taken = some x ∧
    x.edge.stop? = some stop ∧ s.previousStop = some stop ∧ s.lastAlighted = some x.state.time
  in_time : (trailOf taken s).states.Pairwise fun x y => Sooner c.arriveBy x.time y.time
  ever_kept : (trailOf taken s).states.Pairwise fun x y =>
    x.everBoarded = true → y.everBoarded = true

omit [Weight W] in
theorem Context.OnFoot.not_isPassed (h : c.OnFoot s) (k : Nat) :
    ¬ c.network.IsPassed s.vertex k := by
  obtain ⟨κ, hκ, hground⟩ := h.ground
  rintro ⟨i, hi | hi⟩ <;> rw [hi, Option.some.injEq] at hκ <;> subst hκ <;> cases hground

omit [Weight W] in
theorem Context.Aboard.isPassed_iff {k l : Nat} {p : FrequencyPattern} (h : c.Aboard s k p) :
    c.network.IsPassed s.vertex l ↔ l = k := by
  obtain ⟨κ, t, hκ, ht⟩ := h.vertex_kind
  unfold Network.IsPassed
  rw [hκ]
  cases κ with
  | street | stop => cases ht
  | arrive m i | depart m i =>
    simp only [FrequencyPattern.timeAt?] at ht
    split_ifs at ht with hm
    subst hm
    constructor
    · rintro ⟨j, hj⟩
      have : m = l ∧ i = j := by simpa using hj
      exact this.1.symm
    · rintro rfl
      exact ⟨i, by simp⟩

omit [Weight W] in
theorem Context.Reached.isOnBoard_iff (h : c.Reached time s) :
    s.isOnBoard = true ↔ ∃ k, c.network.IsPassed s.vertex k := by
  rcases h.placed with hfoot | ⟨k, p, day, start, hrun⟩
  · rw [State.isOnBoard_eq_true]
    exact ⟨absurd hfoot.trip_eq, fun ⟨k, hk⟩ => absurd hk (hfoot.not_isPassed k)⟩
  · rw [State.isOnBoard_eq_true, hrun.trip_eq]
    exact ⟨fun _ => ⟨k, hrun.aboard.isPassed_iff.mpr rfl⟩, fun _ => nofun⟩

omit [Weight W] in
theorem Context.Reached.riding {k : Nat} (h : c.Reached time s)
    (hk : c.network.IsPassed s.vertex k) : ∃ p, c.network.patternAt? k = some p ∧
      s.trip = some p.trip ∧ s.previousTrip = some p.trip := by
  rcases h.placed with hfoot | ⟨l, p, day, start, hrun⟩
  · exact absurd hk (hfoot.not_isPassed k)
  · obtain rfl := hrun.aboard.isPassed_iff.mp hk
    exact ⟨p, hrun.pattern_eq, hrun.trip_eq, hrun.previous_eq⟩

omit [Weight W] in
theorem Context.Ledger.ever_iff (h : c.Ledger s) :
    (s.everBoarded = true ↔ 0 < s.boardings) ∧
      (s.everBoarded = true ↔ s.previousTrip.isSome = true) := by
  cases h with
  | unused hnever hzero _ hprevious => simp [hnever, hzero, hprevious]
  | used hever hpos _ hprevious => simp [hever, hpos, hprevious]

omit [Weight W] in
/-- Off board, what was left last is remembered from the first ride on. -/
theorem Context.Ledger.left_iff (h : c.Ledger s) (hoff : s.isOnBoard = false) :
    (s.previousStop.isSome = true ↔ s.everBoarded = true) ∧
      (s.lastAlighted.isSome = true ↔ s.everBoarded = true) := by
  cases h with
  | unused hnever _ _ _ hstop halighted => simp [hnever, hstop, halighted]
  | used hever _ _ _ hleft =>
    obtain ⟨stop, t, hstop, halighted, -⟩ := hleft (State.isOnBoard_eq_false.mp hoff)
    simp [hever, hstop, halighted]

omit [Weight W] in
/-- What is remembered was left by an edge. -/
theorem Context.Tally.last_left {stop : StopId} (h : c.Tally taken s)
    (hstop : s.previousStop = some stop) : ∃ x, c.lastLeft? taken = some x ∧
      x.edge.stop? = some stop ∧ s.lastAlighted = some x.state.time := by
  have hbind := h.stop_eq
  rw [hstop] at hbind
  obtain ⟨x, hx, hxstop⟩ := Option.bind_eq_some_iff.mp hbind.symm
  refine ⟨x, hx, hxstop, ?_⟩
  rw [h.alighted_eq, hx]
  rfl

/-- The books of a state are in order, on every chain of edges. -/
theorem NetworkDescription.boardings_are_booked {description : NetworkDescription} {n : Network}
    {zones : ZoneDatabase} (hb : description.build zones = .ok n)
    {conditions : Std.TreeMap EdgeId (List Exposure)}
    (hnet : c.network = { n with conditions := conditions })
    {v : VertexId} (hv : n.IsGround v) (h : c.Leads (State.origin v time c.request) taken s) :
    c.Booked taken s := by
  have hn : c.network.Wired := hnet ▸ (wired_of_build hb).withConditions conditions
  have hv : c.network.IsGround v := hnet ▸ hv
  have htally := h.tally hn hv
  have hprecedes := h.journey.precedes hn hv
  have hreached : c.Reached time s := h.journey.reached hn hv s Trail.last_mem_states
  obtain ⟨hever, hprevious⟩ := hreached.ledger.ever_iff
  refine ⟨hreached.isOnBoard_iff, fun _ => hreached.riding, htally.found, htally.left, hever,
    hprevious, fun hoff => (hreached.ledger.left_iff hoff).1,
    fun hoff => (hreached.ledger.left_iff hoff).2, fun hoff hever => ?_,
    hprecedes.imp (·.sooner), hprecedes.imp (·.ever_kept)⟩
  obtain ⟨stop, hstop⟩ := Option.isSome_iff_exists.mp
    ((hreached.ledger.left_iff hoff).1.mpr hever)
  obtain ⟨x, hx, hxstop, halighted⟩ := htally.last_left hstop
  exact ⟨x, stop, hx, hxstop, hstop, halighted⟩

/-- At the end of the second line. -/
theorem shuttle_booked : ∃ (t : Trial shuttle shuttleQuery {}) (taken : List (Passage Exact))
    (s : State Exact), t.network.IsGround shuttleQuery.origin ∧
      t.context.Leads (State.origin shuttleQuery.origin shuttleTime t.context.request) taken s ∧
        taken.length = 9 ∧ s.boardings = 2 ∧ t.context.Booked taken s := by
  have h : (shuttleTrial?.any fun t =>
      (t.network.kindOf? shuttleQuery.origin).any (·.isGround) && t.states.length == 10 &&
        t.last.boardings == 2) = true := by
    decide +kernel
  obtain ⟨t, -, h⟩ := (Option.any_eq_true _ _).mp h
  simp only [Bool.and_eq_true, beq_iff_eq] at h
  obtain ⟨⟨hground, hlength⟩, hboardings⟩ := h
  have hv := Network.isGround_of_any hground
  obtain ⟨trail, hstates, hlast⟩ := Trail.exists_states t.last_eq
  obtain ⟨taken, hleads, htaken⟩ := Context.Journey.leads (hstates.symm ▸ t.journey)
  rw [show shuttleQuery.begin = (State.origin shuttleQuery.origin shuttleTime
    t.context.request : State Exact) by rw [t.request_eq]; rfl] at hleads
  refine ⟨t, taken, trail.last, hv, hleads, ?_, hlast ▸ hboardings,
    NetworkDescription.boardings_are_booked t.build_eq t.network_eq hv hleads⟩
  have hcount : t.states.length = trail.earlier.length + 1 := by
    rw [← hstates]
    simp [Trail.states]
  rw [← htaken, List.length_map] at hcount
  omega

end JourneyPlanner
