import Mathlib.Data.List.Chain
import JourneyPlanner.Proofs.Journey.Step
import JourneyPlanner.Proofs.Network.Built

/-!
# Journeys

A journey is a list of states from an origin on the ground on, each a step behind the one before.
Every state of a journey stands on the ground or at an on-board vertex of the pattern that it rides
(`Context.Journey.standing`). On board it is on one run of the pattern, at the time at which the run
is at its vertex, and it remembers the vehicle left last (`Context.Journey.reached`).
-/

namespace JourneyPlanner

/-! ## What edges join -/

namespace Edge

variable (e : Edge) (b : Bool)

@[simp] theorem source_not : e.source (!b) = e.target b := by cases b <;> rfl

@[simp] theorem target_not : e.target (!b) = e.source b := by cases b <;> rfl

end Edge

theorem Network.mem_edges_of_mem_edgesFrom {n : Network} {e : Edge} {v : VertexId} {arriveBy : Bool}
    (h : e ∈ n.edgesFrom v arriveBy) : e ∈ n.edges := by
  have hadjacent : ∀ lists : Array (List EdgeId), e ∈ n.adjacent lists v → e ∈ n.edges := by
    intro lists h
    obtain ⟨i, -, hi⟩ := List.mem_filterMap.mp h
    exact Array.mem_of_getElem? hi
  unfold edgesFrom at h
  by_cases ha : arriveBy = true
  · rw [if_pos ha] at h
    exact hadjacent _ h
  · rw [if_neg ha] at h
    exact hadjacent _ h

/-- One on-board vertex of a pattern comes right after another. -/
inductive VertexKind.Follows : VertexKind → VertexKind → Prop
  | hop (k i : Nat) : Follows (.depart k i) (.arrive k (i + 1))
  | dwell (k i : Nat) : Follows (.arrive k i) (.depart k i)

/-- When a run is at an on-board vertex of the pattern numbered `k`, counted from its start. -/
def FrequencyPattern.timeAt? (p : FrequencyPattern) (k : Nat) : VertexKind → Option Int
  | .arrive l i => if l = k then p.stops[i]?.map (·.arrival) else none
  | .depart l i => if l = k then p.stops[i]?.map (·.departure) else none
  | _ => none

/-- The on-board vertex of a gate of the pattern numbered `k`. -/
def Gate.side (g : Gate) (k : Nat) : VertexKind :=
  if g.boarding then .depart k g.index else .arrive k g.index

theorem Gate.timeAt?_side {g : Gate} {k : Nat} {st : PatternStop}
    (h : g.pattern.stops[g.index]? = some st) :
    g.pattern.timeAt? k (g.side k) = some (st.met !g.boarding) := by
  unfold Gate.side PatternStop.met
  cases g.boarding <;> simp [FrequencyPattern.timeAt?, h]

theorem VertexKind.isGround_of_timeAt? {p : FrequencyPattern} {k : Nat} {κ : VertexKind} {t : Int}
    (h : p.timeAt? k κ = some t) : κ.isGround = false := by
  cases κ <;> first | rfl | cases h

theorem FrequencyPattern.eq_of_timeAt? {p q : FrequencyPattern} {k l : Nat} {κ : VertexKind}
    {t u : Int} (h : p.timeAt? k κ = some t) (h' : q.timeAt? l κ = some u) : k = l := by
  cases κ with
  | street | stop => cases h
  | arrive m i | depart m i =>
    simp only [timeAt?] at h h'
    split_ifs at h h' with hk hl
    exact hk.symm.trans hl

/-- Whether travellers at a vertex are off every vehicle. -/
def Network.IsGround (n : Network) (v : VertexId) : Prop :=
  ∃ κ, n.kindOf? v = some κ ∧ κ.isGround = true

theorem Network.isGround_of_any {n : Network} {v : VertexId}
    (h : (n.kindOf? v).any (·.isGround) = true) : n.IsGround v :=
  (Option.any_eq_true _ _).mp h

variable {n : Network} {e : Edge} {g : Gate}

theorem Network.IsGround.not_timeAt? {v : VertexId} (h : n.IsGround v) {κ : VertexKind}
    (hκ : n.kindOf? v = some κ) (p : FrequencyPattern) (k : Nat) : p.timeAt? k κ = none := by
  obtain ⟨κ', hκ', hg⟩ := h
  rw [hκ, Option.some.injEq] at hκ'
  subst hκ'
  cases ht : p.timeAt? k κ with
  | none => rfl
  | some t => rw [VertexKind.isGround_of_timeAt? ht] at hg; cases hg

theorem Network.IsGround.lt_size {v : VertexId} (h : n.IsGround v) :
    v < n.vertices.size := by
  obtain ⟨κ, hκ, -⟩ := h
  obtain ⟨x, hx, -⟩ := Option.map_eq_some_iff.mp hκ
  exact (Array.getElem?_eq_some_iff.mp hx).1

/-- A gate stands between a stop and an on-board vertex of its pattern. -/
theorem Network.Wired.gate (hn : n.Wired) (he : e ∈ n.edges) (hl : e.link = g.link) :
    ∃ k st, n.patternAt? k = some g.pattern ∧ g.pattern.stops[g.index]? = some st ∧
      n.kindOf? (e.source !g.boarding) = some (.stop st.stop) ∧
      n.kindOf? (e.target !g.boarding) = some (g.side k) := by
  obtain ⟨p, i, boarding⟩ := g
  have hj := hn.joins e he
  rw [hl] at hj
  unfold Gate.link at hj
  cases boarding with
  | true =>
    cases hj with
    | board hp hs _ ht hh => exact ⟨_, _, hp, hs, ht, hh⟩
  | false =>
    cases hj with
    | alight hp hs _ ht hh => exact ⟨_, _, hp, hs, hh, ht⟩

/-- An edge that stays on board leads to the next vertex of its pattern, and takes the time that
the vehicle takes. -/
theorem Network.Wired.stay (hn : n.Wired) (he : e ∈ n.edges) {integers : Integers}
    {p : FrequencyPattern} {seconds : Int} (hl : e.stay? integers = some (p, seconds)) :
    ∃ k κ κ' t t', n.patternAt? k = some p ∧ n.kindOf? e.tail = some κ ∧
      n.kindOf? e.head = some κ' ∧ κ.Follows κ' ∧ p.timeAt? k κ = some t ∧
      p.timeAt? k κ' = some t' ∧ seconds = t' - t := by
  have hj := hn.joins e he
  obtain ⟨hlink, hseconds⟩ := Edge.stay?_eq_some.mp hl
  unfold Edge.staySeconds at hseconds
  rcases hlink with ⟨i, j, hlink⟩ | ⟨i, hlink⟩
  · rw [hlink] at hj hseconds
    obtain ⟨ride?, hride, hseconds⟩ := bind_eq_ok.mp hseconds
    cases hj with
    | hop hp hlt ht hh =>
      have hi := List.getElem?_eq_getElem (Nat.lt_of_succ_lt hlt)
      have hj := List.getElem?_eq_getElem hlt
      refine ⟨_, _, _, p.stops[i].departure, p.stops[i + 1].arrival, hp, ht, hh, .hop _ _, ?_, ?_,
        ?_⟩
      · simp [FrequencyPattern.timeAt?, hi]
      · simp [FrequencyPattern.timeAt?, hj]
      · unfold FrequencyPattern.rideTime? at hride
        rw [hi, hj] at hride
        obtain ⟨ride, hfit, hride⟩ := bind_eq_ok.mp hride
        obtain ⟨-, rfl⟩ := Integers.fit_eq_ok.mp hfit
        rw [if_pos (Nat.lt_succ_self i)] at hride
        cases hride
        cases hseconds
        rfl
  · rw [hlink] at hj hseconds
    obtain ⟨wait?, hwait, hseconds⟩ := bind_eq_ok.mp hseconds
    cases hj with
    | dwell hp _ hlt ht hh =>
      have hi := List.getElem?_eq_getElem (Nat.lt_of_succ_lt hlt)
      refine ⟨_, _, _, p.stops[i].arrival, p.stops[i].departure, hp, ht, hh, .dwell _ _, ?_, ?_, ?_⟩
      · simp [FrequencyPattern.timeAt?, hi]
      · simp [FrequencyPattern.timeAt?, hi]
      · unfold FrequencyPattern.dwellTime? at hwait
        rcases optionMapM_eq_ok.mp hwait with ⟨hnone, -⟩ | ⟨st, wait, hst, hfit, rfl⟩
        · cases hi.symm.trans hnone
        · cases Option.some.inj (hi.symm.trans hst)
          obtain ⟨-, rfl⟩ := Integers.fit_eq_ok.mp hfit
          cases hseconds
          rfl

theorem Network.Wired.ground (hn : n.Wired) (he : e ∈ n.edges)
    (hl : e.link = .timedTransfer ∨ ∃ street, e.link = .street street) (b : Bool) :
    n.IsGround (e.source b) := by
  have hj := hn.joins e he
  have hends : n.IsGround e.tail ∧ n.IsGround e.head := by
    rcases hl with hl | ⟨street, hl⟩
    · rw [hl] at hj
      cases hj with
      | timedTransfer ht hh => exact ⟨⟨_, ht, rfl⟩, ⟨_, hh, rfl⟩⟩
    · rw [hl] at hj
      cases hj with
      | street ht hgt hh hgh => exact ⟨⟨_, ht, hgt⟩, ⟨_, hh, hgh⟩⟩
  cases b
  · exact hends.1
  · exact hends.2

theorem Network.Wired.ground_target (hn : n.Wired) (he : e ∈ n.edges)
    (hl : e.link = .timedTransfer ∨ ∃ street, e.link = .street street) (b : Bool) :
    n.IsGround (e.target b) := by
  rw [← Edge.source_not]
  exact hn.ground he hl !b

/-! ## Steps -/

variable {W : Type} [Weight W] {c : Context} {s s' : State W}

/-- An edge at the vertex of one state can be taken and leads to the other. -/
def Context.Step (c : Context) (s s' : State W) : Prop :=
  ∃ e ∈ c.network.edgesFrom s.vertex c.arriveBy, e.traverse s c = .ok s'

theorem Network.Wired.step_iff (hn : c.network.Wired) : c.Step s s' ↔
    ∃ e ∈ c.network.edges, e.source c.arriveBy = s.vertex ∧ c.Takes e s s' := by
  unfold Context.Step
  simp only [hn.mem_edgesFrom, Edge.traverse_eq_ok, and_assoc]

/-- The sort of the edges by which a search leaves vehicles. -/
def Context.leavingKind (c : Context) : EdgeKind := if c.arriveBy then .board else .alight

theorem Gate.kind_eq_leavingKind {g : Gate} (hside : g.boarding = c.arriveBy) :
    g.kind = c.leavingKind := by
  unfold Gate.kind Context.leavingKind
  rw [hside]

/-- One on-board vertex comes right after another in the direction of a search. -/
def VertexKind.Next (arriveBy : Bool) (κ κ' : VertexKind) : Prop :=
  if arriveBy then κ'.Follows κ else κ.Follows κ'

/-- The state is on the run of a pattern that starts at `start` seconds of a day, at the time at
which the run is at its vertex. -/
structure Context.OnRun (c : Context) (s : State W) (k : Nat) (p : FrequencyPattern)
    (day : ServiceDay) (start : Int) : Prop where
  pattern_eq : c.network.patternAt? k = some p
  trip_eq : s.trip = some p.trip
  previous_eq : s.previousTrip = some p.trip
  day_eq : s.serviceDay = some day
  day_mem : day ∈ c.days.toList
  day_runs : day.runs p.service = true
  starts : p.RunStarts start
  on_time : ∃ κ t, c.network.kindOf? s.vertex = some κ ∧ p.timeAt? k κ = some t ∧
    s.time = day.midnight + start + t
  not_leaving : s.cameBy c.leavingKind = false

/-- The state is on board of the pattern numbered `k`, at one of its vertices. -/
structure Context.Aboard (c : Context) (s : State W) (k : Nat) (p : FrequencyPattern) : Prop where
  pattern_eq : c.network.patternAt? k = some p
  trip_eq : s.trip = some p.trip
  vertex_kind : ∃ κ t, c.network.kindOf? s.vertex = some κ ∧ p.timeAt? k κ = some t

omit [Weight W] in
theorem Context.OnRun.aboard {k : Nat} {p : FrequencyPattern} {day : ServiceDay} {start : Int}
    (h : c.OnRun s k p day start) : c.Aboard s k p := by
  obtain ⟨κ, t, hκ, ht, -⟩ := h.on_time
  exact ⟨h.pattern_eq, h.trip_eq, κ, t, hκ, ht⟩

/-- The state is off every vehicle, at a vertex for that. -/
structure Context.OnFoot (c : Context) (s : State W) : Prop where
  trip_eq : s.trip = none
  ground : c.network.IsGround s.vertex

/-- Finding a vehicle of the pattern numbered `k`, by an edge of the network. -/
structure Context.FindsBy (c : Context) (e : Edge) (g : Gate) (s : State W) (k : Nat)
    (stop : StopId) (meeting wait : Int) (day : ServiceDay) (penalty : W) : Prop where
  link_eq : e.link = g.link
  side : g.boarding ≠ c.arriveBy
  finds : g.Finds s c stop meeting wait day penalty
  pattern_eq : c.network.patternAt? k = some g.pattern
  stop_kind : c.network.kindOf? s.vertex = some (.stop stop)
  side_kind : c.network.kindOf? (e.target c.arriveBy) = some (g.side k)

/-- Staying on a vehicle of the pattern numbered `k`, by an edge of the network from one of its
vertices to the next. -/
structure Context.StaysBy (c : Context) (e : Edge) (s : State W) (k : Nat) (p : FrequencyPattern)
    (κ κ' : VertexKind) (t t' seconds : Int) : Prop where
  link_eq : e.stay? c.integers = some (p, seconds)
  source_kind : c.network.kindOf? s.vertex = some κ
  source_time : p.timeAt? k κ = some t
  target_kind : c.network.kindOf? (e.target c.arriveBy) = some κ'
  target_time : p.timeAt? k κ' = some t'
  next : κ.Next c.arriveBy κ'
  seconds_eq : seconds = secondsTo c.arriveBy t t'
  nonneg : 0 ≤ seconds

/-- Leaving a vehicle of the pattern numbered `k`, by an edge of the network. -/
structure Context.LeavesBy (c : Context) (e : Edge) (g : Gate) (s : State W) (k : Nat)
    (stop : StopId) : Prop where
  link_eq : e.link = g.link
  side : g.boarding = c.arriveBy
  stop_eq : g.stop? = some stop
  access : g.access ≠ .notAvailable
  pattern_eq : c.network.patternAt? k = some g.pattern
  side_kind : c.network.kindOf? s.vertex = some (g.side k)
  stop_kind : c.network.kindOf? (e.target c.arriveBy) = some (.stop stop)

section

variable {k : Nat} {p : FrequencyPattern} {day : ServiceDay} {start : Int}

omit [Weight W] in
theorem Context.Aboard.not_ground (h : c.Aboard s k p) : ¬ c.network.IsGround s.vertex := by
  intro hg
  obtain ⟨κ, t, hκ, ht⟩ := h.vertex_kind
  rw [hg.not_timeAt? hκ] at ht
  cases ht

omit [Weight W] in
theorem Context.Aboard.not_find (hn : c.network.Wired) (h : c.Aboard s k p)
    (he : e ∈ c.network.edges) (hs : e.source c.arriveBy = s.vertex) (hl : e.link = g.link) :
    g.boarding = c.arriveBy := by
  by_contra hside
  obtain ⟨l, st, -, -, hstop, -⟩ := hn.gate he hl
  rw [Bool.eq_not.mpr hside, Bool.not_not, hs] at hstop
  exact h.not_ground ⟨_, hstop, rfl⟩

/-- On board one stays on the vehicle, to its next vertex, or leaves it. -/
theorem Context.Takes.aboard (hn : c.network.Wired) (h : c.Aboard s k p)
    (he : e ∈ c.network.edges) (hs : e.source c.arriveBy = s.vertex) (ht : c.Takes e s s') :
    (∃ κ κ' t t' seconds, c.StaysBy e s k p κ κ' t t' seconds ∧
      s' = e.moved s c seconds (Weight.ofInt seconds) p.mode) ∨
    ∃ g stop, c.LeavesBy e g s k stop ∧ s' = g.left e s c stop := by
  obtain ⟨κ, t, hκ, hκt⟩ := h.vertex_kind
  cases ht with
  | find hl hside _ => exact absurd (h.not_find hn he hs hl) hside
  | leave hl hside hfresh hexit haccess =>
    have hstop := hexit
    obtain ⟨l, st, hp, hst, hstop', hκ'⟩ := hn.gate he hl
    rw [hside, Edge.source_not] at hstop'
    rw [hside, Edge.target_not, hs] at hκ'
    rw [hκ, Option.some.injEq] at hκ'
    subst hκ'
    have hkl := FrequencyPattern.eq_of_timeAt? hκt (Gate.timeAt?_side (k := l) hst)
    rw [← hkl] at hp hκ
    unfold Gate.stop? at hstop
    rw [hst, Option.map_some, Option.some.injEq] at hstop
    rw [hstop] at hstop'
    exact .inr ⟨_, _, ⟨hl, hside, hexit, haccess, hp, hκ, hstop'⟩, rfl⟩
  | stay hl htrip hnonneg _ _ =>
    obtain ⟨l, κ₀, κ₁, t₀, t₁, hp, htail, hhead, hnext, ht₀, ht₁, hseconds⟩ := hn.stay he hl
    -- forward the edge is entered at its tail, backward at its head
    cases ha : c.arriveBy with
    | false =>
      rw [ha] at hs
      have hκ₀ : κ = κ₀ := Option.some.inj (hκ.symm.trans (hs ▸ htail))
      subst hκ₀
      obtain rfl := FrequencyPattern.eq_of_timeAt? hκt ht₀
      obtain rfl := Option.some.inj (h.pattern_eq.symm.trans hp)
      refine .inl ⟨_, _, _, _, _, ⟨hl, hκ, ht₀, ?_, ht₁, ?_, ?_, hnonneg⟩, rfl⟩ <;> rw [ha]
      · exact hhead
      · exact hnext
      · exact hseconds
    | true =>
      rw [ha] at hs
      have hκ₁ : κ = κ₁ := Option.some.inj (hκ.symm.trans (hs ▸ hhead))
      subst hκ₁
      obtain rfl := FrequencyPattern.eq_of_timeAt? hκt ht₁
      obtain rfl := Option.some.inj (h.pattern_eq.symm.trans hp)
      refine .inl ⟨_, _, _, _, _, ⟨hl, hκ, ht₁, ?_, ht₀, ?_, ?_, hnonneg⟩, rfl⟩ <;> rw [ha]
      · exact htail
      · exact hnext
      · exact hseconds
  | change hl _ => exact absurd (hs ▸ hn.ground he (.inl hl) c.arriveBy) h.not_ground
  | walk hl _ _ _ _ => exact absurd (hs ▸ hn.ground he (.inr ⟨_, hl⟩) c.arriveBy) h.not_ground

omit [Weight W] in
theorem Context.OnFoot.not_leave (hn : c.network.Wired) (h : c.OnFoot s)
    (he : e ∈ c.network.edges) (hs : e.source c.arriveBy = s.vertex) (hl : e.link = g.link) :
    g.boarding ≠ c.arriveBy := by
  intro hside
  obtain ⟨k, st, -, hst, -, hκ⟩ := hn.gate he hl
  rw [hside, Edge.target_not, hs] at hκ
  exact absurd ((h.ground.not_timeAt? hκ _ k).symm.trans (Gate.timeAt?_side hst)) nofun

/-- What is found at a gate of a network is a vehicle of one of its patterns. -/
theorem Gate.Finds.findsBy (hn : c.network.Wired) (he : e ∈ c.network.edges)
    (hs : e.source c.arriveBy = s.vertex) (hl : e.link = g.link) (hside : g.boarding ≠ c.arriveBy)
    {stop : StopId} {meeting wait : Int} {penalty : W}
    (h : g.Finds s c stop meeting wait day penalty) :
    ∃ k, c.FindsBy e g s k stop meeting wait day penalty := by
  obtain ⟨k, st, hp, hst, hstop, hκ⟩ := hn.gate he hl
  rw [Bool.eq_not.mpr hside, Bool.not_not] at hstop hκ
  rw [hs] at hstop
  have hexit := h.stop_eq
  unfold Gate.stop? at hexit
  rw [hst, Option.map_some, Option.some.injEq] at hexit
  rw [hexit] at hstop
  exact ⟨k, hl, hside, h, hp, hstop, hκ⟩

/-- On foot one finds a vehicle, or stays on the ground. -/
theorem Context.Takes.onFoot (hn : c.network.Wired) (h : c.OnFoot s) (he : e ∈ c.network.edges)
    (hs : e.source c.arriveBy = s.vertex) (ht : c.Takes e s s') :
    (∃ g k stop meeting wait day penalty, c.FindsBy e g s k stop meeting wait day penalty ∧
      s' = g.boarded e s c stop wait day (g.fare s c wait penalty)) ∨
    c.network.IsGround (e.target c.arriveBy) ∧ (s' = e.changed s c ∨
      ∃ seconds w mode, 0 ≤ seconds ∧ s' = e.moved s c seconds w mode) := by
  cases ht with
  | find hl hside hfinds =>
    obtain ⟨k, hfinds⟩ := hfinds.findsBy hn he hs hl hside
    exact .inl ⟨_, k, _, _, _, _, _, hfinds, rfl⟩
  | leave hl hside _ _ _ => exact absurd hside (h.not_leave hn he hs hl)
  | stay _ htrip _ _ _ => rw [h.trip_eq] at htrip; cases htrip
  | change hl _ => exact .inr ⟨hn.ground_target he (.inl hl) c.arriveBy, .inl rfl⟩
  | walk hl _ hnonneg _ _ =>
    exact .inr ⟨hn.ground_target he (.inr ⟨_, hl⟩) c.arriveBy, .inr ⟨_, _, _, hnonneg, rfl⟩⟩

/-! ## Runs -/

theorem Context.FindsBy.aboard {stop : StopId} {meeting wait : Int} {penalty : W}
    (h : c.FindsBy e g s k stop meeting wait day penalty) :
    c.Aboard (g.boarded e s c stop wait day (g.fare s c wait penalty)) k g.pattern := by
  obtain ⟨st, hst, -⟩ := Option.map_eq_some_iff.mp h.finds.stop_eq
  exact ⟨h.pattern_eq, rfl, _, _, h.side_kind, Gate.timeAt?_side hst⟩

theorem Context.Aboard.moved (h : c.Aboard s k p) {κ κ' : VertexKind} {t t' seconds : Int} {w : W}
    {mode : Mode} (hstays : c.StaysBy e s k p κ κ' t t' seconds) :
    c.Aboard (e.moved s c seconds w mode) k p :=
  ⟨h.pattern_eq, h.trip_eq, _, _, hstays.target_kind, hstays.target_time⟩

/-- On board of a vehicle found, one is on a run. -/
theorem Context.FindsBy.onRun {stop : StopId} {meeting wait : Int} {penalty : W}
    (ha : s.arriveBy = c.arriveBy) (h : c.FindsBy e g s k stop meeting wait day penalty) :
    ∃ start, c.OnRun (g.boarded e s c stop wait day (g.fare s c wait penalty)) k g.pattern day
      start := by
  obtain ⟨hday, hwait⟩ := Gate.exactVehicle?_mem (Gate.exactVehicle?_eq h.finds.vehicle_eq)
  obtain ⟨-, -, hruns, hit, hhit, hmet⟩ := Gate.exactWait?_eq_some.mp hwait
  obtain ⟨st, start, hst, hstart, rfl, -⟩ := Gate.exactTime?_spec hhit
  refine ⟨start, h.pattern_eq, rfl, rfl, rfl, hday, hruns, hstart,
    ⟨g.side k, _, h.side_kind, Gate.timeAt?_side hst, ?_⟩, ?_⟩
  · show onward s.arriveBy s.time wait = _
    rw [ha, hmet, ← Bool.eq_not.mpr (Ne.symm h.side), add_assoc]
  · show (some e.reference).any (·.kind == c.leavingKind) = false
    have hkind : e.reference.kind = g.link.kind := congrArg Link.kind h.link_eq
    have hside := h.side
    unfold Context.leavingKind
    rw [Option.any_some, hkind]
    unfold Gate.link
    cases hb : g.boarding <;> cases ha : c.arriveBy <;> simp_all [Link.kind]

theorem Context.OnRun.moved (ha : s.arriveBy = c.arriveBy) (h : c.OnRun s k p day start)
    {κ κ' : VertexKind} {t t' seconds : Int} {w : W} {mode : Mode}
    (hstays : c.StaysBy e s k p κ κ' t t' seconds) :
    c.OnRun (e.moved s c seconds w mode) k p day start := by
  refine ⟨h.pattern_eq, h.trip_eq, h.previous_eq, h.day_eq, h.day_mem, h.day_runs, h.starts,
    ⟨κ', t', hstays.target_kind, hstays.target_time, ?_⟩, ?_⟩
  · obtain ⟨κ₀, t₀, hκ₀, ht₀, htime⟩ := h.on_time
    obtain rfl := Option.some.inj (hstays.source_kind.symm.trans hκ₀)
    obtain rfl := Option.some.inj (hstays.source_time.symm.trans ht₀)
    show onward s.arriveBy s.time seconds = _
    rw [ha, htime, hstays.seconds_eq]
    unfold onward secondsTo
    split_ifs <;> omega
  · show (some e.reference).any (·.kind == c.leavingKind) = false
    unfold Context.leavingKind
    rw [Option.any_some]
    show (e.link.kind == _) = false
    rcases (Edge.stay?_eq_some.mp hstays.link_eq).1 with ⟨i, j, hl⟩ | ⟨i, hl⟩
    · rw [hl]; split_ifs <;> rfl
    · rw [hl]; split_ifs <;> rfl

end

/-! ## Every state of a journey -/

/-- What holds of every state that a search can reach, however it computes with integers. -/
structure Context.Standing (c : Context) (s : State W) : Prop where
  arriveBy_eq : s.arriveBy = c.arriveBy
  mode_eq : s.streetMode = c.request.initialMode
  placed : c.OnFoot s ∨ ∃ k p, c.Aboard s k p

omit [Weight W] in
theorem Context.Standing.onFoot (h : c.Standing s) (hs : s.trip = none) : c.OnFoot s := by
  rcases h.placed with h | ⟨k, p, h⟩
  · exact h
  · rw [h.trip_eq] at hs
    cases hs

omit [Weight W] in
theorem Context.Standing.aboard (h : c.Standing s) (hs : s.trip ≠ none) :
    ∃ k p, c.Aboard s k p := by
  rcases h.placed with h | h
  · exact absurd h.trip_eq hs
  · exact h

/-- A step leads from the ground or a vertex of a pattern to another of those. -/
theorem Context.Standing.step (hn : c.network.Wired) (h : c.Standing s) (hs : c.Step s s') :
    c.Standing s' := by
  obtain ⟨e, he, hsrc, ht⟩ := hn.step_iff.mp hs
  rcases h.placed with hfoot | ⟨k, p, haboard⟩
  · rcases ht.onFoot hn hfoot he hsrc with
      ⟨g, k, stop, meeting, wait, day, penalty, hfinds, rfl⟩ | ⟨hground, rfl | ⟨_, _, _, -, rfl⟩⟩
    · exact ⟨h.arriveBy_eq, h.mode_eq, .inr ⟨_, _, hfinds.aboard⟩⟩
    · exact ⟨h.arriveBy_eq, h.mode_eq, .inl ⟨hfoot.trip_eq, hground⟩⟩
    · exact ⟨h.arriveBy_eq, h.mode_eq, .inl ⟨hfoot.trip_eq, hground⟩⟩
  · rcases ht.aboard hn haboard he hsrc with
      ⟨κ, κ', t, t', seconds, hstays, rfl⟩ | ⟨g, stop, hleaves, rfl⟩
    · exact ⟨h.arriveBy_eq, h.mode_eq, .inr ⟨_, _, haboard.moved hstays⟩⟩
    · exact ⟨h.arriveBy_eq, h.mode_eq, .inl ⟨rfl, _, hleaves.stop_kind, rfl⟩⟩

/-- What a state remembers of the vehicles ridden so far. -/
inductive Context.Ledger (c : Context) (s : State W) : Prop
  | unused (never : s.everBoarded = false) (boardings_eq : s.boardings = 0)
      (trip_eq : s.trip = none)
      (previous_eq : s.previousTrip = none) (stop_eq : s.previousStop = none)
      (alighted_eq : s.lastAlighted = none)
  | used {k : Nat} {p : FrequencyPattern} (ever : s.everBoarded = true)
      (boardings_pos : 0 < s.boardings) (pattern_eq : c.network.patternAt? k = some p)
      (previous_eq : s.previousTrip = some p.trip)
      (left : s.trip = none → ∃ stop time, s.previousStop = some stop ∧
        s.lastAlighted = some time ∧ Sooner c.arriveBy time s.time)

/-- What holds of every state that a search from a time can reach. -/
structure Context.Reached (c : Context) (time : Int) (s : State W) : Prop where
  arriveBy_eq : s.arriveBy = c.arriveBy
  mode_eq : s.streetMode = c.request.initialMode
  since : Sooner c.arriveBy time s.time
  placed : c.OnFoot s ∨ ∃ k p day start, c.OnRun s k p day start
  ledger : c.Ledger s
  arrived : s.everBoarded = true →
    ∃ e ∈ c.network.edges, s.backEdge = some e.reference ∧ e.target c.arriveBy = s.vertex

omit [Weight W] in
theorem Context.Reached.standing {time : Int} (h : c.Reached time s) : c.Standing s := by
  refine ⟨h.arriveBy_eq, h.mode_eq, h.placed.imp id ?_⟩
  rintro ⟨k, p, day, start, hrun⟩
  exact ⟨k, p, hrun.aboard⟩

omit [Weight W] in
theorem Context.Reached.onFoot {time : Int} (h : c.Reached time s) (hs : s.trip = none) :
    c.OnFoot s := h.standing.onFoot hs

omit [Weight W] in
theorem Context.Reached.onRun {time : Int} (h : c.Reached time s) (hs : s.trip ≠ none) :
    ∃ k p day start, c.OnRun s k p day start := by
  rcases h.placed with h | h
  · exact absurd h.trip_eq hs
  · exact h

/-- Whether two states remember the same rides. -/
structure State.SameRides (s' s : State W) : Prop where
  ever_eq : s'.everBoarded = s.everBoarded
  boardings_eq : s'.boardings = s.boardings
  trip_eq : s'.trip = s.trip
  previous_eq : s'.previousTrip = s.previousTrip
  stop_eq : s'.previousStop = s.previousStop
  alighted_eq : s'.lastAlighted = s.lastAlighted

theorem Edge.sameRides_moved {seconds : Int} {w : W} {mode : Mode} :
    (e.moved s c seconds w mode).SameRides s := ⟨rfl, rfl, rfl, rfl, rfl, rfl⟩

omit [Weight W] in
theorem Edge.sameRides_changed : (e.changed s c).SameRides s := ⟨rfl, rfl, rfl, rfl, rfl, rfl⟩

omit [Weight W] in
theorem Context.Ledger.keep (h : c.Ledger s) (hf : s.trip = none) (hsame : s'.SameRides s)
    (htime : Sooner c.arriveBy s.time s'.time) : c.Ledger s' := by
  cases h with
  | unused h₁ h₂ h₃ h₄ h₅ h₆ =>
    exact .unused (hsame.ever_eq.trans h₁) (hsame.boardings_eq.trans h₂) (hsame.trip_eq.trans h₃)
      (hsame.previous_eq.trans h₄) (hsame.stop_eq.trans h₅) (hsame.alighted_eq.trans h₆)
  | used h₁ h₂ h₃ h₄ h₅ =>
    refine .used (hsame.ever_eq.trans h₁) (hsame.boardings_eq ▸ h₂) h₃
      (hsame.previous_eq.trans h₄) fun _ => ?_
    obtain ⟨stop, time, hs, ha, ht⟩ := h₅ hf
    exact ⟨stop, time, hsame.stop_eq.trans hs, hsame.alighted_eq.trans ha, ht.trans htime⟩

/-- A step keeps what holds of the states of a journey. -/
theorem Context.Reached.step {time : Int} (hn : c.network.Wired) (h : c.Reached time s)
    (hs : c.Step s s') : c.Reached time s' := by
  obtain ⟨e, he, hsrc, ht⟩ := hn.step_iff.mp hs
  have ha := h.arriveBy_eq
  have honward : ∀ seconds : Int, 0 ≤ seconds →
      Sooner c.arriveBy s.time (onward s.arriveBy s.time seconds) := by
    intro seconds hseconds
    rw [ha]
    exact sooner_onward hseconds
  rcases h.placed with hfoot | ⟨k, p, day, start, hrun⟩
  · rcases ht.onFoot hn hfoot he hsrc with
      ⟨g, k, stop, meeting, wait, day, penalty, hfinds, rfl⟩ | ⟨hground, hgo⟩
    · obtain ⟨start, hrun⟩ := hfinds.onRun ha
      exact ⟨ha, h.mode_eq, h.since.trans (honward _ hfinds.finds.wait_nonneg),
        .inr ⟨_, _, _, _, hrun⟩, .used rfl (Nat.succ_pos _) hfinds.pattern_eq rfl nofun,
        fun _ => ⟨e, he, rfl, rfl⟩⟩
    · rcases hgo with rfl | ⟨seconds, w, mode, hnonneg, rfl⟩
      · exact ⟨ha, h.mode_eq, h.since, .inl ⟨hfoot.trip_eq, hground⟩,
          h.ledger.keep hfoot.trip_eq e.sameRides_changed (.refl _ _),
          fun _ => ⟨e, he, rfl, rfl⟩⟩
      · exact ⟨ha, h.mode_eq, h.since.trans (honward _ hnonneg), .inl ⟨hfoot.trip_eq, hground⟩,
          h.ledger.keep hfoot.trip_eq e.sameRides_moved (honward _ hnonneg),
          fun _ => ⟨e, he, rfl, rfl⟩⟩
  · obtain ⟨hever, hboardings⟩ : s.everBoarded = true ∧ 0 < s.boardings := by
      cases h.ledger with
      | unused _ _ htrip => rw [hrun.trip_eq] at htrip; cases htrip
      | used h₁ h₂ => exact ⟨h₁, h₂⟩
    rcases ht.aboard hn hrun.aboard he hsrc with
      ⟨κ, κ', t, t', seconds, hstays, rfl⟩ | ⟨g, stop, hleaves, rfl⟩
    · exact ⟨ha, h.mode_eq, h.since.trans (honward _ hstays.nonneg),
        .inr ⟨_, _, _, _, hrun.moved ha hstays⟩,
        .used hever hboardings hrun.pattern_eq hrun.previous_eq
          (fun hnone => absurd (hrun.trip_eq.symm.trans hnone) nofun),
        fun _ => ⟨e, he, rfl, rfl⟩⟩
    · exact ⟨ha, h.mode_eq, h.since, .inl ⟨rfl, _, hleaves.stop_kind, rfl⟩,
        .used hever hboardings hrun.pattern_eq hrun.previous_eq
          fun _ => ⟨stop, s.time, rfl, rfl, .refl _ _⟩,
        fun _ => ⟨e, he, rfl, rfl⟩⟩

theorem Context.standing_origin {v : VertexId} {time : Int} (hv : c.network.IsGround v) :
    c.Standing (State.origin v time c.request : State W) :=
  ⟨rfl, rfl, .inl ⟨rfl, hv⟩⟩

theorem Context.reached_origin {v : VertexId} {time : Int} (hv : c.network.IsGround v) :
    c.Reached time (State.origin v time c.request : State W) :=
  ⟨rfl, rfl, .refl _ _, .inl ⟨rfl, hv⟩, .unused rfl rfl rfl rfl rfl rfl, nofun⟩

/-- States from an origin on, each a step behind the one before. -/
structure Context.Journey (c : Context) (origin : State W) (l : List (State W)) : Prop where
  head_eq : l.head? = some origin
  chain : l.IsChain c.Step

theorem Context.Journey.forall_of_step {origin : State W} {l : List (State W)} {P : State W → Prop}
    (h : c.Journey origin l) (h₀ : P origin)
    (hstep : ∀ s ∈ l, ∀ y ∈ l, c.Step s y → P s → P y) : ∀ s ∈ l, P s := by
  have hchain : l.IsChain fun s y => P s → P y := List.isChain_iff_getElem.mpr fun i hi =>
    hstep _ (List.getElem_mem _) _ (List.getElem_mem hi) (List.isChain_iff_getElem.mp h.chain i hi)
  refine hchain.induction _ _ (fun _ _ hsy hs => hsy hs) fun hne => ?_
  have := h.head_eq
  rw [List.head?_eq_some_head hne, Option.some.injEq] at this
  rw [this]
  exact h₀

/-- What holds at the end of a journey and is kept by its steps backward holds all along. -/
theorem Context.Journey.forall_of_step_back {origin last : State W} {l : List (State W)}
    {P : State W → Prop} (h : c.Journey origin l) (hlast : l.getLast? = some last) (h₀ : P last)
    (hstep : ∀ s ∈ l, ∀ y ∈ l, c.Step s y → P y → P s) : ∀ s ∈ l, P s := by
  have hchain : l.IsChain fun s y => P y → P s := List.isChain_iff_getElem.mpr fun i hi =>
    hstep _ (List.getElem_mem _) _ (List.getElem_mem hi) (List.isChain_iff_getElem.mp h.chain i hi)
  refine hchain.backwards_induction _ _ (fun _ _ hsy hy => hsy hy) fun hne => ?_
  rw [List.getLast?_eq_some_getLast hne, Option.some.injEq] at hlast
  rw [hlast]
  exact h₀

theorem Context.Journey.standing {v : VertexId} {time : Int} {l : List (State W)}
    (hn : c.network.Wired) (hv : c.network.IsGround v)
    (h : c.Journey (State.origin v time c.request) l) : ∀ s ∈ l, c.Standing s :=
  h.forall_of_step (Context.standing_origin hv) fun _ _ _ _ hs hst => hst.step hn hs

theorem Context.Journey.reached {v : VertexId} {time : Int} {l : List (State W)}
    (hn : c.network.Wired) (hv : c.network.IsGround v)
    (h : c.Journey (State.origin v time c.request) l) : ∀ s ∈ l, c.Reached time s :=
  h.forall_of_step (Context.reached_origin hv) fun _ _ _ _ hs hr => hr.step hn hs

/-- The states reached by taking at each vertex the edge of the given position there. -/
def Context.follow (c : Context) (s : State W) : List Nat → Option (List (State W))
  | [] => some [s]
  | i :: rest =>
    match (c.network.edgesFrom s.vertex c.arriveBy)[i]? with
    | none => none
    | some e =>
      match e.traverse s c with
      | .error _ => none
      | .ok s' => (c.follow s' rest).map (s :: ·)

theorem Context.journey_of_follow : ∀ {choices : List Nat} {s : State W} {l : List (State W)},
    c.follow s choices = some l → c.Journey s l
  | [], s, l, h => by
    cases h
    exact ⟨rfl, .singleton s⟩
  | i :: rest, s, l, h => by
    unfold follow at h
    cases he : (c.network.edgesFrom s.vertex c.arriveBy)[i]? with
    | none => rw [he] at h; cases h
    | some e =>
      simp only [he] at h
      cases ht : e.traverse s c with
      | error r => rw [ht] at h; cases h
      | ok s' =>
        simp only [ht] at h
        obtain ⟨l', hl', rfl⟩ := Option.map_eq_some_iff.mp h
        obtain ⟨hhead, hchain⟩ := journey_of_follow hl'
        refine ⟨rfl, List.isChain_cons.mpr ⟨fun y hy => ?_, hchain⟩⟩
        rw [hhead, Option.mem_some_iff] at hy
        exact ⟨e, List.mem_of_getElem? he, hy ▸ ht⟩

end JourneyPlanner
