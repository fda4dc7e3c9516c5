import JourneyPlanner.Proofs.Search.CheapestFirst
import JourneyPlanner.Proofs.Search.Optimality

/-!
# The bounds of single edges

From every state that comes from an origin of the request, taking an edge takes no less time than
its bound, adds no less weight than its bound unless it is the one that leaves the vehicle, and
fails where a bound is infinite (`Context.edge_bounds_sound`). Each kind of step has its own reason:
a vehicle that is found runs on one of the days, seconds on board are those of the bound, and a
street is taken in the mode that the search begins in, at no more than the greatest speed.
-/

namespace JourneyPlanner

variable {c : Context} {g : Gate} {e : Edge} {s s' : State Exact}

/-! ## States that come from an origin -/

/-- What holds of every state that comes from an origin of the request, where streets fit. -/
structure Context.Derived (c : Context) (s : State Exact) : Prop where
  arriveBy_eq : s.arriveBy = c.arriveBy
  mode_eq : s.streetMode = c.request.initialMode
  finite : ∃ w, s.weight = .finite w

theorem Context.derived_origin (v : VertexId) (time : Int) :
    c.Derived (State.origin v time c.request) :=
  ⟨rfl, rfl, 0, Exact.zero_eq⟩

theorem Context.Derived.step (hr : c.request.Regular) (hfit : c.StreetsFit) (hs : c.Derived s)
    (hstep : c.Step s s') : c.Derived s' := by
  obtain ⟨e, he, ht⟩ := hstep
  have ht := Edge.traverse_eq_ok.mp ht
  obtain ⟨w, hw⟩ := hs.finite
  exact ⟨ht.arriveBy_eq.trans hs.arriveBy_eq, ht.streetMode_eq.trans hs.mode_eq,
    ht.weight_finite hr hfit hs.mode_eq (Network.mem_edges_of_mem_edgesFrom he) hw⟩

theorem Context.Journey.derived {v : VertexId} {time : Int} {l : List (State Exact)}
    (hr : c.request.Regular) (hfit : c.StreetsFit)
    (hj : c.Journey (State.origin v time c.request) l) : ∀ s ∈ l, c.Derived s :=
  hj.forall_of_step (Context.derived_origin v time) fun _ _ _ _ hstep hs => hs.step hr hfit hstep

theorem Context.Derived.secondsTo_eq (hs : c.Derived s) (seconds : Int) :
    secondsTo c.arriveBy s.time (onward s.arriveBy s.time seconds) = seconds := by
  rw [hs.arriveBy_eq]
  exact secondsTo_onward.trans (by rw [secondsTo_self, zero_add])

/-! ## The bounds of each kind of edge -/

theorem Edge.timeBound_of_gate (hl : e.link = g.link) : (e.timeBound c : Exact) =
    if g.boarding = c.arriveBy then Weight.zero else g.pattern.reachBound c := by
  obtain ⟨p, i, boarding⟩ := g
  unfold Edge.timeBound
  rw [hl]
  cases boarding <;> cases c.arriveBy <;> rfl

theorem Edge.kind_of_gate (hl : e.link = g.link) : e.kind = g.kind := by
  obtain ⟨p, i, boarding⟩ := g
  unfold Edge.kind
  rw [hl]
  cases boarding <;> rfl

theorem Edge.timeBound_of_stay {p : FrequencyPattern} {seconds : Int}
    (h : e.stay? c.integers = some (p, seconds)) : e.timeBound c = Exact.finite seconds := by
  obtain ⟨hlink, hseconds⟩ := Edge.stay?_eq_some.mp h
  unfold Edge.timeBound
  rcases hlink with ⟨i, j, hl⟩ | ⟨i, hl⟩
  · rw [hl, ← Edge.exactStay_eq hseconds]
    rfl
  · rw [hl, ← Edge.exactStay_eq hseconds]
    rfl

theorem Edge.timeBound_of_street {street : Street} (hl : e.link = .street street) :
    (e.timeBound c : Exact) = street.timeBound c := by
  unfold Edge.timeBound
  rw [hl]

theorem Exact.truncate_of_fits {n : Int}
    (hfit : Weight.less (Weight.ofInt Int64.maxValue.toInt) (finite n) = false)
    (h0 : 0 ≤ (Weight.truncate (finite n) : Int)) :
    0 ≤ n ∧ (Weight.truncate (finite n) : Int) = n := by
  have hmax : Int64.maxValue.toInt = 2 ^ 63 - 1 := by decide
  rw [Bool.eq_false_iff, Ne, Exact.ofInt_eq, Exact.less_finite, Int.cast_lt, hmax] at hfit
  rw [truncate_of_int] at h0 ⊢
  omega

/-- A street is bounded by its whole seconds, and by what they weigh. -/
theorem Street.bounds_le {street : Street} (hr : c.request.Regular) (hl : e.link = .street street)
    (h : Weight.ofFloat street.length = Exact.finite (Exact.number street.length))
    (h0 : 0 ≤ street.wholeSeconds c.request c.request.initialMode) :
    ∃ β γ, e.timeBound c = Exact.finite β ∧ e.weightBound c = Exact.finite γ ∧
      β ≤ street.wholeSeconds c.request c.request.initialMode ∧
      γ ≤ street.wholeSeconds c.request c.request.initialMode *
        c.request.streetRate c.request.initialMode := by
  obtain ⟨σ, ρ, hσ0, hσle, hρ0, hρle, hβ, hγ⟩ := Street.bounds_eq hr hl h
  have hn0 : (0 : ℚ) ≤ street.wholeSeconds c.request c.request.initialMode := by exact_mod_cast h0
  have hle : Exact.number street.length * σ ≤
      street.wholeSeconds c.request c.request.initialMode := by
    rcases le_total 0 (Exact.number street.length) with hlen | hlen
    · exact (mul_le_mul_of_nonneg_left hσle hlen).trans (Int.le_ceil _)
    · exact (mul_nonpos_of_nonpos_of_nonneg hlen hσ0).trans hn0
  exact ⟨_, _, (Edge.timeBound_of_street hl).trans hβ, hγ, hle,
    (mul_le_mul_of_nonneg_right hle hρ0).trans (mul_le_mul_of_nonneg_left hρle hn0)⟩

/-! ## Taking an edge -/

/-- Whether both bounds of an edge are numbers, that on time no more than some seconds, and that on
weight no more than some weight unless the edge leaves a vehicle. -/
structure Edge.Bounded (e : Edge) (c : Context) (seconds : Int) (w : ℚ) : Prop where
  time : ∃ β : ℚ, e.timeBound c = Exact.finite β ∧ β ≤ seconds
  weight : ∃ γ : ℚ, e.weightBound c = Exact.finite γ ∧ (e.kind ≠ c.leavingKind → γ ≤ w)

section

variable (hr : c.request.Regular) (hs : c.Derived s)

include hr hs

/-- A street that is taken keeps to its bounds. -/
theorem Context.Derived.bounded_walk {street : Street} (hfit : e.fits c = true)
    (hl : e.link = .street street)
    (hnonneg : 0 ≤ Weight.truncate (street.seconds c s.streetMode : Exact))
    (hcharge : Weight.IsCharge
      (c.request.streetWeight (street.seconds c s.streetMode : Exact) s.streetMode)) :
    ∃ w, c.request.streetWeight (street.seconds c s.streetMode) s.streetMode = Exact.finite w ∧
      e.Bounded c (Weight.truncate (street.seconds c s.streetMode : Exact)) w := by
  rw [hs.mode_eq] at hnonneg hcharge ⊢
  obtain ⟨w, -, hw⟩ := Street.charge_finite hr hfit hl hcharge
  obtain ⟨hlength, hwhole, hrate⟩ := Street.charge_eq hr hw
  unfold Edge.fits at hfit
  rw [hl] at hfit
  simp only [hwhole, Bool.not_eq_true'] at hfit
  rw [hwhole] at hnonneg
  obtain ⟨h0, htruncate⟩ := Exact.truncate_of_fits hfit hnonneg
  obtain ⟨β, γ, hβ, hγ, hβle, hγle⟩ := Street.bounds_le (e := e) hr hl hlength h0
  refine ⟨w, hw, ⟨β, hβ, ?_⟩, γ, hγ, fun _ => hrate ▸ hγle⟩
  rw [hwhole, htruncate]
  exact hβle

omit hs in
/-- A vehicle that is found keeps to the bounds of its gate. -/
theorem Gate.Finds.bounded {stop : StopId} {meeting wait : Int} {day : ServiceDay}
    {penalty : Exact} (hl : e.link = g.link) (hside : g.boarding ≠ c.arriveBy)
    (h : g.Finds s c stop meeting wait day penalty) :
    ∃ w, g.fare s c wait penalty = .finite w ∧ e.Bounded c wait w := by
  obtain ⟨t, -, rfl⟩ := penalty_of_checkTransfer hr h.transfer_eq
  have hfare : g.fare s c wait (.finite t) = _ := Gate.fare_eq hr
  have hcharge := Exact.isCharge_iff.mp h.charge
  rw [hfare] at hcharge
  refine ⟨_, hfare, ⟨0, ?_, by exact_mod_cast h.wait_nonneg⟩, 0, h.weightBound hl hside,
    fun _ => Exact.nonneg_finite.mp hcharge⟩
  rw [Edge.timeBound_of_gate hl, if_neg hside, h.reachBound]

/-- Whatever step is taken, it keeps to the bounds of its edge. -/
theorem Context.Takes.bounded (hfit : e.fits c = true) (h : c.Takes e s s') :
    ∃ w₀ w, s.weight = .finite w₀ ∧ s'.weight = .finite w ∧
      e.Bounded c (secondsTo c.arriveBy s.time s'.time) (w - w₀) := by
  have hmoved := hs.secondsTo_eq
  obtain ⟨w₀, hw₀⟩ := hs.finite
  -- what is added to a weight is the difference of the two
  have hadded : ∀ {w : ℚ} {seconds : Int}, e.Bounded c seconds w →
      e.Bounded c seconds (w₀ + w - w₀) := fun h => by rwa [add_sub_cancel_left]
  cases h with
  | @find g stop meeting wait day penalty hl hside hfinds =>
    obtain ⟨w, hw, hbounded⟩ := hfinds.bounded hr hl hside
    refine ⟨w₀, w₀ + w, hw₀, ?_, ?_⟩
    · show s.weight + g.fare s c wait penalty = _
      rw [hw₀, hw, Exact.finite_add_finite]
    · show e.Bounded c (secondsTo _ _ (onward _ _ wait)) _
      rw [hmoved]
      exact hadded hbounded
  | @leave g stop hl hside _ _ _ =>
    refine ⟨w₀, w₀, hw₀, hw₀, ⟨0, ?_, ?_⟩, _, Edge.weightBound_of_leave hr hl hside,
      fun hkind => ?_⟩
    · rw [Edge.timeBound_of_gate hl, if_pos hside, Exact.zero_eq]
    · show (0 : ℚ) ≤ (secondsTo c.arriveBy s.time s.time : Int)
      rw [secondsTo_self, Int.cast_zero]
    · exact absurd ((Edge.kind_of_gate hl).trans (Gate.kind_eq_leavingKind hside)) hkind
  | @stay p seconds hl =>
    refine ⟨w₀, w₀ + seconds, hw₀, ?_, ?_⟩
    · show s.weight + Exact.finite seconds = _
      rw [hw₀, Exact.finite_add_finite]
    · show e.Bounded c (secondsTo _ _ (onward _ _ seconds)) _
      rw [hmoved]
      exact hadded ⟨⟨_, Edge.timeBound_of_stay hl, le_refl _⟩, _, Edge.weightBound_of_stay hl,
        fun _ => le_refl _⟩
  | change hl _ =>
    refine ⟨w₀, w₀, hw₀, hw₀, ⟨0, ?_, ?_⟩, 0, ?_, fun _ => (sub_self w₀).ge⟩
    · unfold Edge.timeBound
      rw [hl]
      exact Exact.zero_eq
    · show (0 : ℚ) ≤ (secondsTo c.arriveBy s.time s.time : Int)
      rw [secondsTo_self, Int.cast_zero]
    · unfold Edge.weightBound
      rw [hl]
      exact Exact.zero_eq
  | @walk street hl _ hnonneg hcharge _ =>
    obtain ⟨w, hw, hbounded⟩ := hs.bounded_walk hr hfit hl hnonneg hcharge
    refine ⟨w₀, w₀ + w, hw₀, ?_, ?_⟩
    · show s.weight + c.request.streetWeight _ _ = _
      rw [hw₀, hw, Exact.finite_add_finite]
    · show e.Bounded c (secondsTo _ _ (onward _ _ _)) _
      rw [hmoved]
      exact hadded hbounded

end

/-- The bounds of edges are sound. From a state that comes from an origin of the request, an edge
that can be taken takes no less time than its bound, and adds no less weight than its bound unless
it leaves a vehicle; an edge with an infinite bound cannot be taken. -/
theorem Context.edge_bounds_sound (hr : c.request.Regular) (hfit : c.StreetsFit) {v : VertexId}
    {time : Int} {l : List (State Exact)} (hj : c.Journey (State.origin v time c.request) l)
    (hs : s ∈ l) (he : e ∈ c.network.edges) :
    (∀ s', e.traverse s c = .ok s' →
      Weight.atMost (e.timeBound c : Exact)
        (Weight.ofInt (secondsTo c.arriveBy s.time s'.time)) = true) ∧
    ((e.timeBound c : Exact) = Weight.infinity ∨ (e.weightBound c : Exact) = Weight.infinity →
      ∃ r, e.traverse s c = .error r) ∧
    (e.kind ≠ c.leavingKind → ∀ s', e.traverse s c = .ok s' →
      Weight.atMost (e.weightBound c : Exact) (s'.weight - s.weight) = true) := by
  have hbounded : ∀ s', e.traverse s c = .ok s' → ∃ w₀ w, s.weight = .finite w₀ ∧
      s'.weight = .finite w ∧ e.Bounded c (secondsTo c.arriveBy s.time s'.time) (w - w₀) :=
    fun s' ht => (Edge.traverse_eq_ok.mp ht).bounded hr (hj.derived hr hfit s hs) (hfit e he)
  refine ⟨fun s' ht => ?_, fun hinf => ?_, fun hkind s' ht => ?_⟩
  · obtain ⟨w₀, w, -, -, ⟨β, hβ, hle⟩, -⟩ := hbounded s' ht
    rw [hβ, Exact.ofInt_eq, Exact.atMost_finite]
    exact hle
  · cases ht : e.traverse s c with
    | error r => exact ⟨r, rfl⟩
    | ok s' =>
      obtain ⟨w₀, w, -, -, ⟨β, hβ, -⟩, γ, hγ, -⟩ := hbounded s' ht
      rw [hβ, hγ] at hinf
      rcases hinf with hinf | hinf <;> cases hinf
  · obtain ⟨w₀, w, hw₀, hw, -, γ, hγ, hle⟩ := hbounded s' ht
    rw [hγ, hw, hw₀, Exact.finite_sub_finite, Exact.atMost_finite]
    exact hle hkind

/-- By bus only, from home to the end of the first line. -/
def busQuery : Query where
  start := 4
  goal := 2
  time := shuttleTime
  request := { modes := .ofList [.walk, .bus] }

/-- The lane from home keeps to its bounds. At the end of the line the tram would go on, but trams
are not allowed, so that its bound is infinite and one cannot board. -/
theorem shuttle_edge_bounds : ∃ (t : Trial shuttle busQuery {}) (s s' z : State Exact) (e f : Edge),
    t.context.request.Regular ∧ t.context.StreetsFit ∧
    s ∈ t.states ∧ e ∈ t.context.network.edges ∧ e.kind = .street ∧
    e.traverse s t.context = .ok s' ∧
    Weight.atMost (e.timeBound t.context : Exact)
      (Weight.ofInt (secondsTo t.context.arriveBy s.time s'.time)) = true ∧
    Weight.atMost (e.weightBound t.context : Exact) (s'.weight - s.weight) = true ∧
    z ∈ t.states ∧ f ∈ t.context.network.edges ∧ f.source t.context.arriveBy = z.vertex ∧
    (f.timeBound t.context : Exact) = Weight.infinity ∧ ∃ r, f.traverse z t.context = .error r := by
  have h : ((Trial.run? shuttle busQuery {} [0, 1, 0, 1, 0, 0]).any fun t =>
      decide t.context.request.Regular && t.context.network.edges.all (Edge.fits t.context) &&
      t.states.any fun s => t.context.network.edges.any fun e =>
        e.kind == .street && (e.traverse s t.context).toOption.isSome &&
      t.states.any fun z => t.context.network.edges.any fun f =>
        f.source t.context.arriveBy == z.vertex &&
          decide ((f.timeBound t.context : Exact) = Weight.infinity)) = true := by
    decide +kernel
  obtain ⟨t, -, h⟩ := (Option.any_eq_true _ _).mp h
  simp only [Bool.and_eq_true, decide_eq_true_eq] at h
  obtain ⟨⟨hr, hfit⟩, h⟩ := h
  obtain ⟨s, hs, h⟩ := List.any_eq_true.mp h
  obtain ⟨e, he, h⟩ := Array.any_eq_true'.mp h
  simp only [Bool.and_eq_true, beq_iff_eq] at h
  obtain ⟨⟨hkind, hok⟩, h⟩ := h
  obtain ⟨z, hz, h⟩ := List.any_eq_true.mp h
  obtain ⟨f, hf, h⟩ := Array.any_eq_true'.mp h
  simp only [Bool.and_eq_true, beq_iff_eq, decide_eq_true_eq] at h
  obtain ⟨s', hs'⟩ := Option.isSome_iff_exists.mp hok
  have hfit : t.context.StreetsFit := Array.all_eq_true_iff_forall_mem.mp hfit
  have hj : t.context.Journey (State.origin busQuery.origin shuttleTime t.context.request)
      t.states := t.request_eq ▸ t.journey
  have ht := eq_ok_of_toOption hs'
  obtain ⟨htime, -, hweight⟩ := Context.edge_bounds_sound hr hfit hj hs he
  obtain ⟨-, hclosed, -⟩ := Context.edge_bounds_sound hr hfit hj hz hf
  have hstreet : e.kind ≠ t.context.leavingKind := by
    rw [hkind]
    unfold Context.leavingKind
    split_ifs <;> nofun
  exact ⟨t, s, s', z, e, f, hr, hfit, hs, he, hkind, ht, htime s' ht, hweight hstreet s' ht, hz, hf,
    h.1, h.2, hclosed (.inl h.2)⟩

end JourneyPlanner
