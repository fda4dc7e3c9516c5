import JourneyPlanner.Proofs.Search.Chronicle
import JourneyPlanner.Proofs.Search.LegalPaths

/-!
# Conditions along streets

What is measured along the edges of a network is looked at in one place, where a street that breaks
a limit of the request is refused. So two networks that differ only in what is measured give the
same answer to a query for which the same streets break a limit (`search_withConditions`). Bounds,
the order of the queue and the frontier see no measurement.
-/

namespace JourneyPlanner

variable {W : Type} [Weight W] {k : Integers} {n : Network} {c : Context} {p : Plan W} {e : Edge}
  {conditions : Std.TreeMap EdgeId (List Exposure)}

/-- The network with other measurements. -/
def Network.withConditions (n : Network) (conditions : Std.TreeMap EdgeId (List Exposure)) :
    Network := { n with conditions := conditions }

/-- The context with other measurements in its network. -/
def Context.withConditions (c : Context) (conditions : Std.TreeMap EdgeId (List Exposure)) :
    Context := { c with network := c.network.withConditions conditions }

/-- The plan with other measurements in its network. -/
def Plan.withConditions (p : Plan W) (conditions : Std.TreeMap EdgeId (List Exposure)) : Plan W :=
  { p with context := p.context.withConditions conditions }

@[simp] theorem Network.vertices_withConditions :
    (n.withConditions conditions).vertices = n.vertices := rfl

@[simp] theorem Network.edges_withConditions : (n.withConditions conditions).edges = n.edges := rfl

@[simp] theorem Context.network_withConditions :
    (c.withConditions conditions).network = c.network.withConditions conditions := rfl

/-- Whether something is measured along an edge that a limit of the request does not allow. -/
def Network.BreaksLimit (n : Network) (r : Request) (e : Edge) : Prop :=
  ∃ x ∈ n.exposures e.id, ∃ t ∈ r.thresholds, t.allows x = false

theorem Network.breaksLimit_iff {r : Request} :
    n.BreaksLimit r e ↔ r.exceeds (n.exposures e.id) = true := by
  unfold BreaksLimit Request.exceeds
  simp only [List.any_eq_true, Bool.not_eq_true']

/-- Whether other measurements leave the same streets of a network open to a request. -/
def Network.SameLimits (n : Network) (conditions : Std.TreeMap EdgeId (List Exposure))
    (r : Request) : Prop :=
  ∀ e ∈ n.edges, e.kind = .street →
    ((n.withConditions conditions).BreaksLimit r e ↔ n.BreaksLimit r e)

theorem Network.sameLimits_of_no_thresholds {r : Request} (h : r.thresholds = []) :
    n.SameLimits conditions r := by
  intro e _ _
  unfold BreaksLimit
  rw [h]
  simp

/-! ## Edges -/

theorem Edge.kind_of_street {street : Street} (h : e.link = .street street) : e.kind = .street := by
  unfold kind
  rw [h]
  rfl

/-- A street looks at measurements only to see whether they break a limit. -/
theorem Street.traverse_withConditions {street : Street} {s : State W}
    (h : c.request.exceeds ((c.network.withConditions conditions).exposures e.id) =
      c.request.exceeds (c.network.exposures e.id)) :
    street.traverse e s (c.withConditions conditions) = street.traverse e s c := by
  unfold traverse
  apply if_congr Iff.rfl rfl
  apply if_congr Iff.rfl rfl
  apply if_congr _ rfl rfl
  rw [← h]
  rfl

theorem Edge.traverse_withConditions (h : c.network.SameLimits conditions c.request)
    (he : e ∈ c.network.edges) (s : State W) :
    e.traverse s (c.withConditions conditions) = e.traverse s c := by
  unfold traverse
  cases hl : e.link with
  | street street =>
    apply Street.traverse_withConditions
    rw [Bool.eq_iff_iff, ← Network.breaksLimit_iff, ← Network.breaksLimit_iff]
    exact h e he (Edge.kind_of_street hl)
  | board | alight | hop | dwell | timedTransfer => rfl

theorem Edge.weightBound_withConditions :
    (e.weightBound (c.withConditions conditions) : W) = e.weightBound c := by
  unfold weightBound
  cases e.link <;> rfl

/-! ## Bounds -/

theorem BoundTable.settle_withConditions :
    (settle (c.withConditions conditions) : BoundTable W → W → VertexId → BoundTable W) =
      settle c := by
  have hrelax : (relax (c.withConditions conditions) : W → BoundTable W → Edge → BoundTable W) =
      relax c := by
    funext cost t e
    unfold relax
    rw [Edge.weightBound_withConditions]
    rfl
  funext t cost v
  unfold settle
  rw [hrelax]
  rfl

theorem BoundTable.run_withConditions : ∀ (steps : Nat) (t : BoundTable W),
    run (c.withConditions conditions) steps t = run c steps t := by
  intro steps
  induction steps with
  | zero =>
    intro t
    rfl
  | succ steps ih =>
    intro t
    unfold run
    rw [settle_withConditions]
    cases t.queue.pop? cheaper with
    | none => rfl
    | some r => exact ih _

theorem lowerBounds_withConditions (target : VertexId) :
    (lowerBounds (c.withConditions conditions) target : Except Overflow (Array W)) =
      lowerBounds c target := by
  have hsteps : stepLimit (c.withConditions conditions).network = stepLimit c.network := by
    unfold stepLimit
    rw [Context.network_withConditions, Network.vertices_withConditions,
      Network.edges_withConditions]
  rw [lowerBounds_eq, lowerBounds_eq]
  unfold boundTable
  rw [BoundTable.run_withConditions, hsteps, Context.network_withConditions,
    Network.vertices_withConditions]

/-! ## The search -/

theorem Plan.tryEdge_withConditions
    (h : p.context.network.SameLimits conditions p.context.request)
    (he : e ∈ p.context.network.edges) (t : Trail W) (g : Progress W) :
    (p.withConditions conditions).tryEdge t g e = p.tryEdge t g e := by
  have htraverse : e.traverse t.last (p.withConditions conditions).context =
      e.traverse t.last p.context := Edge.traverse_withConditions h he t.last
  unfold tryEdge
  rw [htraverse]
  rfl

theorem Plan.expand_withConditions
    (h : p.context.network.SameLimits conditions p.context.request) (t : Trail W)
    (g : Progress W) : (p.withConditions conditions).expand t g = p.expand t g := by
  unfold expand
  apply List.foldl_ext
  intro g e he
  exact tryEdge_withConditions h (Network.mem_edges_of_mem_edgesFrom he) t g

theorem Plan.next_withConditions
    (h : p.context.network.SameLimits conditions p.context.request) (x : Candidate W)
    (rest : Queue (Candidate W)) (g : Progress W) :
    (p.withConditions conditions).next x rest g = p.next x rest g := by
  unfold next
  rw [expand_withConditions h]
  rfl

/-- Other measurements that leave the same streets open change no run of the search. -/
theorem Plan.explore_withConditions
    (h : p.context.network.SameLimits conditions p.context.request) :
    ∀ (budget : Nat) (g : Progress W),
      (p.withConditions conditions).explore budget g = p.explore budget g := by
  intro budget
  induction budget with
  | zero =>
    intro g
    rfl
  | succ budget ih =>
    intro g
    cases hpop : g.queue.pop? Candidate.before with
    | none => rw [explore_of_empty hpop, explore_of_empty hpop]
    | some r =>
      rw [explore_succ hpop, explore_succ hpop, next_withConditions h, ih]
      rfl

/-- The same days surround a time, whatever is measured. -/
theorem Context.make_withConditions (k : Integers) (n : Network) (r : Request) (time : Int)
    (conditions : Std.TreeMap EdgeId (List Exposure)) :
    make k (n.withConditions conditions) r time =
      (make k n r time).map (·.withConditions conditions) := by
  unfold make
  show Except.map _ (n.calendar.serviceDays time) = _
  cases n.calendar.serviceDays time <;> rfl

theorem Query.answer_withConditions {q : Query} (limits : SearchLimits)
    (h : c.network.SameLimits conditions c.request) (table : Except Overflow (Array W)) :
    q.answer (c.withConditions conditions) limits table = q.answer c limits table := by
  cases table with
  | error _ => rfl
  | ok bounds =>
    let plan : Plan W := ⟨c, q.target, limits, bounds⟩
    exact congrArg Progress.answer
      (plan.explore_withConditions h limits.maxStates (plan.begin q.begin))

/-- What is measured along the edges reaches a search only through the limits of its request: on two
networks that differ only in measurements, by which the same streets break a limit, or if there are
no limits at all, a query has the same error, or the same paths after as many states. -/
theorem search_withConditions {q : Query} (limits : SearchLimits)
    (h : n.SameLimits conditions q.request ∨ q.request.thresholds = []) :
    (search k (n.withConditions conditions) q limits : Except SearchError (SearchResult W)) =
      search k n q limits := by
  have hsame : n.SameLimits conditions q.request := h.elim id Network.sameLimits_of_no_thresholds
  have hvertex : q.unknownVertex? (n.withConditions conditions) = q.unknownVertex? n := rfl
  cases hq : q.unknownVertex? n with
  | some v =>
    unfold search
    rw [hvertex, hq]
  | none =>
    cases hc : Context.make k n q.request q.time with
    | error e =>
      unfold search
      rw [hvertex, Context.make_withConditions, hq, hc]
      rfl
    | ok c =>
      have hc' : Context.make k (n.withConditions conditions) q.request q.time =
          .ok (c.withConditions conditions) := by
        rw [Context.make_withConditions, hc]
        rfl
      obtain ⟨days, -, rfl⟩ := Context.make_eq_ok.mp hc
      rw [search_of_make (hvertex.trans hq) hc', search_of_make hq hc, lowerBounds_withConditions,
        Query.answer_withConditions limits hsame]

/-- On a morning the detour is too loud. -/
def loudMorning : Std.TreeMap EdgeId (List Exposure) :=
  .ofList [((0 : EdgeId), [(⟨.noise, 80.0, 95.0⟩ : Exposure)]),
    ((1 : EdgeId), [(⟨.noise, 50.0, 70.0⟩ : Exposure)])]

/-- In the evening it still is, and the air is bad. -/
def badAir : Std.TreeMap EdgeId (List Exposure) :=
  .ofList [((0 : EdgeId), [(⟨.noise, 61.0, 62.0⟩ : Exposure), ⟨.pollution, 90.0, 120.0⟩]),
    ((1 : EdgeId), [(⟨.pollution, 75.0, 99.0⟩ : Exposure)])]

/-- From the one stop to the other, past little noise. -/
def quietLanesQuery : Query := ⟨0, 1, shuttleTime, { thresholds := [⟨.noise, some 60.0, none⟩] }⟩

/-- Morning and evening only the quiet lane is found. -/
theorem twoLanes_withConditions : ∃ (n : Network) (r : SearchResult Exact),
    twoLanes.build onlyUtc = .ok n ∧
      (n.withConditions loudMorning).SameLimits badAir quietLanesQuery.request ∧
        search .words (n.withConditions loudMorning) quietLanesQuery {} = .ok r ∧
          search .words (n.withConditions badAir) quietLanesQuery {} = .ok r ∧
            r.paths.length = 1 := by
  have h : ((twoLanes.build onlyUtc).toOption.any fun n =>
      n.edges.all (fun e =>
        quietLanesQuery.request.exceeds ((n.withConditions badAir).exposures e.id) ==
          quietLanesQuery.request.exceeds ((n.withConditions loudMorning).exposures e.id)) &&
      (search .words (n.withConditions loudMorning) quietLanesQuery {}).toOption.any
        fun (r : SearchResult Exact) => r.paths.length == 1) = true := by
    decide +kernel
  obtain ⟨n, hb, h⟩ := (Option.any_eq_true _ _).mp h
  rw [Bool.and_eq_true, Array.all_eq_true_iff_forall_mem] at h
  obtain ⟨r, hs, hlength⟩ := (Option.any_eq_true _ _).mp h.2
  have hsame : (n.withConditions loudMorning).SameLimits badAir quietLanesQuery.request := by
    intro e he _
    rw [Network.breaksLimit_iff, Network.breaksLimit_iff]
    exact Bool.eq_iff_iff.mp (beq_iff_eq.mp (h.1 e he))
  exact ⟨n, r, eq_ok_of_toOption hb, hsame, eq_ok_of_toOption hs,
    (search_withConditions {} (.inl hsame)).trans (eq_ok_of_toOption hs), beq_iff_eq.mp hlength⟩

end JourneyPlanner
