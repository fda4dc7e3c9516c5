import JourneyPlanner.Proofs.Search.Bounds
import JourneyPlanner.Search.Planner

/-!
# Paths of a search

Every trail that a search queues is a journey from its origin, and every path that it finds is one
to the target (`search_sound`).
-/

namespace JourneyPlanner

variable {W : Type} [Weight W] {c : Context} {s origin : State W} {t : Trail W}

omit [Weight W] in
@[simp] theorem Trail.states_extend : (t.extend s).states = t.states ++ [s] := by
  unfold Trail.extend Trail.states
  rw [List.reverse_cons]

omit [Weight W] in
theorem Trail.getLast?_states : t.states.getLast? = some t.last := by
  unfold Trail.states
  rw [List.getLast?_append, List.getLast?_singleton]
  rfl

omit [Weight W] in
theorem Trail.last_mem_states : t.last ∈ t.states := List.mem_of_getLast? Trail.getLast?_states

theorem Context.journey_start : c.Journey s (Trail.start s).states :=
  ⟨rfl, .singleton s⟩

theorem Context.Journey.extend (h : c.Journey origin t.states) (hs : c.Step t.last s) :
    c.Journey origin (t.extend s).states := by
  rw [Trail.states_extend]
  constructor
  · rw [List.head?_append, h.head_eq]
    rfl
  · refine List.isChain_append.mpr ⟨h.chain, .singleton s, ?_⟩
    intro x hx y hy
    rw [Trail.getLast?_states, Option.mem_some_iff] at hx
    rw [List.head?_singleton, Option.mem_some_iff] at hy
    subst hx hy
    exact hs

theorem Plan.isGoal_iff {W : Type} [Weight W] {p : Plan W} {s : State W} :
    p.isGoal s = true ↔ s.vertex = p.target ∧ s.isOnBoard = false := by
  unfold Plan.isGoal
  rw [Bool.and_eq_true, beq_iff_eq, Bool.not_eq_true']

/-- What holds of a search at every moment: its trails are journeys, and its paths reach the
target. -/
structure Plan.Sound (p : Plan W) (origin : State W) (g : Progress W) : Prop where
  queued : ∀ x ∈ g.queue.toList, p.context.Journey origin x.trail.states
  found : ∀ t ∈ g.paths, p.context.Journey origin t.states ∧ p.isGoal t.last = true

variable {p : Plan W} {g : Progress W}

theorem Plan.tryEdge_of_error {e : Edge} {r : Rejection}
    (h : e.traverse t.last p.context = .error r) :
    p.tryEdge t g e = { g with overflowed := decide (r = .overflow) || g.overflowed } := by
  unfold Plan.tryEdge
  rw [h]
  cases r <;> rfl

theorem Plan.Sound.tryEdge {e : Edge} (h : p.Sound origin g)
    (ht : p.context.Journey origin t.states)
    (he : e ∈ p.context.network.edgesFrom t.last.vertex p.context.arriveBy) :
    p.Sound origin (p.tryEdge t g e) := by
  cases hs : e.traverse t.last p.context with
  | error r =>
    rw [Plan.tryEdge_of_error hs]
    exact ⟨h.queued, h.found⟩
  | ok child =>
    unfold Plan.tryEdge
    rw [hs]
    simp only
    split_ifs
    · exact h
    · cases g.frontier.admit? child with
      | none => exact h
      | some frontier =>
        refine ⟨fun x hx => ?_, h.found⟩
        rcases List.mem_cons.mp ((Queue.toList_push_perm _ _ _).mem_iff.mp hx) with rfl | hx
        · exact ht.extend ⟨e, he, hs⟩
        · exact h.queued x hx

theorem Plan.Sound.expand (h : p.Sound origin g) (ht : p.context.Journey origin t.states) :
    p.Sound origin (p.expand t g) := by
  unfold Plan.expand
  refine List.foldlRecOn _ _ h fun g hg e he => hg.tryEdge ht he

theorem Plan.Sound.explore : ∀ {budget : Nat} {g : Progress W}, p.Sound origin g →
    p.Sound origin (p.explore budget g)
  | 0, _, h => h
  | budget + 1, g, h => by
    unfold Plan.explore
    cases hpop : g.queue.pop? Candidate.before with
    | none => exact h
    | some r =>
      obtain ⟨candidate, queue⟩ := r
      have hcand : p.context.Journey origin candidate.trail.states :=
        h.queued _ ((Queue.mem_toList_pop _ hpop).mpr (.inl rfl))
      have hrest : ∀ x ∈ queue.toList, p.context.Journey origin x.trail.states := fun x hx =>
        h.queued x ((Queue.mem_toList_pop _ hpop).mpr (.inr hx))
      simp only
      by_cases hgoal : p.isGoal candidate.trail.last = true
      · have hg : p.Sound origin
            { g with
              queue := queue
              explored := g.explored + 1
              paths := candidate.trail :: g.paths } :=
          ⟨hrest, List.forall_mem_cons.mpr ⟨⟨hcand, hgoal⟩, h.found⟩⟩
        rw [if_pos hgoal]
        split_ifs
        · exact hg
        · exact hg.explore
      · rw [if_neg hgoal]
        exact (Plan.Sound.expand (g := { g with queue := queue, explored := g.explored + 1 })
          ⟨hrest, h.found⟩ hcand).explore

theorem Plan.sound_begin : p.Sound origin (p.begin origin) where
  queued := by
    intro x hx
    have hx' : x ∈ [⟨p.heuristic origin, 0, Trail.start origin⟩] := hx
    rw [List.mem_singleton] at hx'
    rw [hx']
    exact Context.journey_start
  found := by
    intro t ht
    have ht' : t ∈ [] := ht
    cases ht'

/-- The plan of a query. -/
def Query.plan (q : Query) (c : Context) (limits : SearchLimits) : Plan W :=
  ⟨c, q.target, limits, c.boundsTo q.target⟩

/-- The state in which a query starts. -/
def Query.begin (q : Query) : State W := State.origin q.origin q.time q.request

/-- How far the search for a query comes. -/
def Query.run (q : Query) (c : Context) (limits : SearchLimits) : Progress W :=
  (q.plan c limits).explore limits.maxStates ((q.plan c limits).begin q.begin)

omit [Weight W] in
theorem Progress.answer_eq_ok {r : SearchResult W} :
    g.answer = .ok r ↔ g.overflowed = false ∧ r = g.result := by
  unfold answer
  split_ifs with h
  · exact ⟨nofun, fun hok => absurd (h.symm.trans hok.1) (by decide)⟩
  · exact ⟨fun hok => ⟨Bool.eq_false_of_not_eq_true h, (Except.ok.inj hok).symm⟩,
      fun hok => congrArg _ hok.2.symm⟩

theorem search_of_make {k : Integers} {n : Network} {q : Query} {limits : SearchLimits}
    (hv : q.unknownVertex? n = none) (hc : Context.make k n q.request q.time = .ok c) :
    search k n q limits =
      q.answer c limits (lowerBounds c q.target : Except Overflow (Array W)) := by
  unfold search
  rw [hv]
  simp only
  rw [hc]

theorem Query.answer_ok {q : Query} {limits : SearchLimits} :
    q.answer c limits (.ok (c.boundsTo q.target : Array W)) =
      (q.run c limits : Progress W).answer := by
  unfold Query.answer Query.run Query.plan
  rfl

/-- A search with a table of bounds answers what its run does. -/
theorem search_of_lowerBounds {k : Integers} {n : Network} {q : Query} {limits : SearchLimits}
    (hv : q.unknownVertex? n = none) (hc : Context.make k n q.request q.time = .ok c)
    (hb : lowerBounds c q.target = .ok (c.boundsTo q.target : Array W)) :
    search k n q limits = (q.run c limits : Progress W).answer := by
  rw [search_of_make hv hc, hb, Query.answer_ok]

/-- Without a table of bounds a search ends in an overflow. -/
theorem search_of_no_bounds {k : Integers} {n : Network} {q : Query} {limits : SearchLimits}
    {o : Overflow} (hv : q.unknownVertex? n = none)
    (hc : Context.make k n q.request q.time = .ok c)
    (hb : (lowerBounds c q.target : Except Overflow (Array W)) = .error o) :
    (search k n q limits : Except SearchError (SearchResult W)) = .error .overflow := by
  rw [search_of_make hv hc, hb]
  rfl

theorem Query.answer_eq_ok {q : Query} {limits : SearchLimits} {r : SearchResult W}
    {table : Except Overflow (Array W)}
    (htable : ∀ bounds, table = .ok bounds → bounds = c.boundsTo q.target) :
    q.answer c limits table = .ok r ↔ table = .ok (c.boundsTo q.target) ∧
      (q.run c limits : Progress W).overflowed = false ∧ r = (q.run c limits).result := by
  cases table with
  | error e => exact ⟨nofun, nofun⟩
  | ok bounds =>
    rw [htable bounds rfl, Query.answer_ok, Progress.answer_eq_ok]
    exact (and_iff_right rfl).symm

/-- What a search does. -/
theorem search_eq_ok {k : Integers} {n : Network} {q : Query} {limits : SearchLimits}
    {r : SearchResult W} : search k n q limits = .ok r ↔
      q.unknownVertex? n = none ∧ ∃ c, Context.make k n q.request q.time = .ok c ∧
        lowerBounds c q.target = .ok (c.boundsTo q.target : Array W) ∧
        (q.run c limits : Progress W).overflowed = false ∧ r = (q.run c limits).result := by
  constructor
  · intro h
    cases hv : q.unknownVertex? n with
    | some v => unfold search at h; rw [hv] at h; cases h
    | none =>
      cases hc : Context.make k n q.request q.time with
      | error e => unfold search at h; rw [hv, hc] at h; cases h
      | ok c =>
        rw [search_of_make hv hc] at h
        exact ⟨rfl, c, rfl, (Query.answer_eq_ok fun _ hb => (lowerBounds_eq_ok.mp hb).2).mp h⟩
  · rintro ⟨hv, c, hc, hrun⟩
    rw [search_of_make hv hc]
    exact (Query.answer_eq_ok fun _ hb => (lowerBounds_eq_ok.mp hb).2).mpr hrun

/-- The paths of a search are journeys from its origin to its target. -/
theorem search_sound {k : Integers} {n : Network} {q : Query} {limits : SearchLimits}
    {r : SearchResult W} (h : search k n q limits = .ok r) :
    ∃ c, Context.make k n q.request q.time = .ok c ∧ ∀ t ∈ r.paths,
      c.Journey q.begin t.states ∧ t.last.vertex = q.target ∧ t.last.isOnBoard = false := by
  obtain ⟨-, c, hc, -, -, rfl⟩ := search_eq_ok.mp h
  refine ⟨c, hc, fun t ht => ?_⟩
  obtain ⟨hj, hgoal⟩ := (Plan.sound_begin (p := q.plan c limits)).explore.found t
    (List.mem_reverse.mp ht)
  unfold Plan.isGoal at hgoal
  rw [Bool.and_eq_true, beq_iff_eq, Bool.not_eq_true'] at hgoal
  exact ⟨hj, hgoal⟩

end JourneyPlanner
