import JourneyPlanner.Proofs.Arithmetic.Ordered
import JourneyPlanner.Proofs.Search.Completeness

/-!
# The chronicle of a search

A search moves by taking a candidate from its queue and by queueing the state behind an edge of one
that it has taken (`Plan.Moves`). What it has queued is shown on the frontier from then on, by its
own label or by one that dominates it, so that whatever is dominated by it is not queued any more
(`Plan.Chronicle`). It is not withdrawn when a better candidate is queued later.
-/

namespace JourneyPlanner

variable {W : Type} [Weight W] {p : Plan W} {g g' : Progress W} {done done' : List (Candidate W)}
  {x y : Candidate W} {s origin : State W} {t : Trail W}

/-! ## Moves -/

/-- The search after taking the first candidate from its queue. -/
def Plan.next (p : Plan W) (x : Candidate W) (rest : Queue (Candidate W)) (g : Progress W) :
    Progress W :=
  if p.isGoal x.trail.last then
    { g with queue := rest, explored := g.explored + 1, paths := x.trail :: g.paths }
  else p.expand x.trail { g with queue := rest, explored := g.explored + 1 }

/-- Whether a candidate ends the last path that a search looks for. -/
def Plan.isFull (p : Plan W) (x : Candidate W) (g : Progress W) : Bool :=
  p.isGoal x.trail.last && decide (p.limits.maxResults ≤ g.paths.length + 1)

theorem Plan.explore_of_empty (hpop : g.queue.pop? Candidate.before = none) (budget : Nat) :
    p.explore budget g = g := by
  cases budget with
  | zero => rfl
  | succ budget =>
    unfold explore
    rw [hpop]

theorem Plan.explore_succ {rest : Queue (Candidate W)}
    (hpop : g.queue.pop? Candidate.before = some (x, rest)) (budget : Nat) :
    p.explore (budget + 1) g =
      if p.isFull x g then p.next x rest g else p.explore budget (p.next x rest g) := by
  unfold isFull next
  rw [explore, hpop]
  cases hgoal : p.isGoal x.trail.last <;> simp [hgoal]

/-- The search after queueing a state behind a trail. -/
def Plan.enqueue (p : Plan W) (t : Trail W) (s : State W) (frontier : Frontier W)
    (g : Progress W) : Progress W :=
  { g with
    frontier := frontier
    queued := g.queued + 1
    queue := g.queue.push Candidate.before ⟨s.weight + p.heuristic s, g.queued + 1, t.extend s⟩ }

/-- What a search does, with the candidates taken from the queue so far: it takes one that ends a
path, or one that does not, or queues a state behind such a one, or notes an overflow there. -/
inductive Plan.Moves (p : Plan W) :
    List (Candidate W) → Progress W → List (Candidate W) → Progress W → Prop
  | finish {done : List (Candidate W)} {g : Progress W} {x : Candidate W}
      {rest : Queue (Candidate W)} (hpop : g.queue.pop? Candidate.before = some (x, rest))
      (hgoal : p.isGoal x.trail.last = true) :
      Moves p done g (x :: done)
        { g with queue := rest, explored := g.explored + 1, paths := x.trail :: g.paths }
  | pass {done : List (Candidate W)} {g : Progress W} {x : Candidate W}
      {rest : Queue (Candidate W)} (hpop : g.queue.pop? Candidate.before = some (x, rest))
      (hgoal : p.isGoal x.trail.last = false) :
      Moves p done g (x :: done) { g with queue := rest, explored := g.explored + 1 }
  | queue {done : List (Candidate W)} {g : Progress W} {x : Candidate W} {s : State W}
      {frontier : Frontier W} (hx : x ∈ done) (hstep : p.context.Step x.trail.last s)
      (hf : g.frontier.admit? s = some frontier) :
      Moves p done g done (p.enqueue x.trail s frontier g)
  | flag {done : List (Candidate W)} {g : Progress W} {overflowed : Bool}
      (hkept : g.overflowed = true → overflowed = true) :
      Moves p done g done { g with overflowed := overflowed }

section

variable {P : List (Candidate W) → Progress W → Prop}
  (hmove : ∀ {done g done' g'}, p.Moves done g done' g' → P done g → P done' g')

include hmove

theorem Plan.expand_of_moves (hx : x ∈ done) (h : P done g) : P done (p.expand x.trail g) := by
  refine List.foldlRecOn _ _ h fun g hg e he => ?_
  cases hs : e.traverse x.trail.last p.context with
  | error r =>
    rw [Plan.tryEdge_of_error hs]
    exact hmove (.flag fun h => by rw [h, Bool.or_true]) hg
  | ok child =>
    unfold Plan.tryEdge
    rw [hs]
    simp only
    split_ifs
    · exact hg
    · cases hf : g.frontier.admit? child with
      | none => exact hg
      | some frontier => exact hmove (.queue hx ⟨e, he, hs⟩ hf) hg

/-- What the moves of a search keep holds when it ends. The candidates that it has taken were in
its queue. -/
theorem Plan.explore_of_moves : ∀ (budget : Nat) {done : List (Candidate W)} {g : Progress W},
    P done g → ∃ done', P done' (p.explore budget g) ∧
      ∀ x ∈ done', x ∈ done ∨ ∃ b < budget, x ∈ (p.explore b g).queue.toList
  | 0, done, g, h => ⟨done, h, fun x hx => .inl hx⟩
  | budget + 1, done, g, h => by
    cases hpop : g.queue.pop? Candidate.before with
    | none => exact ⟨done, (Plan.explore_of_empty hpop _).symm ▸ h, fun x hx => .inl hx⟩
    | some r =>
      obtain ⟨x, rest⟩ := r
      have hx : x ∈ (p.explore 0 g).queue.toList :=
        (Queue.mem_toList_pop _ hpop).mpr (.inl rfl)
      have hnext : P (x :: done) (p.next x rest g) := by
        unfold Plan.next
        cases hgoal : p.isGoal x.trail.last with
        | true => exact hmove (.finish hpop hgoal) h
        | false =>
          exact p.expand_of_moves hmove List.mem_cons_self (hmove (.pass hpop hgoal) h)
      have htaken : ∀ y ∈ x :: done, y ∈ done ∨
          ∃ b < budget + 1, y ∈ (p.explore b g).queue.toList :=
        List.forall_mem_cons.mpr ⟨.inr ⟨0, Nat.succ_pos _, hx⟩, fun y hy => .inl hy⟩
      simp only [Plan.explore_succ hpop]
      cases hfull : p.isFull x g with
      | true => exact ⟨_, hnext, htaken⟩
      | false =>
        obtain ⟨done', hend, hdone⟩ := explore_of_moves budget hnext
        refine ⟨done', hend, fun y hy => ?_⟩
        rcases hdone y hy with hy | ⟨b, hb, hy⟩
        · exact htaken y hy
        · refine .inr ⟨b + 1, Nat.succ_lt_succ hb, ?_⟩
          rwa [Plan.explore_succ hpop, hfull, if_neg Bool.false_ne_true]

end

/-! ## Dominance -/

theorem Label.dominates_trans [Weight.Ordered W] {arriveBy : Bool} {a b d : Label W}
    (h : a.dominates arriveBy b = true) (h' : b.dominates arriveBy d = true) :
    a.dominates arriveBy d = true := by
  rw [Label.dominates_iff] at *
  obtain ⟨hplace, hweight, htime, hboardings, halighted⟩ := h
  obtain ⟨hplace', hweight', htime', hboardings', halighted'⟩ := h'
  exact ⟨hplace.trans hplace', Weight.Ordered.atMost_trans hweight hweight',
    htime.trans htime', hboardings.trans hboardings', Option.Rel.sooner_trans halighted halighted'⟩

theorem Label.place_eq_of_dominates {arriveBy : Bool} {a b : Label W}
    (h : a.dominates arriveBy b = true) : a.place = b.place :=
  (Label.dominates_iff.mp h).1

/-- Whether one candidate is at the place of another, and at least as good in every respect. -/
def Candidate.dominates (arriveBy : Bool) (x y : Candidate W) : Bool :=
  x.trail.last.label.dominates arriveBy y.trail.last.label

/-- Whether a label on a frontier stands for that of a state. -/
def Frontier.Shows (f : Frontier W) (arriveBy : Bool) (s : State W) : Prop :=
  ∃ l ∈ f.labelsAt s.vertex, l = s.label ∨ l.dominates arriveBy s.label = true

/-- What is shown stays shown when a state is admitted, and the state is shown too. -/
theorem Frontier.Shows.admit [Weight.Ordered W] {f f' : Frontier W} {a : State W}
    (h : f.Shows s.arriveBy a) (hf : f.admit? s = some f') : f'.Shows s.arriveBy a := by
  obtain ⟨l, hl, hshows⟩ := h
  have hkept := (Frontier.admit?_spec hf).2 a.vertex
  by_cases hdropped : a.vertex = s.vertex ∧ s.label.dominates s.arriveBy l = true
  · refine ⟨s.label, (hkept _).mpr (.inl ⟨hdropped.1, rfl⟩), .inr ?_⟩
    rcases hshows with rfl | hdominates
    · exact hdropped.2
    · exact Label.dominates_trans hdropped.2 hdominates
  · refine ⟨l, (hkept l).mpr (.inr ⟨hl, fun hv => ?_⟩), hshows⟩
    exact Bool.eq_false_iff.mpr fun hd => hdropped ⟨hv, hd⟩

theorem Frontier.shows_admitted {f f' : Frontier W} (hf : f.admit? s = some f') :
    f'.Shows s.arriveBy s :=
  ⟨s.label, ((Frontier.admit?_spec hf).2 _ _).mpr (.inl ⟨rfl, rfl⟩), .inl rfl⟩

theorem Frontier.Shows.not_dominates [Weight.Ordered W] {f f' : Frontier W} {a : State W}
    (h : f.Shows s.arriveBy a) (hf : f.admit? s = some f') :
    a.label.dominates s.arriveBy s.label = false := by
  refine Bool.eq_false_iff.mpr fun hdominates => ?_
  obtain ⟨l, hl, hshows⟩ := h
  have hv : a.vertex = s.vertex :=
    congrArg Place.vertex (Label.place_eq_of_dominates hdominates)
  have hl' : l.dominates s.arriveBy s.label = true := by
    rcases hshows with rfl | hshows
    · exact hdominates
    · exact Label.dominates_trans hshows hdominates
  rw [(Frontier.admit?_spec hf).1 l (hv ▸ hl)] at hl'
  cases hl'

/-! ## What has been queued -/

theorem Context.Journey.arriveBy_eq {c : Context} {l : List (State W)}
    (h : c.Journey origin l) : ∀ s ∈ l, s.arriveBy = origin.arriveBy := by
  refine h.forall_of_step rfl fun s _ y _ ⟨e, _, ht⟩ hs => ?_
  rw [(Edge.traverse_eq_ok.mp ht).arriveBy_eq, hs]

/-- The candidates that a search has queued, when those of a list are taken. -/
def Progress.known (g : Progress W) (done : List (Candidate W)) : List (Candidate W) :=
  done ++ g.queue.toList

/-- What holds of the candidates that a search has queued, at every moment. -/
structure Plan.Chronicle (p : Plan W) (origin : State W) (done : List (Candidate W))
    (g : Progress W) : Prop where
  journey : ∀ x ∈ g.known done, p.context.Journey origin x.trail.states
  parent : ∀ x ∈ g.known done, x.trail.earlier = [] ∨
    ∃ y ∈ done, y.number < x.number ∧ x.trail = y.trail.extend x.trail.last
  number_le : ∀ x ∈ g.known done, x.number ≤ g.queued
  numbered : (g.known done).Pairwise fun x y => x.number ≠ y.number
  shown : ∀ x ∈ g.known done, g.frontier.Shows origin.arriveBy x.trail.last
  fresh : ∀ x ∈ g.known done, ∀ y ∈ g.known done, x.number < y.number →
    x.dominates origin.arriveBy y = false
  paths_eq : g.paths = (done.filter fun x => p.isGoal x.trail.last).map (·.trail)
  explored_eq : g.explored = done.length

theorem Progress.known_pop {rest : Queue (Candidate W)} (hqueue : g'.queue = rest)
    (hpop : g.queue.pop? Candidate.before = some (x, rest)) :
    (g.known done).Perm (g'.known (x :: done)) := by
  unfold known
  rw [hqueue, List.cons_append]
  exact ((Queue.toList_pop_perm _ hpop).append_left done).trans List.perm_middle

/-- Taking a candidate from the queue changes nothing that has been queued. -/
theorem Plan.Chronicle.take (h : p.Chronicle origin done g) {rest : Queue (Candidate W)}
    (hpop : g.queue.pop? Candidate.before = some (x, rest)) (hqueue : g'.queue = rest)
    (hfrontier : g'.frontier = g.frontier) (hqueued : g'.queued = g.queued)
    (hexplored : g'.explored = g.explored + 1)
    (hpaths : g'.paths = ((x :: done).filter fun y => p.isGoal y.trail.last).map (·.trail)) :
    p.Chronicle origin (x :: done) g' := by
  have hperm : (g.known done).Perm (g'.known (x :: done)) := Progress.known_pop hqueue hpop
  have hmem : ∀ y, y ∈ g'.known (x :: done) → y ∈ g.known done := fun y => hperm.mem_iff.mpr
  refine ⟨fun y hy => h.journey y (hmem y hy), fun y hy => ?_, fun y hy => ?_, ?_,
    fun y hy => ?_, fun y hy z hz => h.fresh y (hmem y hy) z (hmem z hz), hpaths, ?_⟩
  · refine (h.parent y (hmem y hy)).imp_right fun ⟨z, hz, hbehind⟩ => ?_
    exact ⟨z, List.mem_cons_of_mem x hz, hbehind⟩
  · rw [hqueued]
    exact h.number_le y (hmem y hy)
  · exact (hperm.pairwise_iff fun h => h.symm).mp h.numbered
  · rw [hfrontier]
    exact h.shown y (hmem y hy)
  · rw [hexplored, h.explored_eq, List.length_cons]

/-- Queueing a state behind a trail already taken adds a candidate that none dominates. -/
theorem Plan.Chronicle.enqueue [Weight.Ordered W] (h : p.Chronicle origin done g) (hx : x ∈ done)
    (hstep : p.context.Step x.trail.last s) {frontier : Frontier W}
    (hf : g.frontier.admit? s = some frontier) :
    p.Chronicle origin done (p.enqueue x.trail s frontier g) := by
  obtain ⟨new, hnew⟩ : ∃ new : Candidate W,
    new = ⟨s.weight + p.heuristic s, g.queued + 1, x.trail.extend s⟩ := ⟨_, rfl⟩
  have hknown : x ∈ g.known done := List.mem_append_left _ hx
  have hjourney : p.context.Journey origin new.trail.states := by
    rw [hnew]
    exact (h.journey x hknown).extend hstep
  have harrive : s.arriveBy = origin.arriveBy := by
    have := hjourney.arriveBy_eq _ Trail.last_mem_states
    rwa [hnew] at this
  have hperm : ((p.enqueue x.trail s frontier g).known done).Perm (new :: g.known done) := by
    unfold Progress.known
    refine ((Queue.toList_push_perm _ _ _).append_left done).trans ?_
    rw [hnew]
    exact List.perm_middle
  have hmem : ∀ {P : Candidate W → Prop}, P new → (∀ y ∈ g.known done, P y) →
      ∀ y ∈ (p.enqueue x.trail s frontier g).known done, P y := fun h₁ h₂ y hy =>
    (List.forall_mem_cons.mpr ⟨h₁, h₂⟩) y (hperm.mem_iff.mp hy)
  have hnumber : new.number = g.queued + 1 := by rw [hnew]
  have hlast : new.trail.last = s := by rw [hnew]; rfl
  refine ⟨hmem hjourney h.journey, hmem ?_ h.parent, hmem hnumber.le fun y hy => ?_, ?_,
    hmem ?_ fun y hy => ?_, ?_, h.paths_eq, h.explored_eq⟩
  · refine .inr ⟨x, hx, ?_, by rw [hnew]; rfl⟩
    rw [hnumber]
    exact Nat.lt_succ_of_le (h.number_le x hknown)
  · exact (h.number_le y hy).trans (Nat.le_succ _)
  · refine (hperm.symm.pairwise_iff fun h => h.symm).mp (List.pairwise_cons.mpr ⟨?_, h.numbered⟩)
    intro y hy heq
    have := h.number_le y hy
    omega
  · rw [hlast, ← harrive]
    exact Frontier.shows_admitted hf
  · have hshown := h.shown y hy
    rw [← harrive] at hshown ⊢
    exact hshown.admit hf
  · refine hmem ?_ fun y hy => hmem (fun _ => ?_) fun z hz => h.fresh y hy z hz
    · refine hmem (fun hlt => absurd hlt (lt_irrefl _)) fun y hy hlt => ?_
      have := h.number_le y hy
      omega
    · have hshown := h.shown y hy
      unfold Candidate.dominates
      rw [hlast]
      rw [← harrive] at hshown ⊢
      exact hshown.not_dominates hf

theorem Plan.Chronicle.move [Weight.Ordered W] (h : p.Chronicle origin done g)
    (hmove : p.Moves done g done' g') : p.Chronicle origin done' g' := by
  cases hmove with
  | finish hpop hgoal =>
    refine h.take hpop rfl rfl rfl rfl ?_
    simp [hgoal, h.paths_eq]
  | pass hpop hgoal =>
    refine h.take hpop rfl rfl rfl rfl ?_
    simp [hgoal, h.paths_eq]
  | queue hx hstep hf => exact h.enqueue hx hstep hf
  | flag hkept =>
    exact ⟨h.journey, h.parent, h.number_le, h.numbered, h.shown, h.fresh, h.paths_eq,
      h.explored_eq⟩

omit [Weight W] in
theorem Frontier.labelsAt_empty (v : VertexId) : (empty : Frontier W).labelsAt v = [] := by
  unfold labelsAt empty
  simp

theorem Plan.chronicle_begin : p.Chronicle origin [] (p.begin origin) := by
  have hknown : (p.begin origin).known [] = [⟨p.heuristic origin, 0, Trail.start origin⟩] := rfl
  have hshown : (p.begin origin).frontier.Shows origin.arriveBy origin := by
    show ((Frontier.empty.admit? origin).getD Frontier.empty).Shows _ _
    cases hf : (Frontier.empty : Frontier W).admit? origin with
    | none =>
      obtain ⟨l, hl, -⟩ := Frontier.exists_of_admit?_eq_none hf
      rw [Frontier.labelsAt_empty] at hl
      cases hl
    | some f => exact Frontier.shows_admitted hf
  refine ⟨?_, ?_, ?_, ?_, ?_, ?_, rfl, rfl⟩ <;> rw [hknown]
  · exact List.forall_mem_singleton.mpr Context.journey_start
  · exact List.forall_mem_singleton.mpr (.inl rfl)
  · exact List.forall_mem_singleton.mpr (Nat.zero_le _)
  · exact List.pairwise_singleton _ _
  · exact List.forall_mem_singleton.mpr hshown
  · exact List.forall_mem_singleton.mpr
      (List.forall_mem_singleton.mpr fun h => absurd h (lt_irrefl _))

/-- At every moment of a search the chronicle holds, and what has been taken from the queue was in
it at an earlier moment. -/
theorem Plan.chronicle [Weight.Ordered W] (p : Plan W) (origin : State W) (budget : Nat) :
    ∃ done, p.Chronicle origin done (p.explore budget (p.begin origin)) ∧
      ∀ x ∈ done, ∃ b < budget, x ∈ (p.explore b (p.begin origin)).queue.toList := by
  obtain ⟨done, h, hdone⟩ := Plan.explore_of_moves (P := p.Chronicle origin)
    (fun hmove h => h.move hmove) budget Plan.chronicle_begin
  exact ⟨done, h, fun x hx => (hdone x hx).resolve_left List.not_mem_nil⟩

/-! ## The paths of a search -/

/-- No path of a search is dominated by one whose end was queued before its own. -/
theorem search_paths_fresh [Weight.Ordered W] {k : Integers} {n : Network} {q : Query}
    {limits : SearchLimits} {r : SearchResult W} (hs : search k n q limits = .ok r) :
    ∃ c, Context.make k n q.request q.time = .ok c ∧ ∃ found : List (Candidate W),
      found.map (·.trail) = r.paths ∧
      (∀ x ∈ found, ∃ b < limits.maxStates,
        x ∈ ((q.plan c limits : Plan W).explore b ((q.plan c limits).begin q.begin)).queue.toList) ∧
      found.Pairwise (·.number ≠ ·.number) ∧
      ∀ x ∈ found, ∀ y ∈ found, x.number < y.number →
        x.dominates q.request.arriveBy y = false := by
  obtain ⟨-, c, hc, -, -, rfl⟩ := search_eq_ok.mp hs
  obtain ⟨done, h, hdone⟩ := (q.plan c limits : Plan W).chronicle q.begin limits.maxStates
  obtain ⟨ends, hends⟩ : ∃ ends : List (Candidate W),
    ends = done.filter fun x => (q.plan c limits : Plan W).isGoal x.trail.last := ⟨_, rfl⟩
  have hmem : ∀ x ∈ ends.reverse, x ∈ done := fun x hx => by
    rw [List.mem_reverse, hends] at hx
    exact List.mem_of_mem_filter hx
  have hknown : ∀ x ∈ ends.reverse, x ∈ (q.run c limits : Progress W).known done :=
    fun x hx => List.mem_append_left _ (hmem x hx)
  refine ⟨c, hc, ends.reverse, ?_, fun x hx => hdone x (hmem x hx), ?_,
    fun x hx y hy => h.fresh x (hknown x hx) y (hknown y hy)⟩
  · rw [List.map_reverse, hends, ← h.paths_eq]
    rfl
  · refine List.pairwise_reverse.mpr ?_
    rw [hends]
    exact ((List.pairwise_append.mp h.numbered).1.filter _).imp fun h => h.symm

/-- Two lanes between two stops, the longer first. -/
def twoLanes : NetworkDescription where
  timezone := "UTC"
  calendars := []
  stops := [.alone stopA, .alone stopB]
  streetVertices := []
  streets := [⟨"A", "B", "detour", some 133.0, [.walk], false⟩,
    ⟨"A", "B", "lane", some 66.5, [.walk], false⟩]
  patterns := []
  transfers := []
  timedTransfers := []

/-- From the one stop to the other. -/
def lanesQuery : Query := ⟨0, 1, shuttleTime, {}⟩

def lanesTrial? : Option (Trial twoLanes lanesQuery {}) := Trial.run? _ _ _ [0]

theorem twoLanes_paths_fresh : ∃ t : Trial twoLanes lanesQuery {}, t.result.paths.length = 2 ∧
    ∃ found : List (Candidate Exact), found.map (·.trail) = t.result.paths ∧
      found.Pairwise (·.number ≠ ·.number) ∧ ∀ x ∈ found, ∀ y ∈ found, x.number < y.number →
        x.dominates false y = false := by
  have h : (lanesTrial?.any fun t => t.result.paths.length == 2) = true := by decide +kernel
  obtain ⟨t, -, h⟩ := (Option.any_eq_true _ _).mp h
  obtain ⟨c, hc, found, hfound, -, hnumbered, hfresh⟩ := search_paths_fresh t.search_eq
  exact ⟨t, beq_iff_eq.mp h, found, hfound, hnumbered, hfresh⟩

/-- The detour is found as a path, although the lane leads to the same place sooner and at less
weight. -/
theorem twoLanes_detour_dominated : ∃ t : Trial twoLanes lanesQuery {},
    ∃ lane detour : Trail Exact, t.result.paths = [lane, detour] ∧
      lane.last.label.dominates false detour.last.label = true ∧
        Weight.less lane.last.weight detour.last.weight = true ∧
          lane.last.time < detour.last.time := by
  have h : (lanesTrial?.any fun t => t.result.paths.length == 2 &&
      t.result.paths.head?.any fun lane => t.result.paths.getLast?.any fun detour =>
        lane.last.label.dominates false detour.last.label &&
          Weight.less lane.last.weight detour.last.weight &&
            decide (lane.last.time < detour.last.time)) = true := by decide +kernel
  obtain ⟨t, -, h⟩ := (Option.any_eq_true _ _).mp h
  rw [Bool.and_eq_true, beq_iff_eq] at h
  obtain ⟨lane, detour, hpaths⟩ := List.length_eq_two.mp h.1
  have h := h.2
  rw [hpaths] at h
  simp only [List.head?_cons, List.getLast?_cons_cons, List.getLast?_singleton, Option.any_some,
    Bool.and_eq_true, decide_eq_true_eq] at h
  exact ⟨t, lane, detour, hpaths, h.1.1, h.1.2, h.2⟩

end JourneyPlanner
