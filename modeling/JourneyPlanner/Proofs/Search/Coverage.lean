import JourneyPlanner.Proofs.Search.Paths
import JourneyPlanner.Proofs.Search.QueueOrder

/-!
# What a search keeps

A search holds the trails that it has queued, expanded or not. Until it pops the first path, each
state behind an expanded trail is held or dominated by one that is (`Plan.Kept.followed`), so that
a search never loses a journey at once: along any list of states that held states match step by
step, one still in the queue matches (`Plan.Kept.frontier`).
-/

namespace JourneyPlanner

variable {W : Type} [Weight W] {p : Plan W} {g g' : Progress W} {done : List (Trail W)}
  {t u : Trail W} {s origin : State W} {e : Edge}

/-- Whether a search queues a state that counts. -/
structure Plan.Admits (p : Plan W) (s : State W) : Prop where
  boardings_le : s.boardings ≤ p.limits.maxBoardings
  finite : Weight.isFinite (p.heuristic s) = true

/-- Whether a trail is in the queue or among those done. -/
def Progress.Holds (g : Progress W) (done : List (Trail W)) (t : Trail W) : Prop :=
  t ∈ done ∨ ∃ x ∈ g.queue.toList, x.trail = t

/-- Whether a state or one that dominates it is the last of a held trail. -/
def Progress.Covered (g : Progress W) (done : List (Trail W)) (s : State W) : Prop :=
  ∃ t, g.Holds done t ∧ (t.last = s ∨ t.last.label.dominates s.arriveBy s.label = true)

/-- Whether every label on the frontier is that of a held trail. -/
def Progress.Labelled (g : Progress W) (done : List (Trail W)) : Prop :=
  ∀ v, ∀ x ∈ g.frontier.labelsAt v, ∃ t, g.Holds done t ∧ t.last.label = x

/-- What holds of a search until it pops a path, when the trails `done` are expanded. -/
structure Plan.Kept (p : Plan W) (origin : State W) (done : List (Trail W)) (g : Progress W) :
    Prop where
  journey : ∀ t, g.Holds done t → p.context.Journey origin t.states
  labelled : g.Labelled done
  followed : ∀ t ∈ done, ∀ s, p.context.Step t.last s → p.Admits s → g.Covered done s
  not_goal : ∀ t ∈ done, p.isGoal t.last = false
  priority_eq : ∀ x ∈ g.queue.toList, x.priority = x.trail.last.weight + p.heuristic x.trail.last
  ordered : g.queue.Ordered Candidate.before

theorem Progress.Covered.mono {done' : List (Trail W)}
    (h : ∀ t, g.Holds done t → g'.Holds done' t) (hs : g.Covered done s) : g'.Covered done' s := by
  obtain ⟨t, ht, hd⟩ := hs
  exact ⟨t, h t ht, hd⟩

/-! ## The frontier -/

omit [Weight W] in
theorem Frontier.labelsAt_insert (f : Frontier W) (v w : VertexId) (labels : List (Label W)) :
    labelsAt ⟨f.labels.insert v labels⟩ w = if v = w then labels else f.labelsAt w := by
  unfold labelsAt
  show ((f.labels.insert v labels)[w]?).getD [] = _
  rw [Std.TreeMap.getElem?_insert]
  by_cases h : v = w
  · rw [if_pos h, if_pos (Std.LawfulEqCmp.compare_eq_iff_eq.mpr h)]
    rfl
  · rw [if_neg h, if_neg fun hc => h (Std.LawfulEqCmp.compare_eq_iff_eq.mp hc)]

theorem Frontier.exists_of_admit?_eq_none {f : Frontier W} (h : f.admit? s = none) :
    ∃ x ∈ f.labelsAt s.vertex, x.dominates s.arriveBy s.label = true := by
  unfold admit? at h
  simp only at h
  split_ifs at h with hany
  exact List.any_eq_true.mp hany

/-- What is admitted is dominated by no label there, and takes the place of those it dominates. -/
theorem Frontier.admit?_spec {f f' : Frontier W} (h : f.admit? s = some f') :
    (∀ x ∈ f.labelsAt s.vertex, x.dominates s.arriveBy s.label = false) ∧
      ∀ v x, x ∈ f'.labelsAt v ↔ v = s.vertex ∧ x = s.label ∨
        x ∈ f.labelsAt v ∧ (v = s.vertex → s.label.dominates s.arriveBy x = false) := by
  unfold admit? at h
  simp only at h
  split_ifs at h with hany
  cases h
  refine ⟨fun x hx => Bool.eq_false_iff.mpr fun hd => hany (List.any_eq_true.mpr ⟨x, hx, hd⟩),
    fun v x => ?_⟩
  rw [labelsAt_insert]
  split_ifs with hv
  · subst hv
    simp [or_comm]
  · simp [Ne.symm hv]

theorem Frontier.mem_of_admit?_eq_some {f f' : Frontier W} (h : f.admit? s = some f')
    {v : VertexId} {x : Label W} (hx : x ∈ f'.labelsAt v) : x = s.label ∨ x ∈ f.labelsAt v :=
  (((Frontier.admit?_spec h).2 v x).mp hx).imp And.right And.left

/-! ## Taking an edge -/

/-- What becomes of a search that expands a trail further. -/
structure Plan.Grows (p : Plan W) (done : List (Trail W)) (t : Trail W) (g g' : Progress W) :
    Prop where
  holds : ∀ u, g.Holds done u → g'.Holds done u
  labelled : g.Labelled done → g'.Labelled done
  queued : ∀ x ∈ g'.queue.toList, x ∈ g.queue.toList ∨
    x.priority = x.trail.last.weight + p.heuristic x.trail.last ∧
      ∃ s, p.context.Step t.last s ∧ x.trail = t.extend s
  ordered : g.queue.Ordered Candidate.before → g'.queue.Ordered Candidate.before
  paths_eq : g'.paths = g.paths
  explored_eq : g'.explored = g.explored

theorem Plan.Grows.refl (p : Plan W) (done : List (Trail W)) (t : Trail W) (g : Progress W) :
    p.Grows done t g g :=
  ⟨fun _ h => h, fun h => h, fun _ h => .inl h, fun h => h, rfl, rfl⟩

theorem Plan.Grows.trans {g'' : Progress W} (h : p.Grows done t g g') (h' : p.Grows done t g' g'') :
    p.Grows done t g g'' := by
  refine ⟨fun u hu => h'.holds u (h.holds u hu), fun hl => h'.labelled (h.labelled hl),
    fun x hx => ?_, fun ho => h'.ordered (h.ordered ho), h'.paths_eq.trans h.paths_eq,
    h'.explored_eq.trans h.explored_eq⟩
  rcases h'.queued x hx with hx | hx
  · exact h.queued x hx
  · exact .inr hx

/-- Taking an edge covers the state behind it. -/
theorem Plan.grows_tryEdge (hb : Queue.Preorder (Candidate.before : Candidate W → _ → Bool))
    (he : e ∈ p.context.network.edgesFrom t.last.vertex p.context.arriveBy) :
    p.Grows done t g (p.tryEdge t g e) ∧ (g.Labelled done →
      ∀ s, e.traverse t.last p.context = .ok s → p.Admits s →
        (p.tryEdge t g e).Covered done s) := by
  cases hs : e.traverse t.last p.context with
  | error r =>
    rw [Plan.tryEdge_of_error hs]
    exact ⟨⟨fun _ h => h, fun h => h, fun _ h => .inl h, fun h => h, rfl, rfl⟩,
      fun _ s h => nomatch h⟩
  | ok child =>
    unfold Plan.tryEdge
    rw [hs]
    simp only
    split_ifs with hrefused
    · refine ⟨.refl _ _ _ _, fun _ s h hadmits => ?_⟩
      obtain rfl := Except.ok.inj h
      have := hadmits.boardings_le
      rw [hadmits.finite] at hrefused
      simp only [Bool.not_true, Bool.false_eq_true, or_false, decide_eq_true_eq,
        Bool.or_eq_true] at hrefused
      omega
    · cases hf : g.frontier.admit? child with
      | none =>
        refine ⟨.refl _ _ _ _, fun hl s h _ => ?_⟩
        obtain rfl := Except.ok.inj h
        obtain ⟨x, hx, hd⟩ := Frontier.exists_of_admit?_eq_none hf
        obtain ⟨u, hu, rfl⟩ := hl _ x hx
        exact ⟨u, hu, .inr hd⟩
      | some frontier =>
        have hmem := fun x => (Queue.toList_push_perm Candidate.before g.queue
          ⟨child.weight + p.heuristic child, g.queued + 1, t.extend child⟩).mem_iff (a := x)
        have hnew : Progress.Holds { g with
            frontier := frontier
            queued := g.queued + 1
            queue := g.queue.push Candidate.before
              ⟨child.weight + p.heuristic child, g.queued + 1, t.extend child⟩ } done
            (t.extend child) :=
          .inr ⟨_, (hmem _).mpr List.mem_cons_self, rfl⟩
        refine ⟨⟨?_, ?_, ?_, ?_, rfl, rfl⟩, fun _ s h _ => ?_⟩
        · rintro u (hu | ⟨x, hx, rfl⟩)
          · exact .inl hu
          · exact .inr ⟨x, (hmem x).mpr (List.mem_cons_of_mem _ hx), rfl⟩
        · intro hl v x hx
          rcases Frontier.mem_of_admit?_eq_some hf hx with rfl | hx
          · exact ⟨_, hnew, rfl⟩
          · obtain ⟨u, hu, rfl⟩ := hl v x hx
            rcases hu with hu | ⟨y, hy, rfl⟩
            · exact ⟨u, .inl hu, rfl⟩
            · exact ⟨_, .inr ⟨y, (hmem y).mpr (List.mem_cons_of_mem _ hy), rfl⟩, rfl⟩
        · intro x hx
          rcases List.mem_cons.mp ((hmem x).mp hx) with rfl | hx
          · exact .inr ⟨rfl, child, ⟨e, he, hs⟩, rfl⟩
          · exact .inl hx
        · exact fun ho => ho.push hb _
        · obtain rfl := Except.ok.inj h
          exact ⟨_, hnew, .inl rfl⟩

theorem Plan.grows_foldl (hb : Queue.Preorder (Candidate.before : Candidate W → _ → Bool))
    {edges : List Edge} : ∀ {g : Progress W},
      (∀ e ∈ edges, e ∈ p.context.network.edgesFrom t.last.vertex p.context.arriveBy) →
        p.Grows done t g (edges.foldl (p.tryEdge t) g) ∧ (g.Labelled done → ∀ e ∈ edges, ∀ s,
          e.traverse t.last p.context = .ok s → p.Admits s →
            (edges.foldl (p.tryEdge t) g).Covered done s) := by
  induction edges with
  | nil => exact fun _ => ⟨.refl _ _ _ _, fun _ => nofun⟩
  | cons e rest ih =>
    intro g hmem
    obtain ⟨hgrows, hcovered⟩ : p.Grows done t g (p.tryEdge t g e) ∧ _ :=
      Plan.grows_tryEdge hb (hmem e List.mem_cons_self)
    obtain ⟨hgrows', hcovered'⟩ := ih (g := p.tryEdge t g e)
      fun x hx => hmem x (List.mem_cons_of_mem e hx)
    rw [List.foldl_cons]
    refine ⟨hgrows.trans hgrows', fun hl x hx s hs hadmits => ?_⟩
    rcases List.mem_cons.mp hx with rfl | hx
    · exact (hcovered hl s hs hadmits).mono hgrows'.holds
    · exact hcovered' (hgrows.labelled hl) x hx s hs hadmits

/-! ## Exploring -/

theorem Plan.paths_expand (t : Trail W) (g : Progress W) : (p.expand t g).paths = g.paths := by
  unfold Plan.expand
  refine List.foldlRecOn (motive := fun g' : Progress W => g'.paths = g.paths) _ _ rfl
    fun g' hg' e _ => ?_
  unfold Plan.tryEdge
  split
  · exact hg'
  · exact hg'
  · simp only
    split_ifs
    · exact hg'
    · split <;> exact hg'

/-- Expanding the first trail of the queue keeps what holds. -/
theorem Plan.Kept.expand (hb : Queue.Preorder (Candidate.before : Candidate W → _ → Bool))
    (h : p.Kept origin done g) {x : Candidate W} {rest : Queue (Candidate W)}
    (hpop : g.queue.pop? Candidate.before = some (x, rest)) (hgoal : p.isGoal x.trail.last = false)
    (explored : Nat) :
    let g' := p.expand x.trail { g with queue := rest, explored := explored }
    p.Kept origin (x.trail :: done) g' ∧ (∀ u, g.Holds done u → g'.Holds (x.trail :: done) u) ∧
      g'.paths = g.paths ∧ g'.explored = explored := by
  intro g'
  have hmem := fun y => Queue.mem_toList_pop Candidate.before hpop (x := y)
  obtain ⟨g₁, hg₁⟩ : ∃ g₁ : Progress W, g₁ = { g with queue := rest, explored := explored } :=
    ⟨_, rfl⟩
  have hqueue : g₁.queue = rest := by rw [hg₁]
  have hholds : ∀ u, g.Holds done u ↔ g₁.Holds (x.trail :: done) u := by
    intro u
    unfold Progress.Holds
    simp only [hmem, List.mem_cons, exists_eq_or_imp, hqueue]
    constructor
    · rintro (hu | rfl | hu)
      · exact .inl (.inr hu)
      · exact .inl (.inl rfl)
      · exact .inr hu
    · rintro ((rfl | hu) | hu)
      · exact .inr (.inl rfl)
      · exact .inl hu
      · exact .inr (.inr hu)
  have hlabelled : g₁.Labelled (x.trail :: done) := by
    intro v y hy
    obtain ⟨u, hu, rfl⟩ := h.labelled v y (by rw [hg₁] at hy; exact hy)
    exact ⟨u, (hholds u).mp hu, rfl⟩
  have hx : g.Holds done x.trail := .inr ⟨x, (hmem x).mpr (.inl rfl), rfl⟩
  obtain ⟨hgrows, hcovered⟩ : p.Grows (x.trail :: done) x.trail g₁ _ ∧ _ :=
    Plan.grows_foldl hb fun e he => he
  have hg' : g' = (p.context.network.edgesFrom x.trail.last.vertex p.context.arriveBy).foldl
      (p.tryEdge x.trail) g₁ := by rw [hg₁]; rfl
  rw [hg']
  refine ⟨⟨?_, hgrows.labelled hlabelled, ?_, ?_, ?_, hgrows.ordered ?_⟩,
    fun u hu => hgrows.holds u ((hholds u).mp hu), hgrows.paths_eq.trans (by rw [hg₁]),
    hgrows.explored_eq.trans (by rw [hg₁])⟩
  · rintro u (hu | ⟨y, hy, rfl⟩)
    · exact h.journey u ((hholds u).mpr (.inl hu))
    · rcases hgrows.queued y hy with hy | ⟨-, s, hs, hext⟩
      · exact h.journey _ ((hholds _).mpr (.inr ⟨y, hy, rfl⟩))
      · rw [hext]
        exact (h.journey _ hx).extend hs
  · intro u hu s hs hadmits
    rcases List.mem_cons.mp hu with rfl | hu
    · obtain ⟨e, he, htaken⟩ := hs
      exact hcovered hlabelled e he s htaken hadmits
    · exact (h.followed u hu s hs hadmits).mono fun w hw => hgrows.holds w ((hholds w).mp hw)
  · exact List.forall_mem_cons.mpr ⟨hgoal, h.not_goal⟩
  · intro y hy
    rcases hgrows.queued y hy with hy | ⟨hpriority, -⟩
    · rw [hqueue] at hy
      exact h.priority_eq y ((hmem y).mpr (.inr hy))
    · exact hpriority
  · rw [hqueue]
    exact (h.ordered.pop hb hpop).2

theorem Plan.getLast?_explore : ∀ {budget : Nat} {g : Progress W},
    g.paths.getLast? = some t → (p.explore budget g).paths.getLast? = some t
  | 0, _, h => h
  | budget + 1, g, h => by
    unfold Plan.explore
    cases hpop : g.queue.pop? Candidate.before with
    | none => exact h
    | some r =>
      obtain ⟨x, rest⟩ := r
      simp only
      split_ifs
      · show (x.trail :: g.paths).getLast? = _
        rw [List.getLast?_cons, h]
        rfl
      · refine getLast?_explore ?_
        show (x.trail :: g.paths).getLast? = _
        rw [List.getLast?_cons, h]
        rfl
      · exact getLast?_explore ((congrArg List.getLast? (Plan.paths_expand _ _)).trans h)

/-- A search that has found no path ends with its queue empty or its budget used up; one that has
found some popped the first of them while everything was kept. -/
theorem Plan.explore_spec (hb : Queue.Preorder (Candidate.before : Candidate W → _ → Bool))
    {start : Trail W} : ∀ (budget : Nat) {done : List (Trail W)} {g : Progress W},
      p.Kept origin done g → g.Holds done start → g.paths = [] →
        (∃ done', p.Kept origin done' (p.explore budget g) ∧
          (p.explore budget g).Holds done' start ∧ (p.explore budget g).paths = [] ∧
            ((p.explore budget g).queue.toList = [] ∨
              (p.explore budget g).explored = g.explored + budget)) ∨
        ∃ done' g' x rest, p.Kept origin done' g' ∧ g'.Holds done' start ∧
          g'.queue.pop? Candidate.before = some (x, rest) ∧ p.isGoal x.trail.last = true ∧
            (p.explore budget g).paths.getLast? = some x.trail
  | 0, done, g, h, hstart, hpaths => .inl ⟨done, h, hstart, hpaths, .inr rfl⟩
  | budget + 1, done, g, h, hstart, hpaths => by
    unfold Plan.explore
    cases hpop : g.queue.pop? Candidate.before with
    | none =>
      refine .inl ⟨done, h, hstart, hpaths, .inl ?_⟩
      cases hq : g.queue with
      | empty => rfl
      | node top left right => rw [hq] at hpop; cases hpop
    | some r =>
      obtain ⟨x, rest⟩ := r
      simp only
      cases hgoal : p.isGoal x.trail.last with
      | true =>
        refine .inr ⟨done, g, x, rest, h, hstart, hpop, hgoal, ?_⟩
        rw [if_pos rfl, hpaths]
        split_ifs
        · rfl
        · exact Plan.getLast?_explore rfl
      | false =>
        rw [if_neg Bool.false_ne_true]
        obtain ⟨hkept, hholds, hpaths', hexplored⟩ := h.expand hb hpop hgoal (g.explored + 1)
        rcases explore_spec hb budget hkept (hholds _ hstart) (hpaths'.trans hpaths)
          with ⟨done', hend, hheld, hnone, hstop⟩ | hfound
        · refine .inl ⟨done', hend, hheld, hnone, hstop.imp_right fun he => ?_⟩
          rw [he, hexplored]
          omega
        · exact .inr hfound

/-! ## Journeys are not lost -/

/-- Whether what matches the first of two states has a step that a search queues, and whatever
covers the state behind it matches the second. -/
def Plan.Mirrors (p : Plan W) (held : Trail W → Prop) (Matches : State W → State W → Prop)
    (s s' : State W) : Prop :=
  ∀ t, held t → Matches t.last s → ∃ y, p.context.Step t.last y ∧ p.Admits y ∧
    ∀ u, held u → (u.last = y ∨ u.last.label.dominates y.arriveBy y.label = true) →
      Matches u.last s'

/-- Along states that held trails match step by step, one in the queue matches, or the last is
matched by an expanded one. -/
theorem Plan.Kept.frontier {Matches : State W → State W → Prop} (h : p.Kept origin done g) :
    ∀ {rest : List (State W)} {s last : State W}, (s :: rest).getLast? = some last →
      (s :: rest).IsChain (p.Mirrors (g.Holds done) Matches) →
        (∃ t, g.Holds done t ∧ Matches t.last s) →
          (∃ x ∈ g.queue.toList, ∃ y ∈ s :: rest, Matches x.trail.last y) ∨
            ∃ t ∈ done, Matches t.last last
  | rest, s, last, hlast, hchain, ⟨t, ht, hm⟩ => by
    rcases id ht with hdone | ⟨x, hx, rfl⟩
    · cases rest with
      | nil =>
        rw [List.getLast?_singleton, Option.some.injEq] at hlast
        exact .inr ⟨t, hdone, hlast ▸ hm⟩
      | cons s' rest =>
        obtain ⟨hmirror, hchain⟩ := List.isChain_cons_cons.mp hchain
        rw [List.getLast?_cons_cons] at hlast
        obtain ⟨y, hy, hadmits, hall⟩ := hmirror t ht hm
        obtain ⟨u, hu, hd⟩ := h.followed t hdone y hy hadmits
        rcases frontier h hlast hchain ⟨u, hu, hall u hu hd⟩ with ⟨x, hx, z, hz, hxz⟩ | hend
        · exact .inl ⟨x, hx, z, List.mem_cons_of_mem s hz, hxz⟩
        · exact .inr hend
    · exact .inl ⟨x, hx, s, List.mem_cons_self, hm⟩

theorem Plan.toList_begin : (p.begin origin).queue.toList =
    [⟨p.heuristic origin, 0, Trail.start origin⟩] := rfl

theorem Plan.kept_begin (hzero : origin.weight + p.heuristic origin = p.heuristic origin) :
    p.Kept origin [] (p.begin origin) ∧ (p.begin origin).Holds [] (Trail.start origin) := by
  have hheld : (p.begin origin).Holds [] (Trail.start origin) :=
    .inr ⟨_, by rw [Plan.toList_begin]; exact List.mem_singleton_self _, rfl⟩
  have hordered : (Queue.node ⟨p.heuristic origin, 0, Trail.start origin⟩ .empty .empty).Ordered
      (Candidate.before : Candidate W → _ → Bool) :=
    ⟨fun _ hx => absurd hx List.not_mem_nil, fun _ hx => absurd hx List.not_mem_nil, trivial,
      trivial⟩
  refine ⟨⟨?_, ?_, fun _ ht => absurd ht List.not_mem_nil, fun _ ht => absurd ht List.not_mem_nil,
    ?_, hordered⟩, hheld⟩
  · rintro t (ht | ⟨x, hx, rfl⟩)
    · cases ht
    · rw [Plan.toList_begin, List.mem_singleton] at hx
      rw [hx]
      exact Context.journey_start
  · intro v x hx
    refine ⟨_, hheld, ?_⟩
    change x ∈ ((Frontier.empty.admit? origin).getD Frontier.empty).labelsAt v at hx
    have hempty : ∀ w, (Frontier.empty : Frontier W).labelsAt w = [] := fun w => by
      unfold Frontier.labelsAt Frontier.empty
      simp
    cases hf : (Frontier.empty : Frontier W).admit? origin with
    | none =>
      rw [hf, Option.getD_none, hempty] at hx
      cases hx
    | some f =>
      rw [hf, Option.getD_some] at hx
      rcases Frontier.mem_of_admit?_eq_some hf hx with rfl | hx
      · rfl
      · rw [hempty] at hx
        cases hx
  · intro x hx
    rw [Plan.toList_begin, List.mem_singleton] at hx
    rw [hx]
    exact hzero.symm

end JourneyPlanner
