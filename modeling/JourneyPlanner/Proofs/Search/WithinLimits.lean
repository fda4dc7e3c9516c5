import JourneyPlanner.Proofs.Search.FoundFirst
import JourneyPlanner.Proofs.Search.Limits

/-!
# Within the limits

A search explores no more states than it may, and none of its paths finds more vehicles than it may
(`search_within_limits`). It counts a path only after it has kept it, so that it gives one path when
it should give none. A path boards no more vehicles than it finds, unless it leaves one that it
never found.
-/

namespace JourneyPlanner

variable {W : Type} [Weight W] {p : Plan W} {g : Progress W} {x : Candidate W} {c : Context}
  {e : Edge} {s s' origin : State W} {taken : List (Passage W)}

/-! ## States explored -/

theorem Plan.explored_le (p : Plan W) : ∀ (budget : Nat) (g : Progress W),
    (p.explore budget g).explored ≤ g.explored + budget := by
  intro budget
  induction budget with
  | zero => exact fun g => le_refl _
  | succ budget ih =>
    intro g
    cases hpop : g.queue.pop? Candidate.before with
    | none =>
      rw [explore_of_empty hpop]
      exact Nat.le_add_right _ _
    | some r =>
      obtain ⟨x, rest⟩ := r
      have hnext := ih (p.next x rest g)
      rw [explored_next] at hnext
      rw [explore_succ hpop]
      split_ifs
      · rw [explored_next]
        omega
      · omega

/-! ## Paths kept -/

theorem Plan.paths_next (p : Plan W) (x : Candidate W) (rest : Queue (Candidate W))
    (g : Progress W) :
    (p.next x rest g).paths = if p.isGoal x.trail.last then x.trail :: g.paths else g.paths := by
  unfold next
  split_ifs
  · rfl
  · exact p.paths_expand x.trail _

theorem Plan.length_paths_le (p : Plan W) : ∀ (budget : Nat) (g : Progress W),
    g.paths.length < max 1 p.limits.maxResults →
      (p.explore budget g).paths.length ≤ max 1 p.limits.maxResults := by
  intro budget
  induction budget with
  | zero => exact fun g h => h.le
  | succ budget ih =>
    intro g h
    cases hpop : g.queue.pop? Candidate.before with
    | none =>
      rw [explore_of_empty hpop]
      exact h.le
    | some r =>
      obtain ⟨x, rest⟩ := r
      rw [explore_succ hpop]
      unfold isFull
      cases hgoal : p.isGoal x.trail.last with
      | false =>
        rw [Bool.false_and, if_neg Bool.false_ne_true]
        apply ih
        rwa [paths_next, hgoal, if_neg Bool.false_ne_true]
      | true =>
        have hlength : (p.next x rest g).paths.length = g.paths.length + 1 := by
          rw [paths_next, hgoal, if_pos rfl, List.length_cons]
        rw [Bool.true_and]
        split_ifs with hfull
        · omega
        · rw [decide_eq_true_eq, not_le] at hfull
          apply ih
          omega

/-- A search for no path ends where a search for one path does. -/
theorem Plan.explore_one (p : Plan W) (limits : SearchLimits)
    (hb : limits.maxBoardings = p.limits.maxBoardings) (hzero : p.limits.maxResults = 0)
    (hone : limits.maxResults = 1) : ∀ (budget : Nat) (g : Progress W),
      (p.withLimits limits).explore budget g = p.explore budget g := by
  have hfull : ∀ (x : Candidate W) (g : Progress W),
      (p.withLimits limits).isFull x g = p.isFull x g := by
    intro x g
    have hlimit : (p.withLimits limits).limits = limits := rfl
    unfold isFull
    rw [hlimit, hone, hzero, decide_eq_true (Nat.le_add_left 1 _), decide_eq_true (Nat.zero_le _)]
    rfl
  intro budget
  induction budget with
  | zero => exact fun g => rfl
  | succ budget ih =>
    intro g
    cases hpop : g.queue.pop? Candidate.before with
    | none => rw [explore_of_empty hpop, explore_of_empty hpop]
    | some r => rw [explore_succ hpop, explore_succ hpop, hfull, next_withLimits hb, ih]

/-! ## Vehicles found -/

/-- What holds of a search at every moment: none of its trails has found more vehicles than it
may. -/
structure Plan.Sparing (p : Plan W) (g : Progress W) : Prop where
  queued : ∀ x ∈ g.queue.toList, x.trail.last.boardings ≤ p.limits.maxBoardings
  found : ∀ t ∈ g.paths, t.last.boardings ≤ p.limits.maxBoardings

theorem Plan.Sparing.tryEdge (h : p.Sparing g) (t : Trail W) (e : Edge) :
    p.Sparing (p.tryEdge t g e) := by
  cases hs : e.traverse t.last p.context with
  | error r =>
    rw [Plan.tryEdge_of_error hs]
    exact ⟨h.queued, h.found⟩
  | ok child =>
    unfold Plan.tryEdge
    rw [hs]
    simp only
    split_ifs with hskip
    · exact h
    · rw [Bool.or_eq_true, not_or, decide_eq_true_eq, not_lt] at hskip
      cases g.frontier.admit? child with
      | none => exact h
      | some frontier =>
        refine ⟨fun x hx => ?_, h.found⟩
        rcases List.mem_cons.mp ((Queue.toList_push_perm _ _ _).mem_iff.mp hx) with rfl | hx
        · exact hskip.1
        · exact h.queued x hx

theorem Plan.Sparing.next {rest : Queue (Candidate W)} (h : p.Sparing g)
    (hpop : g.queue.pop? Candidate.before = some (x, rest)) : p.Sparing (p.next x rest g) := by
  have hx := h.queued x ((Queue.mem_toList_pop _ hpop).mpr (.inl rfl))
  have hrest : ∀ y ∈ rest.toList, y.trail.last.boardings ≤ p.limits.maxBoardings :=
    fun y hy => h.queued y ((Queue.mem_toList_pop _ hpop).mpr (.inr hy))
  unfold Plan.next
  split_ifs
  · exact ⟨hrest, List.forall_mem_cons.mpr ⟨hx, h.found⟩⟩
  · unfold expand
    exact List.foldlRecOn _ _ ⟨hrest, h.found⟩ fun g hg e _ => hg.tryEdge x.trail e

theorem Plan.Sparing.explore : ∀ {budget : Nat} {g : Progress W}, p.Sparing g →
    p.Sparing (p.explore budget g) := by
  intro budget
  induction budget with
  | zero => exact fun h => h
  | succ budget ih =>
    intro g h
    cases hpop : g.queue.pop? Candidate.before with
    | none => rwa [explore_of_empty hpop]
    | some r =>
      rw [explore_succ hpop]
      split_ifs
      · exact h.next hpop
      · exact ih (h.next hpop)

theorem Plan.sparing_begin (horigin : origin.boardings = 0) : p.Sparing (p.begin origin) where
  queued := by
    intro x hx
    have hx' : x ∈ [⟨p.heuristic origin, 0, Trail.start origin⟩] := hx
    rw [List.mem_singleton] at hx'
    rw [hx']
    exact horigin.trans_le (Nat.zero_le _)
  found := by
    intro t ht
    have ht' : t ∈ [] := ht
    cases ht'

theorem Context.Leads.boardings_eq (horigin : origin.boardings = 0)
    (h : c.Leads origin taken s) : s.boardings = taken.countP (·.edge.finds c.arriveBy) := by
  induction h with
  | start => exact horigin
  | @take taken s s' e h _ ht ih =>
    have hsame (he : e.gate? = none) (hs : s'.SameRides s) :
        s'.boardings = (⟨e, s⟩ :: taken : List (Passage W)).countP
          (·.edge.finds c.arriveBy) := by
      rw [hs.boardings_eq, ih, List.countP_cons_of_neg (by simp [Edge.not_finds he])]
    cases Edge.traverse_eq_ok.mp ht with
    | find hl hside _ =>
      have hfinds : e.finds c.arriveBy = true := by
        rw [Edge.finds_of_gate hl]
        exact bne_iff_ne.mpr hside
      rw [List.countP_cons_of_pos (by simpa using hfinds), ← ih]
      rfl
    | leave hl hside _ _ _ =>
      have hfinds : e.finds c.arriveBy = false := by
        rw [Edge.finds_of_gate hl, hside, bne_self_eq_false]
      rw [List.countP_cons_of_neg (by simp [hfinds]), ← ih]
      rfl
    | stay hl _ _ _ => exact hsame (Edge.gate?_eq_none_of_stay hl) e.sameRides_moved
    | change hl _ => exact hsame (by unfold Edge.gate?; rw [hl]) e.sameRides_changed
    | walk hl _ _ _ => exact hsame (by unfold Edge.gate?; rw [hl]) e.sameRides_moved

/-! ## Vehicles boarded -/

theorem Edge.not_finds_of_leaves {b : Bool} (h : e.leaves b = true) : e.finds b = false := by
  obtain ⟨g, hl, hside⟩ := exists_gate_of_leaves h
  rw [finds_of_gate hl, hside, bne_self_eq_false]

/-- How many vehicles the edges of a chain board, in the order of travel. -/
def boarded (taken : List (Passage W)) : Nat := taken.countP fun x => x.edge.kind == .board

/-- Whether some edge of a chain leaves a vehicle that was not found since the last one was left. -/
def Context.LeavesUnfound (c : Context) (taken : List (Passage W)) : Prop :=
  ∃ x before, x :: before <:+ taken ∧ x.edge.leaves c.arriveBy = true ∧
    ∀ trip, ¬ c.FoundIn before trip

omit [Weight W] in
/-- Vehicles that were found are left once each. -/
theorem Context.countP_leaves_le (h : ¬ c.LeavesUnfound taken) :
    taken.countP (·.edge.leaves c.arriveBy) ≤ taken.countP (·.edge.finds c.arriveBy) ∧
      ∀ trip, c.FoundIn taken trip →
        taken.countP (·.edge.leaves c.arriveBy) < taken.countP (·.edge.finds c.arriveBy) := by
  induction taken with
  | nil =>
    refine ⟨le_refl _, fun trip ⟨since, y, before, heq, _⟩ => ?_⟩
    exact absurd heq.symm (List.append_ne_nil_of_right_ne_nil _ (List.cons_ne_nil _ _))
  | cons x rest ih =>
    obtain ⟨hle, hfound⟩ := ih fun ⟨y, before, hsuffix, hy⟩ =>
      h ⟨y, before, hsuffix.trans (List.suffix_cons _ _), hy⟩
    by_cases hleaves : x.edge.leaves c.arriveBy = true
    · have hfinds : ¬ x.edge.finds c.arriveBy = true := by
        rw [Edge.not_finds_of_leaves hleaves]
        exact Bool.false_ne_true
      obtain ⟨trip, htrip⟩ : ∃ trip, c.FoundIn rest trip := by
        by_contra hnone
        exact h ⟨x, rest, List.suffix_rfl, hleaves, not_exists.mp hnone⟩
      rw [List.countP_cons_of_pos (by simpa using hleaves),
        List.countP_cons_of_neg (by simpa using hfinds)]
      refine ⟨hfound trip htrip, fun trip ⟨since, y, before, heq, hy, _, hsince⟩ => ?_⟩
      -- the latest edge neither finds a vehicle nor comes after one that did
      cases since with
      | nil =>
        obtain ⟨rfl, -⟩ := List.cons.inj heq
        exact absurd hy hfinds
      | cons z since =>
        obtain ⟨rfl, -⟩ := List.cons.inj heq
        rw [hsince x List.mem_cons_self] at hleaves
        cases hleaves
    · rw [List.countP_cons_of_neg (by simpa using hleaves)]
      have hgrows : rest.countP (·.edge.finds c.arriveBy) ≤
          (x :: rest).countP (·.edge.finds c.arriveBy) := (List.sublist_cons_self x rest).countP_le
      refine ⟨hle.trans hgrows, fun trip ⟨since, y, before, heq, hy, htrip, hsince⟩ => ?_⟩
      cases since with
      | nil =>
        obtain ⟨rfl, -⟩ := List.cons.inj heq
        rw [List.countP_cons_of_pos (by simpa using hy)]
        exact Nat.lt_succ_of_le hle
      | cons z since =>
        obtain ⟨rfl, rfl⟩ := List.cons.inj heq
        exact (hfound trip ⟨since, y, before, rfl, hy, htrip,
          fun w hw => hsince w (List.mem_cons_of_mem _ hw)⟩).trans_le hgrows

omit [Weight W] in
/-- A chain of edges boards no more vehicles than it finds, unless it searches backward and leaves
one that it never found. -/
theorem Context.boarded_le :
    boarded taken ≤ taken.countP (·.edge.finds c.arriveBy) ∨
      c.arriveBy = true ∧ c.LeavesUnfound taken := by
  cases harrive : c.arriveBy with
  | false => exact .inl (le_refl _)
  | true =>
    by_cases h : c.LeavesUnfound taken
    · exact .inr ⟨rfl, h⟩
    · have hle := (Context.countP_leaves_le h).1
      rw [harrive] at hle
      exact .inl hle

/-- On a wired network nobody who starts on the ground leaves a vehicle that was not found. -/
theorem Context.Leads.not_leavesUnfound (hn : c.network.Wired) (horigin : origin.trip = none)
    (hground : c.network.IsGround origin.vertex) (h : c.Leads origin taken s) :
    ¬ c.LeavesUnfound taken := by
  rintro ⟨x, before, hsuffix, hleaves, hnone⟩
  rcases (h.rider hn horigin).2 x before hsuffix hleaves with ⟨trip, -, hfound⟩ | ⟨-, hground'⟩
  · exact hnone trip hfound
  · exact hground' hground

/-! ## The limits of a search -/

/-- A search explores no more states than it may, and gives no more paths than it may, but for the
one path that it gives when it may give none: then it does what a search for one path does. No path
finds more vehicles than it may, or boards more, if the search does not go backward and leave a
vehicle that it never found; and it does not leave such a one if it starts on the ground of a wired
network. -/
theorem search_within_limits {k : Integers} {n : Network} {q : Query} {limits : SearchLimits}
    {r : SearchResult W} (hs : search k n q limits = .ok r) :
    r.explored ≤ limits.maxStates ∧
    (r.paths.length ≤ limits.maxResults ∨ limits.maxResults = 0 ∧ r.paths.length = 1) ∧
    (limits.maxResults = 0 → search k n q { limits with maxResults := 1 } = .ok r) ∧
    ∃ c, Context.make k n q.request q.time = .ok c ∧ ∀ t ∈ r.paths,
      (∃ taken, c.Leads q.begin taken t.last ∧ taken.map (·.state) = t.earlier) ∧
        ∀ taken, c.Leads q.begin taken t.last → taken.map (·.state) = t.earlier →
          taken.countP (·.edge.finds c.arriveBy) ≤ limits.maxBoardings ∧
          (boarded taken ≤ limits.maxBoardings ∨ c.arriveBy = true ∧ c.LeavesUnfound taken) ∧
          (n.Wired → n.IsGround q.origin → boarded taken ≤ limits.maxBoardings) := by
  obtain ⟨hq, c, hc, hb, hover, rfl⟩ := search_eq_ok.mp hs
  have hexplored := (q.plan c limits : Plan W).explored_le limits.maxStates
    ((q.plan c limits).begin q.begin)
  have hlength : (q.run c limits : Progress W).paths.length ≤ max 1 limits.maxResults :=
    (q.plan c limits).length_paths_le limits.maxStates _ (by simp [Plan.begin])
  have hsparing : (q.plan c limits : Plan W).Sparing (q.run c limits) :=
    (Plan.sparing_begin rfl).explore
  obtain ⟨c', hc', hjourney⟩ := search_sound hs
  obtain rfl := Except.ok.inj (hc'.symm.trans hc)
  refine ⟨?_, ?_, fun hzero => ?_, c', hc, fun t ht => ⟨(hjourney t ht).1.leads, ?_⟩⟩
  · exact hexplored.trans_eq (Nat.zero_add _)
  · rw [Progress.result, List.length_reverse]
    omega
  · have hrun : q.run c' { limits with maxResults := 1 } = (q.run c' limits : Progress W) := by
      exact (q.plan c' limits).explore_one { limits with maxResults := 1 } rfl hzero rfl _ _
    rw [search_eq_ok]
    exact ⟨hq, c', hc, hb, by rw [hrun]; exact hover, by rw [hrun]⟩
  · intro taken hleads _
    have hfinds : taken.countP (·.edge.finds c'.arriveBy) ≤ limits.maxBoardings := by
      rw [← hleads.boardings_eq rfl]
      exact hsparing.found t (List.mem_reverse.mp ht)
    have hboarded : boarded taken ≤ taken.countP (·.edge.finds c'.arriveBy) ∨
        c'.arriveBy = true ∧ c'.LeavesUnfound taken := Context.boarded_le
    refine ⟨hfinds, hboarded.imp_left fun h => h.trans hfinds, fun hn hground => ?_⟩
    obtain ⟨days, -, rfl⟩ := Context.make_eq_ok.mp hc
    exact (hboarded.resolve_right fun h => hleads.not_leavesUnfound hn rfl hground h.2).trans hfinds

/-- One journey with two boardings. -/
def oneTicket : SearchLimits := { maxStates := 60, maxResults := 1, maxBoardings := 2 }

/-- The one journey on both lines is within the limits. -/
theorem shuttle_within_limits : ∃ t : Trial shuttle shuttleQuery oneTicket,
    ∃ path ∈ t.result.paths, ∃ taken, t.context.Leads shuttleQuery.begin taken path.last ∧
      taken.map (·.state) = path.earlier ∧ path.last.boardings = 2 ∧ boarded taken ≤ 2 ∧
        t.result.explored ≤ 60 ∧ t.result.paths.length = 1 := by
  have h : ((Trial.run? shuttle shuttleQuery oneTicket []).any fun t =>
      (t.network.kindOf? shuttleQuery.origin).any (·.isGround) &&
        (t.result.paths.any fun path => path.last.boardings == 2) &&
          t.result.paths.length == 1) = true := by
    decide +kernel
  obtain ⟨t, -, h⟩ := (Option.any_eq_true _ _).mp h
  simp only [Bool.and_eq_true, beq_iff_eq] at h
  obtain ⟨⟨hground, hpath⟩, hlength⟩ := h
  obtain ⟨path, hpath, hboardings⟩ := List.any_eq_true.mp hpath
  obtain ⟨hexplored, -, -, c, hc, hpaths⟩ := search_within_limits t.search_eq
  obtain rfl := t.context_eq hc
  obtain ⟨⟨taken, hleads, hstates⟩, hwithin⟩ := hpaths path hpath
  obtain ⟨-, -, hboarded⟩ := hwithin taken hleads hstates
  exact ⟨t, path, hpath, taken, hleads, hstates, beq_iff_eq.mp hboardings,
    hboarded (NetworkDescription.wired_of_build t.build_eq) (Network.isGround_of_any hground),
    hexplored, hlength⟩

/-- A search for no path gives one. -/
theorem twoLanes_path_unasked : ∃ t : Trial twoLanes lanesQuery { maxResults := 0 },
    t.result.paths.length = 1 := by
  have h : ((Trial.run? twoLanes lanesQuery { maxResults := 0 } []).any fun t =>
      t.result.paths.length == 1) = true := by
    decide +kernel
  obtain ⟨t, -, h⟩ := (Option.any_eq_true _ _).mp h
  exact ⟨t, beq_iff_eq.mp h⟩

/-- From the first stop to where its vehicles depart. -/
def gangwayQuery : Query := ⟨0, 3, shuttleTime, { arriveBy := true }⟩

/-- A search backward from where vehicles depart boards one, though it may board none. -/
theorem stairs_boarded_unasked : ∃ t : Trial (stairs true true) gangwayQuery { maxBoardings := 0 },
    ∃ path ∈ t.result.paths, ∃ taken, t.context.Leads gangwayQuery.begin taken path.last ∧
      taken.map (·.state) = path.earlier ∧ boarded taken = 1 := by
  have h : ((Trial.run? (stairs true true) gangwayQuery { maxBoardings := 0 } []).any fun t =>
      t.result.paths.any fun path =>
        path.earlier.length == 1 && path.last.cameBy .board) = true := by
    decide +kernel
  obtain ⟨t, -, h⟩ := (Option.any_eq_true _ _).mp h
  obtain ⟨path, hpath, h⟩ := List.any_eq_true.mp h
  rw [Bool.and_eq_true, beq_iff_eq] at h
  obtain ⟨c, hc, hpaths⟩ := search_sound t.search_eq
  obtain rfl := t.context_eq hc
  obtain ⟨taken, hleads, hstates⟩ := (hpaths path hpath).1.leads
  rw [← hstates, List.length_map] at h
  obtain ⟨x, rfl⟩ := List.length_eq_one_iff.mp h.1
  refine ⟨t, path, hpath, [x], hleads, hstates, ?_⟩
  cases hleads with
  | take _ _ ht =>
    rw [(Edge.traverse_eq_ok.mp ht).cameBy] at h
    exact List.countP_cons_of_pos h.2

end JourneyPlanner
