import JourneyPlanner.Proofs.Search.Circles

/-!
# Limits of a search

A search takes the same moves whatever its limits on states and results, until one of them stops
it (`Plan.next_withLimits`). So a search with larger limits finds the same paths first
(`search_prefix`), and a search that neither limit has stopped finds nothing new with larger ones.
-/

namespace JourneyPlanner

variable {W : Type} [Weight W] {p : Plan W} {g : Progress W} {x : Candidate W}
  {limits limits' : SearchLimits}

/-- The plan with other limits. -/
def Plan.withLimits (p : Plan W) (limits : SearchLimits) : Plan W := { p with limits := limits }

/-! ## One search -/

theorem Plan.explored_next (p : Plan W) (x : Candidate W) (rest : Queue (Candidate W))
    (g : Progress W) : (p.next x rest g).explored = g.explored + 1 := by
  unfold next
  split_ifs
  · rfl
  · exact p.explored_expand x.trail _

/-- What a search keeps when it goes on: the paths found, the count of states explored, and that
something has overflowed. -/
structure Progress.Extends (g g' : Progress W) : Prop where
  paths : g.paths <:+ g'.paths
  explored : g.explored ≤ g'.explored
  overflowed : g.overflowed = true → g'.overflowed = true

omit [Weight W] in
theorem Progress.Extends.refl (g : Progress W) : g.Extends g := ⟨List.suffix_rfl, le_refl _, id⟩

theorem Plan.extends_explore (p : Plan W) (budget : Nat) (g : Progress W) :
    g.Extends (p.explore budget g) := by
  obtain ⟨-, h, -⟩ := @Plan.explore_of_moves W _ p (fun _ g' => g.Extends g')
    (fun hmove h => by
      cases hmove with
      | finish _ _ =>
        exact ⟨h.paths.trans (List.suffix_cons _ _), h.explored.trans (Nat.le_succ _), h.overflowed⟩
      | pass _ _ => exact ⟨h.paths, h.explored.trans (Nat.le_succ _), h.overflowed⟩
      | queue _ _ _ => exact ⟨h.paths, h.explored, h.overflowed⟩
      | flag hkept => exact ⟨h.paths, h.explored, fun ho => hkept (h.overflowed ho)⟩)
    budget [] g (.refl g)
  exact h

/-! ## Two searches -/

theorem Plan.next_withLimits (hb : limits.maxBoardings = p.limits.maxBoardings)
    (rest : Queue (Candidate W)) : (p.withLimits limits).next x rest g = p.next x rest g := by
  have htry : (p.withLimits limits).tryEdge = p.tryEdge := by
    funext t g e
    unfold tryEdge withLimits
    simp only [hb]
    rfl
  unfold next expand
  rw [htry]
  rfl

omit [Weight W] in
theorem Plan.isFull_of_withLimits (hr : p.limits.maxResults ≤ limits.maxResults)
    (h : (p.withLimits limits).isFull x g = true) : p.isFull x g = true := by
  unfold isFull at *
  rw [Bool.and_eq_true, decide_eq_true_eq] at *
  exact ⟨h.1, hr.trans h.2⟩

/-- With larger limits a search goes on from where it stops with smaller ones, if it has been
stopped by them. -/
theorem Plan.explore_withLimits (hb : limits.maxBoardings = p.limits.maxBoardings)
    (hr : p.limits.maxResults ≤ limits.maxResults) : ∀ {budget budget' : Nat} {g : Progress W},
      budget ≤ budget' →
        (p.explore budget g).Extends ((p.withLimits limits).explore budget' g) ∧
        ((p.explore budget g).explored < g.explored + budget →
          (p.explore budget g).paths.length < p.limits.maxResults →
            (p.withLimits limits).explore budget' g = p.explore budget g)
  | 0, budget', g, _ =>
    ⟨(p.withLimits limits).extends_explore budget' g, fun h => absurd h (lt_irrefl _)⟩
  | budget + 1, 0, g, h => absurd h (Nat.not_succ_le_zero _)
  | budget + 1, budget' + 1, g, h => by
    cases hpop : g.queue.pop? Candidate.before with
    | none =>
      rw [explore_of_empty hpop, explore_of_empty hpop]
      exact ⟨.refl _, fun _ _ => rfl⟩
    | some r =>
      obtain ⟨x, rest⟩ := r
      rw [explore_succ hpop, explore_succ hpop, next_withLimits hb]
      cases hfull : p.isFull x g with
      | true =>
        rw [if_pos rfl]
        -- the path that fills the smaller limit is the last of the shorter search
        have hlength : p.limits.maxResults ≤ (p.next x rest g).paths.length := by
          unfold isFull at hfull
          rw [Bool.and_eq_true, decide_eq_true_eq] at hfull
          unfold next
          rw [if_pos hfull.1]
          exact hfull.2
        split_ifs
        · exact ⟨.refl _, fun _ _ => rfl⟩
        · exact ⟨(p.withLimits limits).extends_explore budget' (p.next x rest g),
            fun _ hless => absurd hless (not_lt.mpr hlength)⟩
      | false =>
        have hfull' : (p.withLimits limits).isFull x g = false :=
          Bool.eq_false_iff.mpr fun h =>
            Bool.false_ne_true (hfull.symm.trans (isFull_of_withLimits hr h))
        rw [hfull', if_neg Bool.false_ne_true, if_neg Bool.false_ne_true]
        obtain ⟨hextends, hsame⟩ :=
          explore_withLimits hb hr (g := p.next x rest g) (Nat.le_of_succ_le_succ h)
        refine ⟨hextends, fun hless => hsame ?_⟩
        rw [explored_next]
        omega

omit [Weight W] in
theorem Progress.answer_of_overflowed (h : g.overflowed = true) : g.answer = .error .overflow :=
  if_pos h

/-- Limits only cut the result of a search short: with larger limits on states and results the
paths found before come first, after at least as many states, and a search that has used up
neither limit gives the same result with larger ones. In words the longer search may overflow
behind what the shorter one finds. -/
theorem search_prefix {k : Integers} {n : Network} {q : Query}
    (hb : limits.maxBoardings = limits'.maxBoardings) (hs : limits.maxStates ≤ limits'.maxStates)
    (hr : limits.maxResults ≤ limits'.maxResults) :
    (∃ e, (search k n q limits : Except SearchError (SearchResult W)) = .error e ∧
      (search k n q limits' : Except SearchError (SearchResult W)) = .error e) ∨
    (∃ r r' : SearchResult W, search k n q limits = .ok r ∧ search k n q limits' = .ok r' ∧
      r.paths <+: r'.paths ∧ r.explored ≤ r'.explored ∧
      (r.explored < limits.maxStates → r.paths.length < limits.maxResults → r' = r)) ∨
    (k = .words ∧ (∃ r : SearchResult W, search k n q limits = .ok r) ∧
      (search k n q limits' : Except SearchError (SearchResult W)) = .error .overflow) := by
  cases hq : q.unknownVertex? n with
  | some v =>
    refine .inl ⟨.unknownVertex v, ?_, ?_⟩ <;> unfold search <;> rw [hq]
  | none =>
    cases hc : Context.make k n q.request q.time with
    | error e =>
      refine .inl ⟨.calendar e, ?_, ?_⟩ <;> unfold search <;> rw [hq, hc]
    | ok c =>
      cases htable : (lowerBounds c q.target : Except Overflow (Array W)) with
      | error o =>
        exact .inl ⟨.overflow, search_of_no_bounds hq hc htable, search_of_no_bounds hq hc htable⟩
      | ok bounds =>
        obtain rfl := (lowerBounds_eq_ok.mp htable).2
        rw [search_of_lowerBounds hq hc htable, search_of_lowerBounds hq hc htable]
        obtain ⟨hextends, hsame⟩ :
            (q.run c limits : Progress W).Extends (q.run c limits') ∧ _ :=
          Plan.explore_withLimits (p := (q.plan c limits : Plan W)) hb.symm hr
            (g := (q.plan c limits).begin q.begin) hs
        cases hover : (q.run c limits : Progress W).overflowed with
        | true =>
          exact .inl ⟨.overflow, Progress.answer_of_overflowed hover,
            Progress.answer_of_overflowed (hextends.overflowed hover)⟩
        | false =>
          have hok : (q.run c limits : Progress W).answer = .ok (q.run c limits).result :=
            Progress.answer_eq_ok.mpr ⟨hover, rfl⟩
          cases hover' : (q.run c limits' : Progress W).overflowed with
          | true =>
            refine .inr (.inr ⟨?_, ⟨_, hok⟩, Progress.answer_of_overflowed hover'⟩)
            cases k with
            | words => rfl
            | unbounded =>
              rw [q.overflowed_run (Context.integers_of_make hc)] at hover'
              cases hover'
          | false =>
            refine .inr (.inl ⟨_, _, hok, Progress.answer_eq_ok.mpr ⟨hover', rfl⟩,
              List.reverse_prefix.mpr hextends.paths, hextends.explored, fun hless hfew => ?_⟩)
            have hrun : q.run c limits' = (q.run c limits : Progress W) := by
              refine hsame (hless.trans_eq (Nat.zero_add _).symm) ?_
              rwa [Progress.result, List.length_reverse] at hfew
            rw [hrun]

def lanesCutTrial? : Option (Trial twoLanes lanesQuery { maxResults := 1 }) := Trial.run? _ _ _ [0]

/-- Of the two ways from the one stop to the other, a search for one way finds the first. -/
theorem twoLanes_prefix : ∃ (n : Network) (r r' : SearchResult Exact),
    twoLanes.build onlyUtc = .ok n ∧ search .unbounded n lanesQuery { maxResults := 1 } = .ok r ∧
      search .unbounded n lanesQuery {} = .ok r' ∧ r.paths.length = 1 ∧ r'.paths.length = 2 ∧
        r.paths <+: r'.paths ∧ r.explored ≤ r'.explored := by
  have h : (lanesTrial?.any fun t => t.result.paths.length == 2) = true := by decide +kernel
  have hcut : (lanesCutTrial?.any fun t => t.result.paths.length == 1) = true := by
    decide +kernel
  obtain ⟨t, -, h⟩ := (Option.any_eq_true _ _).mp h
  obtain ⟨t', -, hcut⟩ := (Option.any_eq_true _ _).mp hcut
  have hn : t'.network = t.network := Except.ok.inj (t'.build_eq.symm.trans t.build_eq)
  have hcut' := t'.search_eq
  rw [hn] at hcut'
  let tight : SearchLimits := { maxResults := 1 }
  let loose : SearchLimits := {}
  have hb : tight.maxBoardings = loose.maxBoardings := rfl
  have hs : tight.maxStates ≤ loose.maxStates := le_refl _
  have hr : tight.maxResults ≤ loose.maxResults := by decide
  rcases search_prefix (W := Exact) (k := .unbounded) (n := t.network) (q := lanesQuery) hb hs hr
    with ⟨e, he, -⟩ | ⟨r, r', hr, hr', hpaths, hexplored, -⟩ | ⟨hk, -⟩
  · rw [hcut'] at he
    cases he
  · obtain rfl := Except.ok.inj (hcut'.symm.trans hr)
    obtain rfl := Except.ok.inj (t.search_eq.symm.trans hr')
    exact ⟨t.network, t'.result, t.result, t.build_eq, hcut', t.search_eq, beq_iff_eq.mp hcut,
      beq_iff_eq.mp h, hpaths, hexplored⟩
  · cases hk

end JourneyPlanner
