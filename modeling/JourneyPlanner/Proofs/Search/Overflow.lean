import JourneyPlanner.Proofs.Journey.Days
import JourneyPlanner.Proofs.Journey.Overflow
import JourneyPlanner.Proofs.Search.Paths

/-!
# Searches in words

A search without bound never ends in an overflow (`search_unbounded`).
-/

namespace JourneyPlanner

variable {W : Type} [Weight W] {c : Context} {p : Plan W} {g : Progress W} {t : Trail W}

/-! ## Without bound -/

theorem Plan.overflowed_tryEdge {e : Edge} (he : e.traverse t.last p.context ≠ .error .overflow) :
    (p.tryEdge t g e).overflowed = g.overflowed := by
  cases hs : e.traverse t.last p.context with
  | error r =>
    have hr : r ≠ .overflow := fun hr => he (hs.trans (congrArg _ hr))
    rw [Plan.tryEdge_of_error hs, decide_eq_false hr]
    rfl
  | ok child =>
    unfold Plan.tryEdge
    rw [hs]
    simp only
    split_ifs
    · rfl
    · cases g.frontier.admit? child <;> rfl

theorem Plan.overflowed_expand (hk : p.context.integers = .unbounded) :
    (p.expand t g).overflowed = g.overflowed := by
  unfold Plan.expand
  refine List.foldlRecOn (motive := fun g' : Progress W => g'.overflowed = g.overflowed) _ _ rfl
    fun g' hg' e _ => ?_
  rw [Plan.overflowed_tryEdge (Edge.traverse_ne_overflow hk), hg']

theorem Plan.overflowed_explore (hk : p.context.integers = .unbounded) :
    ∀ {budget : Nat} {g : Progress W}, (p.explore budget g).overflowed = g.overflowed
  | 0, _ => rfl
  | budget + 1, g => by
    unfold Plan.explore
    cases g.queue.pop? Candidate.before with
    | none => rfl
    | some r =>
      simp only
      split_ifs
      · rfl
      · exact overflowed_explore hk
      · exact (overflowed_explore hk).trans (overflowed_expand hk)

theorem Query.overflowed_run (q : Query) (hk : c.integers = .unbounded) {limits : SearchLimits} :
    (q.run c limits : Progress W).overflowed = false :=
  Plan.overflowed_explore (p := q.plan c limits) hk

theorem Context.integers_of_make {k : Integers} {n : Network} {r : Request} {time : Int}
    (h : Context.make k n r time = .ok c) : c.integers = k := by
  obtain ⟨days, -, rfl⟩ := Context.make_eq_ok.mp h
  rfl

theorem search_unbounded {n : Network} {q : Query} {limits : SearchLimits}
    (hv : q.unknownVertex? n = none)
    (hc : Context.make .unbounded n q.request q.time = .ok c) :
    search .unbounded n q limits = .ok (q.run c limits : Progress W).result :=
  have hk := Context.integers_of_make hc
  search_eq_ok.mpr ⟨hv, c, hc, Context.lowerBounds_of_fit (Context.staysFit_of_unbounded hk),
    q.overflowed_run hk, rfl⟩

end JourneyPlanner
