import JourneyPlanner.Proofs.Arithmetic.Exact
import JourneyPlanner.Search.Planner

/-!
# The order of queues

A queue whose operations are given a total preorder keeps its elements in heap order, and so gives
its elements up first come first (`Queue.Ordered.pop`). Both orders that a search uses are total
preorders when weights are exact.
-/

namespace JourneyPlanner

namespace Queue

variable {α : Type} {before : α → α → Bool}

/-- Nothing below a node comes strictly before it. -/
def Ordered (before : α → α → Bool) : Queue α → Prop
  | empty => True
  | node top left right => (∀ x ∈ left.toList, before top x = true) ∧
      (∀ x ∈ right.toList, before top x = true) ∧ Ordered before left ∧ Ordered before right

/-- Whether an order is a total preorder. -/
structure Preorder (before : α → α → Bool) : Prop where
  total : ∀ a b, before a b = true ∨ before b a = true
  trans : ∀ a b c, before a b = true → before b c = true → before a c = true

theorem Ordered.mergeNode (hb : Preorder before) {top : α} {left right : Queue α}
    {mergeRight : Queue α → Queue α} (h : Ordered before (node top left right))
    (hperm : ∀ q, (mergeRight q).toList.Perm (right.toList ++ q.toList))
    (hord : ∀ q, Ordered before q → Ordered before (mergeRight q)) {q : Queue α}
    (hq : Ordered before q) :
    Ordered before (Queue.mergeNode before top left right mergeRight q) := by
  induction q with
  | empty => exact h
  | node other otherLeft otherRight _ ih =>
    obtain ⟨hleft, hright, hl, -⟩ := h
    obtain ⟨hol, hor, hql, hqr⟩ := hq
    unfold Queue.mergeNode
    by_cases hlt : before top other = true
    · rw [if_pos hlt]
      refine ⟨fun x hx => ?_, hleft, hord _ ⟨hol, hor, hql, hqr⟩, hl⟩
      rcases List.mem_append.mp ((hperm _).mem_iff.mp hx) with hx | hx
      · exact hright x hx
      · rcases List.mem_cons.mp hx with rfl | hx
        · exact hlt
        · rcases List.mem_append.mp hx with hx | hx
          · exact hb.trans _ _ _ hlt (hol x hx)
          · exact hb.trans _ _ _ hlt (hor x hx)
    · rw [if_neg hlt]
      have hge := (hb.total top other).resolve_left hlt
      refine ⟨fun x hx => ?_, hol, ih hqr, hql⟩
      have hmem :=
        (toList_mergeNode_perm before top left right mergeRight hperm otherRight).mem_iff.mp hx
      simp only [List.cons_append, List.mem_cons, List.mem_append] at hmem
      rcases hmem with rfl | (hx | hx) | hx
      · exact hge
      · exact hb.trans _ _ _ hge (hleft x hx)
      · exact hb.trans _ _ _ hge (hright x hx)
      · exact hor x hx

theorem Ordered.merge (hb : Preorder before) {p q : Queue α} (hp : Ordered before p)
    (hq : Ordered before q) : Ordered before (Queue.merge before p q) := by
  induction p generalizing q with
  | empty => exact hq
  | node top left right _ ih =>
    exact hp.mergeNode hb (toList_merge_perm before right) (fun _ h => ih hp.2.2.2 h) hq

theorem Ordered.push (hb : Preorder before) {q : Queue α} (hq : Ordered before q) (a : α) :
    Ordered before (Queue.push before q a) :=
  Ordered.merge hb (p := node a empty empty) ⟨nofun, nofun, trivial, trivial⟩ hq

theorem Ordered.pop (hb : Preorder before) {q rest : Queue α} {a : α} (hq : Ordered before q)
    (h : Queue.pop? before q = some (a, rest)) :
    (∀ x ∈ rest.toList, before a x = true) ∧ Ordered before rest := by
  cases q with
  | empty => cases h
  | node top left right =>
    obtain ⟨rfl, rfl⟩ := Prod.mk.inj (Option.some.inj h)
    obtain ⟨hleft, hright, hl, hr⟩ := hq
    refine ⟨fun x hx => ?_, hl.merge hb hr⟩
    rcases List.mem_append.mp ((toList_merge_perm before left right).mem_iff.mp hx) with hx | hx
    · exact hleft x hx
    · exact hright x hx

end Queue

/-! ## The orders of a search -/

/-- An order by a first key in exact arithmetic and then by a number. -/
def rankedBefore {α : Type} (key : α → Exact) (number : α → Nat) (a b : α) : Bool :=
  match Weight.rank (key a) (key b) with
  | .lt => true
  | .gt => false
  | .eq => decide (number a ≤ number b)

theorem rankedBefore_iff {α : Type} (key : α → Exact) (number : α → Nat) {a b : α} :
    rankedBefore key number a b = true ↔ (key b).below (key a) = false ∧
      ((key a).below (key b) = true ∨ number a ≤ number b) := by
  unfold rankedBefore
  show (match (if (key a).below (key b) then Ordering.lt
    else if (key b).below (key a) then .gt else .eq) with
    | .lt => true | .gt => false | .eq => decide (number a ≤ number b)) = true ↔ _
  cases h₁ : (key a).below (key b) <;> cases h₂ : (key b).below (key a) <;> simp
  have := Exact.below_trans h₁ h₂
  rw [Exact.below_irrefl] at this
  cases this

theorem preorder_rankedBefore {α : Type} (key : α → Exact) (number : α → Nat) :
    Queue.Preorder (rankedBefore key number) := by
  constructor
  · intro a b
    rw [rankedBefore_iff, rankedBefore_iff]
    cases h₁ : (key a).below (key b) <;> cases h₂ : (key b).below (key a) <;> simp
    · exact Nat.le_total _ _
    · have := Exact.below_trans h₁ h₂
      rw [Exact.below_irrefl] at this
      cases this
  · intro a b d hab hbd
    rw [rankedBefore_iff] at *
    refine ⟨Exact.not_below_trans hbd.1 hab.1, ?_⟩
    by_contra hnot
    rw [not_or, Bool.not_eq_true] at hnot
    rcases hab.2 with h | h
    · rw [Exact.not_below_trans hnot.1 hbd.1] at h
      cases h
    · rcases hbd.2 with h' | h'
      · rw [Exact.not_below_trans hab.1 hnot.1] at h'
        cases h'
      · exact hnot.2 (h.trans h')

theorem preorder_cheaper : Queue.Preorder (cheaper : Exact × VertexId → _ → Bool) :=
  preorder_rankedBefore Prod.fst Prod.snd

theorem preorder_before : Queue.Preorder (Candidate.before : Candidate Exact → _ → Bool) :=
  preorder_rankedBefore Candidate.priority Candidate.number

theorem le_of_cheaper {p q : ℚ} {v w : VertexId}
    (h : cheaper (Exact.finite p, v) (.finite q, w) = true) : p ≤ q := by
  have hb := (rankedBefore_iff Prod.fst Prod.snd).mp h
  simpa [Exact.below, Exact.grade, Exact.value] using hb.1

theorem Candidate.le_of_before {a b : Candidate Exact} {x : Exact} {u w : ℚ}
    (h : Candidate.before a b = true) (ha : a.priority = x + .finite 0) (hx : x.Nonneg)
    (hb : b.priority = .finite u) (hu : u ≤ w) : Weight.atMost x (.finite w) = true := by
  have hle := ((rankedBefore_iff Candidate.priority Candidate.number).mp h).1
  rw [ha, hb] at hle
  rcases hx with ⟨p, -, rfl⟩ | rfl
  · rw [Exact.finite_add_finite, add_zero] at hle
    have hpu : p ≤ u := by simpa [Exact.below, Exact.grade, Exact.value] using hle
    exact (Exact.atMost_finite p w).mpr (hpu.trans hu)
  · change (Exact.finite u).below (.infinite false) = false at hle
    simp [Exact.below, Exact.grade] at hle

end JourneyPlanner
