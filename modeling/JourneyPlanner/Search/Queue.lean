/-!
# Priority queues

A self-adjusting heap: two heaps are merged along their right spines, whose children are swapped on
the way. The order is given with each operation.
-/

namespace JourneyPlanner

/-- A binary tree whose order is kept by the operations below. -/
inductive Queue (α : Type) where
  | empty
  | node (top : α) (left right : Queue α)

namespace Queue

variable {α : Type} (before : α → α → Bool)

/-- The elements, in no particular order. -/
def toList : Queue α → List α
  | empty => []
  | node top left right => top :: (toList left ++ toList right)

/-- Merges a node, whose right child knows how to be merged with others, into a queue. -/
def mergeNode (top : α) (left right : Queue α) (mergeRight : Queue α → Queue α) :
    Queue α → Queue α
  | empty => node top left right
  | node other otherLeft otherRight =>
    if before top other then node top (mergeRight (node other otherLeft otherRight)) left
    else node other (mergeNode top left right mergeRight otherRight) otherLeft

/-- The elements of both queues. -/
def merge : Queue α → Queue α → Queue α
  | empty => fun other => other
  | node top left right => mergeNode before top left right (merge right)

/-- The queue with one element more. -/
def push (q : Queue α) (a : α) : Queue α := merge before (node a empty empty) q

/-- The first element and the others. -/
def pop? (q : Queue α) : Option (α × Queue α) :=
  match q with
  | empty => none
  | node top left right => some (top, merge before left right)

theorem toList_mergeNode_perm (top : α) (left right : Queue α) (mergeRight : Queue α → Queue α)
    (h : ∀ q, (mergeRight q).toList.Perm (right.toList ++ q.toList)) (q : Queue α) :
    (mergeNode before top left right mergeRight q).toList.Perm
      (top :: (left.toList ++ right.toList) ++ q.toList) := by
  induction q with
  | empty => simp [mergeNode, toList]
  | node other otherLeft otherRight _ ih =>
    by_cases hb : before top other
    · simp only [mergeNode, hb, if_true, toList]
      refine List.Perm.cons top ?_
      refine List.perm_append_comm.trans ?_
      simp only [List.append_eq, List.append_assoc]
      exact List.Perm.append_left _ (h (node other otherLeft otherRight))
    · simp only [mergeNode, hb, Bool.false_eq_true, if_false, toList]
      refine (List.Perm.cons other (List.Perm.append_right otherLeft.toList ih)).trans ?_
      simp only [List.cons_append, List.append_assoc]
      refine (List.Perm.swap top other _).trans (List.Perm.cons top ?_)
      refine (List.perm_middle.symm.trans (List.Perm.append_left _ ?_))
      refine (List.perm_middle.symm.trans (List.Perm.append_left _ ?_))
      exact List.Perm.cons other List.perm_append_comm

/-- Merging keeps every element as often as it was there. -/
theorem toList_merge_perm (p q : Queue α) :
    (merge before p q).toList.Perm (p.toList ++ q.toList) := by
  induction p generalizing q with
  | empty => simp [merge, toList]
  | node top left right _ ih =>
    exact toList_mergeNode_perm before top left right _ ih q

theorem toList_push_perm (q : Queue α) (a : α) :
    (push before q a).toList.Perm (a :: q.toList) := by
  simpa [push, toList] using toList_merge_perm before (node a empty empty) q

theorem toList_pop_perm {q rest : Queue α} {a : α} (h : pop? before q = some (a, rest)) :
    q.toList.Perm (a :: rest.toList) := by
  cases q with
  | empty => simp [pop?] at h
  | node top left right =>
    simp only [pop?, Option.some.injEq, Prod.mk.injEq] at h
    obtain ⟨rfl, rfl⟩ := h
    exact List.Perm.cons _ (toList_merge_perm before left right).symm

theorem mem_toList_pop {q rest : Queue α} {a x : α} (h : pop? before q = some (a, rest)) :
    x ∈ q.toList ↔ x = a ∨ x ∈ rest.toList := by
  rw [(toList_pop_perm before h).mem_iff, List.mem_cons]

end Queue

end JourneyPlanner
