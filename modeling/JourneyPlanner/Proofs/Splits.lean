import Mathlib.Data.List.Induction

/-!
# Splitting a list at an element

What is said of an element of a list, of those before it and of those after it, is said of a list
with one element more either at this last one, or at an earlier one with the last among those after.
-/

namespace JourneyPlanner

/-- Some element of the list fits between those before it and those after it. -/
def SplitsAt {α : Type} (xs : List α) (fits : List α → α → List α → Prop) : Prop :=
  ∃ earlier x later, xs = earlier ++ x :: later ∧ fits earlier x later

variable {α : Type} {fits : List α → α → List α → Prop} {xs : List α} {last : α}

theorem not_splitsAt_nil : ¬ SplitsAt [] fits := by
  rintro ⟨earlier, x, later, heq, -⟩
  simp at heq

theorem splitsAt_append : SplitsAt (xs ++ [last]) fits ↔
    fits xs last [] ∨ SplitsAt xs fun earlier x later => fits earlier x (later ++ [last]) := by
  constructor
  · rintro ⟨earlier, x, later, heq, h⟩
    rcases List.eq_nil_or_concat later with rfl | ⟨later, y, rfl⟩
    · obtain ⟨rfl, hlast⟩ := List.append_inj' heq rfl
      exact .inl (List.singleton_inj.mp hlast ▸ h)
    · rw [List.concat_eq_append] at heq h
      rw [← List.cons_append, ← List.append_assoc] at heq
      obtain ⟨hxs, hlast⟩ := List.append_inj' heq rfl
      exact .inr ⟨earlier, x, later, hxs, List.singleton_inj.mp hlast ▸ h⟩
  · rintro (h | ⟨earlier, x, later, rfl, h⟩)
    · exact ⟨xs, last, [], rfl, h⟩
    · exact ⟨earlier, x, later ++ [last], by simp, h⟩

theorem splitsAt_and {P : Prop} :
    (SplitsAt xs fun earlier x later => fits earlier x later ∧ P) ↔ SplitsAt xs fits ∧ P := by
  constructor
  · rintro ⟨earlier, x, later, hxs, h, hP⟩
    exact ⟨⟨earlier, x, later, hxs, h⟩, hP⟩
  · rintro ⟨⟨earlier, x, later, hxs, h⟩, hP⟩
    exact ⟨earlier, x, later, hxs, h, hP⟩

end JourneyPlanner
