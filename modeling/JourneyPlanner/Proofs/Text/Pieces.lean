import Mathlib.Data.List.Basic
import JourneyPlanner.Text.Blank

/-!
# Pieces of a text

The pieces between separators are those of `List.splitOn`: joined with the separator they give the
text back, and a list of pieces without separators is what its joined text is cut into.
-/

namespace JourneyPlanner.Text

variable {α : Type}

theorem fields_eq_splitOnP (p : α → Bool) (as : List α) : fields p as = as.splitOnP p := by
  induction as with
  | nil => rfl
  | cons a as ih =>
    rw [List.splitOnP_cons_eq_if_modifyHead, fields, ih]
    split_ifs
    · rfl
    · cases h : as.splitOnP p with
      | nil => exact absurd h (List.splitOnP_ne_nil _ _)
      | cons piece pieces => rfl

theorem fields_eq_splitOn [BEq α] (a : α) (as : List α) : fields (· == a) as = as.splitOn a :=
  fields_eq_splitOnP (· == a) as

variable [BEq α] [LawfulBEq α] {a : α} {as : List α} {pieces : List (List α)}

/-- A text is cut into some pieces exactly when they hold no separator and are joined to it. -/
theorem fields_eq_iff : fields (· == a) as = pieces ↔
    pieces ≠ [] ∧ (∀ piece ∈ pieces, a ∉ piece) ∧ as = [a].intercalate pieces := by
  constructor
  · rintro rfl
    refine ⟨fields_ne_nil _ _, fun piece hpiece ha => ?_, ?_⟩
    · have h := not_isSeparator_of_mem_fields hpiece a ha
      rw [beq_self_eq_true] at h
      exact Bool.noConfusion h
    · rw [fields_eq_splitOn, List.intercalate_splitOn]
  · rintro ⟨hne, hpieces, rfl⟩
    rw [fields_eq_splitOn, List.splitOn_intercalate a hpieces hne]

end JourneyPlanner.Text
