import Mathlib.Data.Prod.Lex
import JourneyPlanner.Proofs.Arithmetic.Exact

/-!
# Arithmetics with an order

A search that keeps one label in place of another relies on comparisons that go together: what is at
most as much as something is at most as much as whatever that is. Exact weights are compared so, and
so are doubles, with those that are no numbers left out; the others are at most as much as
themselves.
-/

namespace JourneyPlanner

/-- An arithmetic in which weights are ordered, but for those that are no numbers. -/
class Weight.Ordered (W : Type) [Weight W] : Prop where
  atMost_trans : ∀ {a b d : W}, Weight.atMost a b = true → Weight.atMost b d = true →
    Weight.atMost a d = true

/-- An ordered arithmetic in which every number is at most as much as itself. -/
class Weight.Preordered (W : Type) [Weight W] : Prop extends Weight.Ordered W where
  atMost_self : ∀ {a : W}, Weight.isNaN a = false → Weight.atMost a a = true

theorem Exact.atMost_iff {a b : Exact} :
    Weight.atMost a b = true ↔ a ≠ .undefined ∧ b ≠ .undefined ∧ b.below a = false := by
  simp [Weight.atMost, and_assoc]

instance : Weight.Ordered Exact where
  atMost_trans h h' := by
    rw [Exact.atMost_iff] at h h' ⊢
    exact ⟨h.1, h'.2.1, Exact.not_below_trans h'.2.2 h.2.2⟩

instance : Weight.Preordered Exact where
  atMost_self h := by
    have hnum := of_decide_eq_false h
    exact Exact.atMost_iff.mpr ⟨hnum, hnum, Exact.below_irrefl _⟩

theorem Exact.eq_of_grade_of_value {a b : Exact} (hgrade : a.grade = b.grade)
    (hvalue : a.value = b.value) : a = b := by
  cases a with
  | finite q =>
    cases b with
    | finite q' => exact congrArg finite hvalue
    | infinite t => cases t <;> cases hgrade
    | undefined => cases hgrade
  | infinite s =>
    cases b with
    | finite q' => cases s <;> cases hgrade
    | infinite t => cases s <;> cases t <;> first | rfl | cases hgrade
    | undefined => cases s <;> cases hgrade
  | undefined =>
    cases b with
    | finite q' => cases hgrade
    | infinite t => cases t <;> cases hgrade
    | undefined => rfl

theorem Exact.eq_of_atMost {a b : Exact} (h : Weight.atMost a b = true)
    (h' : Weight.atMost b a = true) : a = b := by
  have hba := (Exact.atMost_iff.mp h).2.2
  have hab := (Exact.atMost_iff.mp h').2.2
  simp only [below, decide_eq_false_iff_not, not_or, not_and, not_lt] at hab hba
  have hgrade := hba.1.antisymm hab.1
  exact eq_of_grade_of_value hgrade ((hba.2 hgrade.symm).antisymm (hab.2 hgrade))

/-! ## Doubles -/

open Float.Model (UnpackedFloat)

/-- The place of a double in the order of doubles: its sort, its exponent and its mantissa. -/
def placeOf : UnpackedFloat → Option (Int ×ₗ Int ×ₗ Int)
  | .notANumber => none
  | .infinity .negative => some (toLex (-2, toLex (0, 0)))
  | .finite .negative m e _ => some (toLex (-1, toLex (-e, -m)))
  | .zero _ => some (toLex (0, toLex (0, 0)))
  | .finite .positive m e _ => some (toLex (1, toLex (e, m)))
  | .infinity .positive => some (toLex (2, toLex (0, 0)))

theorem isLE_compare_then {e e' : Int} {m m' : Nat} :
    ((compare e e').then (compare m m')).isLE = true ↔ e < e' ∨ e = e' ∧ m ≤ m' := by
  rw [Ordering.isLE_then_iff_or, compare_lt_iff_lt, compare_eq_iff_eq, Std.isLE_compare]

theorem isGE_compare_then {e e' : Int} {m m' : Nat} :
    ((compare e e').then (compare m m')).isGE = true ↔ e' < e ∨ e = e' ∧ m' ≤ m := by
  rw [← Ordering.isLE_swap, Ordering.swap_then, ← Std.OrientedOrd.eq_swap,
    ← Std.OrientedOrd.eq_swap, isLE_compare_then, eq_comm]

theorem le_iff_placeOf {x y : UnpackedFloat} : x.le y = true ↔
    ∃ a b, placeOf x = some a ∧ placeOf y = some b ∧ a ≤ b := by
  delta UnpackedFloat.le UnpackedFloat.compare placeOf
  cases x with
  | notANumber => simp
  | infinity s | zero s =>
    cases s <;> cases y with
    | notANumber => simp
    | infinity s | zero s | finite s =>
      cases s <;> dsimp only <;> simp [Prod.Lex.toLex_le_toLex] <;> decide
  | finite s m e =>
    cases s <;> cases y with
    | notANumber => dsimp only; simp
    | infinity s | zero s => cases s <;> dsimp only <;> simp [Prod.Lex.toLex_le_toLex]
    | finite s m' e' =>
      cases s <;> dsimp only <;>
        simp [Prod.Lex.toLex_le_toLex, isLE_compare_then, isGE_compare_then]

instance : Weight.Ordered Float where
  atMost_trans {x y z} h h' := by
    change decide (x ≤ y) = true at h
    change decide (y ≤ z) = true at h'
    show decide (x ≤ z) = true
    rw [decide_eq_true_eq, Exact.float_le_iff, le_iff_placeOf] at h h' ⊢
    obtain ⟨a, b, ha, hb, hab⟩ := h
    obtain ⟨b', d, hb', hd, hbd⟩ := h'
    obtain rfl := Option.some.inj (hb.symm.trans hb')
    exact ⟨a, d, ha, hd, hab.trans hbd⟩

theorem exists_placeOf {x : UnpackedFloat} (h : x.isNaN = false) : ∃ a, placeOf x = some a := by
  cases x with
  | notANumber => cases h
  | infinity s | zero s | finite s => cases s <;> exact ⟨_, rfl⟩

instance : Weight.Preordered Float where
  atMost_self {x} h := by
    change x.toModel.unpack.isNaN = false at h
    obtain ⟨a, ha⟩ := exists_placeOf h
    show decide (x ≤ x) = true
    rw [decide_eq_true_eq, Exact.float_le_iff, le_iff_placeOf]
    exact ⟨a, a, ha, ha, le_refl a⟩

end JourneyPlanner
