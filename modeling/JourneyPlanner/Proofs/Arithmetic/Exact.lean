import Mathlib.Algebra.Order.Floor.Ring
import Mathlib.Data.Rat.Floor
import JourneyPlanner.Arithmetic.Weight

/-!
# Exact weights

Weights without rounding: rational numbers, with two infinities and a value for what is undefined.
A double enters as the number that it stands for.
-/

namespace JourneyPlanner

/-- A rational number, an infinity or nothing. -/
inductive Exact where
  | finite (value : ℚ)
  | infinite (negative : Bool)
  | undefined
  deriving DecidableEq

namespace Exact

open Float.Model (UnpackedFloat)

/-- A whole number times a power of two. -/
def scaled (n e : Int) : ℚ := if 0 ≤ e then n * (2 ^ e.toNat : Nat) else n / (2 ^ (-e).toNat : Nat)

/-- What an unpacked double stands for. -/
def ofUnpacked : UnpackedFloat → Exact
  | .infinity .negative => infinite true
  | .infinity .positive => infinite false
  | .notANumber => undefined
  | .zero _ => finite 0
  | .finite sign mantissa exponent _ => finite (scaled (sign.apply mantissa) exponent)

protected def add : Exact → Exact → Exact
  | finite p, finite q => finite (p + q)
  | infinite s, finite _ | finite _, infinite s => infinite s
  | infinite s, infinite t => if s = t then infinite s else undefined
  | undefined, _ | _, undefined => undefined

protected def neg : Exact → Exact
  | finite q => finite (-q)
  | infinite s => infinite !s
  | undefined => undefined

protected def mul : Exact → Exact → Exact
  | finite p, finite q => finite (p * q)
  | infinite s, finite q | finite q, infinite s =>
    if q = 0 then undefined else infinite (s != decide (q < 0))
  | infinite s, infinite t => infinite (s != t)
  | undefined, _ | _, undefined => undefined

protected def inv : Exact → Exact
  | finite q => if q = 0 then infinite false else finite q⁻¹
  | infinite _ => finite 0
  | undefined => undefined

/-- The place of a sort of value in the order: nothing comes last. -/
def grade : Exact → Nat
  | infinite true => 0
  | finite _ => 1
  | infinite false => 2
  | undefined => 3

/-- The number, for those that are one. -/
def value : Exact → ℚ
  | finite q => q
  | _ => 0

/-- Whether one value comes before another in the order of a queue. -/
def below (a b : Exact) : Bool :=
  decide (a.grade < b.grade ∨ a.grade = b.grade ∧ a.value < b.value)

end Exact

instance : Weight Exact where
  add := Exact.add
  sub a b := Exact.add a (Exact.neg b)
  mul := Exact.mul
  div a b := Exact.mul a (Exact.inv b)
  ofFloat x := Exact.ofUnpacked x.toModel.unpack
  ofInt n := .finite n
  infinity := .infinite false
  less a b := a != .undefined && b != .undefined && a.below b
  atMost a b := a != .undefined && b != .undefined && !b.below a
  isNaN a := a == .undefined
  isFinite a := a.grade == 1
  ceil
    | .finite q => .finite ⌈q⌉
    | a => a
  truncate
    | .finite q => max (-2 ^ 63) (min (if 0 ≤ q then ⌊q⌋ else ⌈q⌉) (2 ^ 63 - 1))
    | .infinite true => -2 ^ 63
    | .infinite false => 2 ^ 63 - 1
    | .undefined => 0
  rank a b := if a.below b then .lt else if b.below a then .gt else .eq

namespace Exact

variable {a b d : Exact} {p q : ℚ}

@[simp] theorem finite_add_finite (p q : ℚ) : (finite p + finite q : Exact) = finite (p + q) := rfl

@[simp] theorem finite_mul_finite (p q : ℚ) : (finite p * finite q : Exact) = finite (p * q) := rfl

@[simp] theorem finite_sub_finite (p q : ℚ) : (finite p - finite q : Exact) = finite (p - q) := by
  rw [sub_eq_add_neg]
  rfl

@[simp] theorem ofInt_eq (n : Int) : (Weight.ofInt n : Exact) = finite n := rfl

@[simp] theorem zero_eq : (Weight.zero : Exact) = finite 0 := by
  show finite ((0 : Int) : ℚ) = _
  rw [Int.cast_zero]

@[simp] theorem isFinite_finite (q : ℚ) : Weight.isFinite (finite q) = true := rfl

theorem zero_add (a : Exact) : Weight.zero + a = a := by
  rw [zero_eq]
  show Exact.add (finite 0) a = a
  cases a with
  | finite q => simp [Exact.add]
  | infinite s => rfl
  | undefined => rfl

theorem inv_finite (h : q ≠ 0) : Exact.inv (finite q) = finite q⁻¹ := if_neg h

theorem div_eq (h : Exact.inv b = finite p) : a / b = a * finite p := by
  show Exact.mul a (Exact.inv b) = _
  rw [h]
  rfl

/-- A product with a number is a number only if the other part is one. -/
theorem mul_finite_eq_finite (h : a * finite p = finite q) : ∃ x, a = finite x := by
  change Exact.mul a (finite p) = finite q at h
  cases a with
  | finite x => exact ⟨x, rfl⟩
  | infinite s => simp only [Exact.mul] at h; split_ifs at h
  | undefined => cases h

theorem ceil_eq_finite (h : Weight.ceil a = finite q) : ∃ x, a = finite x := by
  cases a with
  | finite x => exact ⟨x, rfl⟩
  | infinite s => cases h
  | undefined => cases h

/-- A sum is a number only if both of its parts are. -/
theorem add_eq_finite (h : a + b = finite q) :
    ∃ x y, a = finite x ∧ b = finite y ∧ x + y = q := by
  change Exact.add a b = finite q at h
  cases a <;> cases b <;> simp only [Exact.add] at h
  case finite.finite x y => exact ⟨x, y, rfl, rfl, finite.inj h⟩
  case infinite.infinite => split_ifs at h
  all_goals cases h

theorem isFinite_iff : Weight.isFinite a = true ↔ ∃ q, a = finite q := by
  cases a with
  | finite q => simp
  | infinite s => cases s <;> simp [Weight.isFinite, grade]
  | undefined => simp [Weight.isFinite, grade]

@[simp] theorem less_finite (p q : ℚ) : Weight.less (finite p) (finite q) = true ↔ p < q := by
  simp [Weight.less, below, grade, value]

@[simp] theorem less_infinite (p : ℚ) : Weight.less (finite p) (infinite false) = true := by
  simp [Weight.less, below, grade]

@[simp] theorem atMost_finite (p q : ℚ) : Weight.atMost (finite p) (finite q) = true ↔ p ≤ q := by
  simp [Weight.atMost, below, grade, value]

theorem lesser_finite (p q : ℚ) : Weight.lesser (finite p) (finite q) = finite (min p q) := by
  show (if Weight.less (finite q) (finite p) = true then finite q else finite p) = _
  by_cases h : q < p
  · rw [if_pos ((less_finite q p).mpr h), min_eq_right h.le]
  · rw [if_neg fun hl => h ((less_finite q p).mp hl), min_eq_left (not_lt.mp h)]

/-! ## The order of a queue -/

theorem below_irrefl (a : Exact) : a.below a = false := by
  simp [below]

theorem below_trans (h : a.below b = true) (h' : b.below d = true) : a.below d = true := by
  simp only [below, decide_eq_true_eq] at *
  rcases h with h | ⟨h, hv⟩ <;> rcases h' with h' | ⟨h', hv'⟩
  · exact .inl (h.trans h')
  · exact .inl (h' ▸ h)
  · exact .inl (h ▸ h')
  · exact .inr ⟨h.trans h', hv.trans hv'⟩

theorem not_below_trans (h : a.below b = false) (h' : b.below d = false) : a.below d = false := by
  simp only [below, decide_eq_false_iff_not, not_or, not_and, not_lt] at *
  refine ⟨h'.1.trans h.1, fun hg => ?_⟩
  have hab : a.grade = b.grade := le_antisymm (hg.le.trans h'.1) h.1
  exact (h'.2 (hab.symm.trans hg)).trans (h.2 hab)

/-! ## Doubles -/

theorem scaled_nonneg {n e : Int} (h : 0 ≤ n) : 0 ≤ scaled n e := by
  unfold scaled
  split_ifs
  · exact mul_nonneg (by exact_mod_cast h) (by positivity)
  · exact div_nonneg (by exact_mod_cast h) (by positivity)

theorem scaled_pos {n e : Int} (h : 0 < n) : 0 < scaled n e := by
  unfold scaled
  split_ifs
  · exact mul_pos (by exact_mod_cast h) (by positivity)
  · exact div_pos (by exact_mod_cast h) (by positivity)

theorem unpack_zero : (0.0 : Float).toModel.unpack = .zero .positive := rfl

theorem float_le_iff {x y : Float} :
    x ≤ y ↔ x.toModel.unpack.le y.toModel.unpack = true := by
  show Float.le x y = true ↔ _
  unfold Float.le
  rw [decide_eq_true_eq]
  exact Iff.rfl

theorem float_lt_iff {x y : Float} :
    x < y ↔ x.toModel.unpack.lt y.toModel.unpack = true := by
  show Float.lt x y = true ↔ _
  unfold Float.lt
  rw [decide_eq_true_eq]
  exact Iff.rfl

/-- Whether a value is a number or infinity, and not negative. -/
def Nonneg (a : Exact) : Prop := (∃ q, 0 ≤ q ∧ a = finite q) ∨ a = infinite false

theorem nonneg_finite : Nonneg (finite q) ↔ 0 ≤ q := by
  constructor
  · rintro (⟨p, hp, h⟩ | h)
    · cases h
      exact hp
    · cases h
  · exact fun h => .inl ⟨q, h, rfl⟩

theorem Nonneg.add (ha : a.Nonneg) (hb : b.Nonneg) : (a + b).Nonneg := by
  rcases ha with ⟨p, hp, rfl⟩ | rfl <;> rcases hb with ⟨q, hq, rfl⟩ | rfl
  · exact nonneg_finite.mpr (add_nonneg hp hq)
  · exact .inr rfl
  · exact .inr rfl
  · exact .inr rfl

theorem Nonneg.mul_finite (ha : a.Nonneg) (hq : 0 ≤ q) :
    (a * finite q).Nonneg ∨ a * finite q = undefined := by
  rcases ha with ⟨p, hp, rfl⟩ | rfl
  · exact .inl (nonneg_finite.mpr (mul_nonneg hp hq))
  · have heq : infinite false * finite q =
        if q = 0 then undefined else infinite (false != decide (q < 0)) := rfl
    rw [heq, decide_eq_false (not_lt.mpr hq)]
    split_ifs
    · exact .inr rfl
    · exact .inl (.inr rfl)

theorem Nonneg.of_atMost (ha : a.Nonneg) (h : Weight.atMost a (finite q) = true) :
    ∃ p, a = finite p ∧ p ≤ q := by
  rcases ha with ⟨p, -, rfl⟩ | rfl
  · exact ⟨p, rfl, (atMost_finite p q).mp h⟩
  · simp [Weight.atMost, below, grade] at h

theorem Nonneg.atMost_infinite (ha : a.Nonneg) : Weight.atMost a (infinite false) = true := by
  rcases ha with ⟨p, -, rfl⟩ | rfl <;> rfl

theorem Nonneg.atMost_self (ha : a.Nonneg) : Weight.atMost a a = true := by
  rcases ha with ⟨p, -, rfl⟩ | rfl
  · exact (atMost_finite p p).mpr (le_refl p)
  · rfl

theorem Nonneg.atMost_add (ha : a.Nonneg) (hb : b.Nonneg) : Weight.atMost a (a + b) = true := by
  rcases ha with ⟨p, hp, rfl⟩ | rfl <;> rcases hb with ⟨q, hq, rfl⟩ | rfl
  · exact (atMost_finite p (p + q)).mpr (le_add_of_nonneg_right hq)
  · rfl
  · rfl
  · rfl

theorem ofFloat_of_not_lt {x : Float} (h : ¬ x < 0.0) :
    (Weight.ofFloat x : Exact).Nonneg ∨ (Weight.ofFloat x : Exact) = undefined := by
  rw [float_lt_iff, unpack_zero] at h
  show (ofUnpacked x.toModel.unpack).Nonneg ∨ ofUnpacked x.toModel.unpack = _
  cases hx : x.toModel.unpack with
  | infinity sign =>
    rw [hx] at h
    cases sign with
    | negative => exact absurd rfl h
    | positive => exact .inl (.inr rfl)
  | notANumber => exact .inr rfl
  | zero sign => exact .inl (nonneg_finite.mpr (le_refl 0))
  | finite sign mantissa exponent pos =>
    rw [hx] at h
    cases sign with
    | negative => exact absurd rfl h
    | positive => exact .inl (nonneg_finite.mpr (scaled_nonneg (Int.natCast_nonneg mantissa)))

theorem not_lt_of_zero_le {x : Float} (h : 0.0 ≤ x) : ¬ x < 0.0 := by
  rw [float_le_iff, unpack_zero] at h
  rw [float_lt_iff, unpack_zero]
  intro h'
  cases hx : x.toModel.unpack with
  | infinity sign =>
    rw [hx] at h h'
    cases sign
    · exact absurd h Bool.false_ne_true
    · exact absurd h' Bool.false_ne_true
  | notANumber => rw [hx] at h; cases h
  | zero sign => rw [hx] at h'; cases h'
  | finite sign mantissa exponent pos =>
    rw [hx] at h h'
    cases sign
    · exact absurd h Bool.false_ne_true
    · exact absurd h' Bool.false_ne_true

theorem ofFloat_of_zero_le {x : Float} (hf : x.isFinite = true) (h : 0.0 ≤ x) :
    ∃ q, 0 ≤ q ∧ (Weight.ofFloat x : Exact) = finite q := by
  have hf' : x.toModel.unpack.isFinite = true := hf
  have hq := ofFloat_of_not_lt (not_lt_of_zero_le h)
  change (ofUnpacked x.toModel.unpack).Nonneg ∨ ofUnpacked x.toModel.unpack = _ at hq
  show ∃ q, 0 ≤ q ∧ ofUnpacked x.toModel.unpack = _
  cases hx : x.toModel.unpack with
  | infinity sign => rw [hx] at hf'; cases hf'
  | notANumber => rw [hx] at hf'; cases hf'
  | zero sign => exact ⟨0, le_refl 0, rfl⟩
  | finite sign mantissa exponent pos =>
    rw [hx] at hq
    rcases hq with (⟨q, hq, heq⟩ | heq) | heq
    · exact ⟨q, hq, heq⟩
    · cases heq
    · cases heq

/-- A positive double stands for a positive number or infinity. -/
theorem ofFloat_of_pos {x : Float} (h : 0.0 < x) :
    (∃ q, 0 < q ∧ (Weight.ofFloat x : Exact) = finite q) ∨
      (Weight.ofFloat x : Exact) = infinite false := by
  rw [float_lt_iff, unpack_zero] at h
  show (∃ q, 0 < q ∧ ofUnpacked x.toModel.unpack = _) ∨ ofUnpacked x.toModel.unpack = _
  cases hx : x.toModel.unpack with
  | infinity sign =>
    rw [hx] at h
    cases sign with
    | negative => cases h
    | positive => exact .inr rfl
  | notANumber => rw [hx] at h; cases h
  | zero sign => rw [hx] at h; cases h
  | finite sign mantissa exponent pos =>
    rw [hx] at h
    cases sign with
    | negative => cases h
    | positive => exact .inl ⟨_, scaled_pos (Int.natCast_pos.mpr pos), rfl⟩

end Exact

end JourneyPlanner
