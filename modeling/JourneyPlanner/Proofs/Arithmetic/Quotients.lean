import Mathlib.Algebra.Order.Field.Power
import Mathlib.Data.Nat.Cast.Order.Field
import Mathlib.Tactic.FieldSimp
import Mathlib.Tactic.Linarith
import Mathlib.Tactic.Positivity
import Mathlib.Tactic.Ring
import JourneyPlanner.Proofs.Arithmetic.Doubles

/-!
# Quotients of doubles

A quotient of doubles is computed to 53 binary digits or more, and then rounded. Rounding moves it
up by no more than one unit of the last place that is kept (`ofUnpacked_round`), so that a finite
double that is divided by one above one stays finite, and is not above the exact quotient by more
than one part in `2 ^ 52` (`ofFloat_div`).
-/

namespace JourneyPlanner

open Float.Model (UnpackedFloat Format totalExponent)
open Float.Model.UnpackedFloat (Sign ExtendedMantissa Accuracy)

theorem scaled_eq_zpow (n e : Int) : Exact.scaled n e = n * (2 : ℚ) ^ e := by
  rcases le_total 0 e with he | he
  · obtain ⟨k, rfl⟩ := Int.eq_ofNat_of_zero_le he
    rw [scaled_of_nonneg he]
    push_cast
    rfl
  · obtain ⟨k, hk⟩ := Int.eq_ofNat_of_zero_le (Int.neg_nonneg_of_nonpos he)
    obtain rfl : e = -k := by omega
    rw [scaled_of_nonpos he, Int.neg_neg, Int.toNat_natCast, zpow_neg, zpow_natCast, div_eq_mul_inv]
    push_cast
    rfl

/-! ## Rounding -/

/-- The exponent of the last place that is kept of a number. -/
def lastPlace (m : Nat) (e : Int) : Int := max (m.log2 + e - 52) (-1074)

theorem roundedMantissa_bounds (x : ExtendedMantissa) :
    x.mantissa ≤ x.roundedMantissa ∧ x.roundedMantissa ≤ x.mantissa + 1 := by
  obtain ⟨m, _ | _, _ | _⟩ := x
  · exact ⟨le_refl m, Nat.le_succ m⟩
  · exact ⟨le_refl m, Nat.le_succ m⟩
  · show m ≤ m + m % 2 ∧ m + m % 2 ≤ m + 1
    omega
  · exact ⟨Nat.le_succ m, le_refl _⟩

theorem mantissa_ofMantissaAndAccuracy (m : Nat) (a : Accuracy) :
    (ExtendedMantissa.ofMantissaAndAccuracy m a).mantissa = m := by
  match a with
  | .exact | .inexact .lt | .inexact .eq | .inexact .gt => rfl

theorem shiftToTargetExponent_fst (m : Nat) (e : Int) (a : Accuracy) :
    (UnpackedFloat.shiftToTargetExponent Format.binary64 m e a).1.mantissa =
      m / 2 ^ (lastPlace m e - e).toNat := by
  unfold UnpackedFloat.shiftToTargetExponent UnpackedFloat.shiftToExponent
  dsimp only
  rw [mantissa_shift, mantissa_ofMantissaAndAccuracy, targetExponent_eq]
  rfl

theorem shiftToTargetExponent_snd {m : Nat} {e : Int} (a : Accuracy) (h : e ≤ lastPlace m e) :
    (UnpackedFloat.shiftToTargetExponent Format.binary64 m e a).2 = lastPlace m e := by
  unfold UnpackedFloat.shiftToTargetExponent UnpackedFloat.shiftToExponent
  dsimp only
  rw [targetExponent_eq]
  show e + ((lastPlace m e - e).toNat : Int) = lastPlace m e
  omega

theorem shiftToTargetExponent_carry {e : Int} (he : -1074 ≤ e) :
    UnpackedFloat.shiftToTargetExponent Format.binary64 (2 ^ 53) e .exact =
      (⟨2 ^ 52, false, false⟩, e + 1) := by
  have hlog : (2 ^ 53).log2 = 53 := Nat.log2_two_pow
  have hshift : (max (((2 ^ 53).log2 : Int) + e - 52) (-1074) - e).toNat = 1 := by
    rw [hlog]
    omega
  unfold UnpackedFloat.shiftToTargetExponent UnpackedFloat.shiftToExponent
  dsimp only
  rw [targetExponent_eq, hshift]
  rfl

theorem kept_lt {m : Nat} {e : Int} (h : e ≤ lastPlace m e) :
    m / 2 ^ (lastPlace m e - e).toNat < 2 ^ 53 := by
  have hlog : m.log2 + 1 ≤ 53 + (lastPlace m e - e).toNat := by
    unfold lastPlace at *
    omega
  rw [Nat.div_lt_iff_lt_mul (Nat.two_pow_pos _), ← Nat.pow_add]
  exact Nat.lt_log2_self.trans_le (Nat.pow_le_pow_right (by decide) hlog)

/-- What is kept has 53 binary digits, unless the last place is the least that there is. -/
theorem le_kept {m : Nat} {e : Int} (h : e ≤ lastPlace m e) :
    2 ^ 52 ≤ m / 2 ^ (lastPlace m e - e).toNat ∨ lastPlace m e = -1074 := by
  by_cases hleast : lastPlace m e = -1074
  · exact .inr hleast
  · have hlog : m.log2 = 52 + (lastPlace m e - e).toNat := by
      unfold lastPlace at *
      omega
    have hm : m ≠ 0 := by
      rintro rfl
      rw [Nat.log2_zero] at hlog
      omega
    rw [Nat.le_div_iff_mul_le (Nat.two_pow_pos _), ← Nat.pow_add, ← hlog]
    exact .inl (Nat.log2_self_le hm)

/-- Rounding keeps the digits up to the last place, or one unit more, and carries. -/
theorem roundWithAccuracy_eq (s : Sign) {m : Nat} {e : Int} (a : Accuracy)
    (h : e ≤ lastPlace m e) :
    ∃ r, m / 2 ^ (lastPlace m e - e).toNat ≤ r ∧ r ≤ m / 2 ^ (lastPlace m e - e).toNat + 1 ∧
      UnpackedFloat.roundWithAccuracy Format.binary64 s m e a =
        if hr : r = 0 then .zero s
        else if r < 2 ^ 53 then .finite s r (lastPlace m e) (Nat.pos_of_ne_zero hr)
        else .finite s (2 ^ 52) (lastPlace m e + 1) (Nat.two_pow_pos 52) := by
  have hleast : -1074 ≤ lastPlace m e := le_max_right _ _
  have hfst := shiftToTargetExponent_fst m e a
  have hsnd := shiftToTargetExponent_snd a h
  have hlt := kept_lt h
  unfold UnpackedFloat.roundWithAccuracy
  generalize UnpackedFloat.shiftToTargetExponent Format.binary64 m e a = shifted at *
  obtain ⟨x, t⟩ := shifted
  obtain rfl : t = lastPlace m e := hsnd
  have hbounds := roundedMantissa_bounds x
  rw [show x.mantissa = _ from hfst] at hbounds
  refine ⟨x.roundedMantissa, hbounds.1, hbounds.2, ?_⟩
  dsimp only
  by_cases hr : x.roundedMantissa < 2 ^ 53
  · rw [shiftToTargetExponent_of_lt .exact hr hleast]
    by_cases hzero : x.roundedMantissa = 0
    · rw [dif_pos hzero]
      exact dif_pos hzero
    · rw [dif_neg hzero, if_pos hr]
      exact dif_neg hzero
  · have hcarry : x.roundedMantissa = 2 ^ 53 := by omega
    rw [hcarry, shiftToTargetExponent_carry hleast]
    rfl

theorem kept_le {m : Nat} {e : Int} (h : e ≤ lastPlace m e) :
    ((m / 2 ^ (lastPlace m e - e).toNat : Nat) : ℚ) * 2 ^ lastPlace m e ≤ m * 2 ^ e := by
  obtain ⟨k, hk⟩ := Int.eq_ofNat_of_zero_le (Int.sub_nonneg_of_le h)
  have hplace : lastPlace m e = e + k := by omega
  have hdiv : ((m / 2 ^ k : Nat) : ℚ) * 2 ^ k ≤ m := by exact_mod_cast Nat.div_mul_le_self m (2 ^ k)
  rw [hk, Int.toNat_natCast, hplace, zpow_add₀ two_ne_zero, zpow_natCast, mul_comm ((2 : ℚ) ^ e),
    ← mul_assoc]
  exact mul_le_mul_of_nonneg_right hdiv (by positivity)

/-- One unit of the last place is the least double, or no more than one part in `2 ^ 52`. -/
theorem unit_le {m : Nat} {e : Int} (h : e ≤ lastPlace m e) :
    (2 : ℚ) ^ lastPlace m e ≤ max (2 ^ (-1074 : Int)) ((m : ℚ) * 2 ^ e / 2 ^ 52) := by
  rcases le_kept h with hkept | hleast
  · have hkept : (2 : ℚ) ^ 52 ≤ (m / 2 ^ (lastPlace m e - e).toNat : Nat) := by
      exact_mod_cast hkept
    refine le_max_of_le_right ((le_div_iff₀ (by positivity)).mpr ?_)
    rw [mul_comm]
    exact (mul_le_mul_of_nonneg_right hkept (by positivity)).trans (kept_le h)
  · exact le_max_of_le_left (by rw [hleast])

/-- The greatest double. -/
def greatest : ℚ := (2 ^ 53 - 1) * 2 ^ (971 : Int)

theorem lastPlace_le {m : Nat} {e : Int} (h : e ≤ lastPlace m e)
    (hv : (m : ℚ) * 2 ^ e < greatest) : lastPlace m e ≤ 971 := by
  by_contra hlarge
  have hunit : (2 : ℚ) ^ (972 : Int) ≤ 2 ^ lastPlace m e :=
    zpow_le_zpow_right₀ (by norm_num) (by omega)
  have hkept := (le_kept h).resolve_right (by omega)
  have hkept : (2 : ℚ) ^ 52 ≤ (m / 2 ^ (lastPlace m e - e).toNat : Nat) := by exact_mod_cast hkept
  have hle : (2 : ℚ) ^ 52 * 2 ^ (972 : Int) ≤ m * 2 ^ e :=
    (mul_le_mul hkept hunit (by positivity) (Nat.cast_nonneg _)).trans (kept_le h)
  have hgreatest : greatest ≤ 2 ^ 52 * 2 ^ (972 : Int) := by
    unfold greatest
    rw [show (972 : Int) = 1 + 971 from rfl, zpow_add₀ two_ne_zero, ← mul_assoc]
    exact mul_le_mul_of_nonneg_right (by norm_num) (by positivity)
  exact absurd (hle.trans_lt hv) (not_lt.mpr hgreatest)

theorem lastPlace_lt_of_carry {m r : Nat} {e : Int} (h : e ≤ lastPlace m e)
    (hv : (m : ℚ) * 2 ^ e < greatest) (hr : r ≤ m / 2 ^ (lastPlace m e - e).toNat + 1)
    (hcarry : 2 ^ 53 ≤ r) : lastPlace m e < 971 := by
  refine lt_of_le_of_ne (lastPlace_le h hv) fun heq => ?_
  have hkept : ((2 ^ 53 - 1 : Nat) : ℚ) ≤ (m / 2 ^ (lastPlace m e - e).toNat : Nat) := by
    exact_mod_cast (by omega : 2 ^ 53 - 1 ≤ m / 2 ^ (lastPlace m e - e).toNat)
  have hle : greatest ≤ m * 2 ^ e := by
    refine le_trans ?_ (kept_le h)
    rw [heq] at hkept ⊢
    unfold greatest
    refine mul_le_mul_of_nonneg_right (le_trans ?_ hkept) (by positivity)
    norm_num
  exact absurd hv (not_lt.mpr hle)

/-- Rounding moves a number up by no more than one unit of the last place. -/
theorem rounded_le {m r : Nat} {e : Int} (h : e ≤ lastPlace m e)
    (hr : r ≤ m / 2 ^ (lastPlace m e - e).toNat + 1) :
    (r : ℚ) * 2 ^ lastPlace m e ≤ m * 2 ^ e + 2 ^ lastPlace m e :=
  have hr : (r : ℚ) ≤ (m / 2 ^ (lastPlace m e - e).toNat : Nat) + 1 := by exact_mod_cast hr
  calc (r : ℚ) * 2 ^ lastPlace m e
      ≤ ((m / 2 ^ (lastPlace m e - e).toNat : Nat) + 1) * 2 ^ lastPlace m e :=
        mul_le_mul_of_nonneg_right hr (by positivity)
    _ ≤ m * 2 ^ e + 2 ^ lastPlace m e := by
      rw [add_mul, one_mul]
      exact add_le_add_left (kept_le h) _

theorem scaled_carry (e : Int) :
    Exact.scaled ((2 ^ 52 : Nat) : Int) (e + 1) = ((2 ^ 53 : Nat) : ℚ) * 2 ^ e := by
  rw [scaled_eq_zpow, zpow_add_one₀ two_ne_zero]
  push_cast
  ring

/-- A number below the greatest double is rounded to a number, up by no more than one unit of the
last place. -/
theorem ofUnpacked_round {m : Nat} {e : Int} (a : Accuracy) (h : e ≤ lastPlace m e)
    (hv : (m : ℚ) * 2 ^ e < greatest) :
    ∃ q, Exact.ofUnpacked (Float.Model.pack
        (UnpackedFloat.roundWithAccuracy Format.binary64 .positive m e a)).unpack = .finite q ∧
      0 ≤ q ∧ q ≤ m * 2 ^ e + 2 ^ lastPlace m e := by
  have hleast : -1074 ≤ lastPlace m e := le_max_right _ _
  obtain ⟨r, hlow, hhigh, heq⟩ := roundWithAccuracy_eq .positive a h
  have hvalue := rounded_le h hhigh
  rw [heq]
  by_cases hzero : r = 0
  · rw [dif_pos hzero]
    exact ⟨0, rfl, le_refl 0, by positivity⟩
  rw [dif_neg hzero]
  by_cases hr : r < 2 ^ 53
  · -- the digits that are kept, or one unit more, without a carry
    have hcanonical : IsCanonical
        (.finite .positive r (lastPlace m e) (Nat.pos_of_ne_zero hzero)) :=
      ⟨hr, hleast, lastPlace_le h hv, (le_kept h).imp_left fun hkept => hkept.trans hlow⟩
    rw [if_pos hr, unpack_pack hcanonical]
    refine ⟨_, rfl, Exact.scaled_nonneg (Int.natCast_nonneg r), ?_⟩
    rw [scaled_eq_zpow]
    exact hvalue
  · -- all digits that are kept were ones
    have hcarry : r = 2 ^ 53 := by
      have := kept_lt h
      omega
    have hlt := lastPlace_lt_of_carry h hv hhigh hcarry.ge
    have hcanonical : IsCanonical
        (.finite .positive (2 ^ 52) (lastPlace m e + 1) (Nat.two_pow_pos 52)) :=
      ⟨by decide, by omega, by omega, .inl (le_refl _)⟩
    rw [if_neg hr, unpack_pack hcanonical]
    refine ⟨_, rfl, Exact.scaled_nonneg (Int.natCast_nonneg _), ?_⟩
    rw [hcarry] at hvalue
    exact (scaled_carry (lastPlace m e)).le.trans hvalue

/-! ## Division -/

/-- The exponent that a quotient is computed to. -/
def quotientPlace (m : Nat) (e : Int) (n : Nat) (f : Int) : Int :=
  min (e - f) (max (m.log2 + e - (n.log2 + f) - 53) (-1074))

/-- The digits that a quotient is computed to. -/
def quotientDigits (m : Nat) (e : Int) (n : Nat) (f : Int) : Nat :=
  m * 2 ^ (e - f - quotientPlace m e n f).toNat / n

theorem divCore_eq (m : Nat) (e : Int) (n : Nat) (f : Int) :
    UnpackedFloat.divCore Format.binary64 m e n f =
      (quotientDigits m e n f, quotientPlace m e n f,
        UnpackedFloat.accuracyOfFraction
          (m * 2 ^ (e - f - quotientPlace m e n f).toNat % n) n) := by
  have htarget : Format.binary64.targetExponent (totalExponent m e - totalExponent n f) =
      max (m.log2 + e - (n.log2 + f) - 53) (-1074) := by
    unfold Format.targetExponent totalExponent
    show max ((m.log2 : Int) + 1 + e - (n.log2 + 1 + f) - 53) (-1074) = _
    omega
  unfold UnpackedFloat.divCore
  dsimp only
  rw [htarget, Nat.shiftLeft_eq]
  rfl

theorem quotientPlace_le {m n : Nat} (e f : Int) (hm : 0 < m) (hn : 0 < n) :
    quotientPlace m e n f ≤ lastPlace (quotientDigits m e n f) (quotientPlace m e n f) := by
  by_cases hleast : quotientPlace m e n f ≤ -1074
  · exact hleast.trans (le_max_right _ _)
  · have hshift : 53 + n.log2 ≤ m.log2 + (e - f - quotientPlace m e n f).toNat := by
      unfold quotientPlace at *
      omega
    have hdigits : 2 ^ 52 ≤ quotientDigits m e n f := by
      unfold quotientDigits
      rw [Nat.le_div_iff_mul_le hn]
      calc 2 ^ 52 * n ≤ 2 ^ 52 * 2 ^ (n.log2 + 1) :=
            Nat.mul_le_mul_left _ Nat.lt_log2_self.le
        _ = 2 ^ (53 + n.log2) := by rw [← Nat.pow_add]; congr 1; omega
        _ ≤ 2 ^ (m.log2 + (e - f - quotientPlace m e n f).toNat) :=
            Nat.pow_le_pow_right (by decide) hshift
        _ = 2 ^ m.log2 * 2 ^ (e - f - quotientPlace m e n f).toNat := Nat.pow_add _ _ _
        _ ≤ m * 2 ^ (e - f - quotientPlace m e n f).toNat :=
            Nat.mul_le_mul_right _ (Nat.log2_self_le hm.ne')
    have hlog : 52 ≤ (quotientDigits m e n f).log2 := (Nat.le_log2 (by omega)).mpr hdigits
    unfold lastPlace
    omega

/-- What a quotient is computed to is not above it. -/
theorem quotientDigits_le {m n : Nat} (e f : Int) (hn : 0 < n) :
    (quotientDigits m e n f : ℚ) * 2 ^ quotientPlace m e n f ≤ m * 2 ^ e / (n * 2 ^ f) := by
  have hle : quotientPlace m e n f ≤ e - f := min_le_left _ _
  obtain ⟨s, hs⟩ := Int.eq_ofNat_of_zero_le (Int.sub_nonneg_of_le hle)
  have hplace : e = s + (quotientPlace m e n f + f) := by omega
  have hn : (0 : ℚ) < n := by exact_mod_cast hn
  have hdiv : (quotientDigits m e n f : ℚ) ≤ m * 2 ^ s / n := by
    unfold quotientDigits
    rw [hs, Int.toNat_natCast]
    exact_mod_cast Nat.cast_div_le (α := ℚ)
  calc (quotientDigits m e n f : ℚ) * 2 ^ quotientPlace m e n f
      ≤ m * 2 ^ s / n * 2 ^ quotientPlace m e n f :=
        mul_le_mul_of_nonneg_right hdiv (by positivity)
    _ = m * (2 ^ (s : Int) * (2 ^ quotientPlace m e n f * 2 ^ f)) / (n * 2 ^ f) := by
        rw [zpow_natCast]
        field_simp
    _ = m * 2 ^ e / (n * 2 ^ f) := by
        rw [← zpow_add₀ two_ne_zero, ← zpow_add₀ two_ne_zero, ← hplace]

theorem ofFloat_le_greatest {x : Float} {q : ℚ} (hq : Weight.ofFloat x = Exact.finite q)
    (h : 0 ≤ q) : q ≤ greatest := by
  rcases unpack_of_ofFloat hq h with ⟨s, -, rfl⟩ | ⟨m, e, pos, hx, rfl⟩
  · unfold greatest
    positivity
  · have hcanonical : IsCanonical (.finite .positive m e pos) :=
      hx ▸ isCanonical_unpack x.toModel.toBits.toBitVec
    have hm : (m : ℚ) ≤ 2 ^ 53 - 1 := by
      have : m + 1 ≤ 2 ^ 53 := hcanonical.1
      have : (m : ℚ) + 1 ≤ 2 ^ 53 := by exact_mod_cast this
      linarith
    rw [scaled_eq_zpow]
    exact mul_le_mul hm (zpow_le_zpow_right₀ (by norm_num) hcanonical.2.2.1) (by positivity)
      (by norm_num)

/-- A quotient of positive doubles below the greatest one is a number. It is not above the exact
quotient by more than one part in `2 ^ 52`, or by the least double. -/
theorem ofUnpacked_div {m n : Nat} {e f : Int} (hm : 0 < m) (hn : 0 < n)
    (h : Exact.scaled m e / Exact.scaled n f < greatest) :
    ∃ q, Exact.ofUnpacked (Float.Model.pack (UnpackedFloat.div Format.binary64
        (.finite .positive m e hm) (.finite .positive n f hn))).unpack = .finite q ∧ 0 ≤ q ∧
      q ≤ Exact.scaled m e / Exact.scaled n f +
        max (2 ^ (-1074 : Int)) (Exact.scaled m e / Exact.scaled n f / 2 ^ 52) := by
  have hquotient : (quotientDigits m e n f : ℚ) * 2 ^ quotientPlace m e n f ≤
      Exact.scaled m e / Exact.scaled n f := by
    rw [scaled_eq_zpow, scaled_eq_zpow]
    exact quotientDigits_le e f hn
  have hplace := quotientPlace_le e f hm hn
  show ∃ q, Exact.ofUnpacked (Float.Model.pack (UnpackedFloat.roundWithAccuracy Format.binary64
    .positive (UnpackedFloat.divCore Format.binary64 m e n f).1
      (UnpackedFloat.divCore Format.binary64 m e n f).2.1
      (UnpackedFloat.divCore Format.binary64 m e n f).2.2)).unpack = .finite q ∧ _
  rw [divCore_eq]
  obtain ⟨q, hq, hnonneg, hbound⟩ := ofUnpacked_round _ hplace (hquotient.trans_lt h)
  refine ⟨q, hq, hnonneg, hbound.trans (add_le_add hquotient ((unit_le hplace).trans ?_))⟩
  exact max_le_max (le_refl _) (div_le_div_of_nonneg_right hquotient (by positivity))

/-- A double that is not negative stays a number, and not negative, when it is divided by one above
one. -/
theorem ofFloat_div {x y : Float} {p v : ℚ} (hx : Weight.ofFloat x = Exact.finite p) (hp : 0 ≤ p)
    (hy : Weight.ofFloat y = Exact.finite v) (hv : 1 < v) :
    ∃ q, Weight.ofFloat (x / y) = Exact.finite q ∧ 0 ≤ q ∧
      q ≤ p / v + max (2 ^ (-1074 : Int)) (p / v / 2 ^ 52) := by
  have hle := ofFloat_le_greatest hx hp
  show ∃ q, Exact.ofUnpacked (Float.Model.pack (UnpackedFloat.div Format.binary64
    x.toModel.unpack y.toModel.unpack)).unpack = .finite q ∧ _
  rcases unpack_of_ofFloat hy (by linarith) with ⟨s, -, rfl⟩ | ⟨n, f, hn, hyu, rfl⟩
  · exact absurd hv (by norm_num)
  rcases unpack_of_ofFloat hx hp with ⟨s, hxu, rfl⟩ | ⟨m, e, hm, hxu, rfl⟩
  · rw [hxu, hyu]
    refine ⟨0, ?_, le_refl 0, by positivity⟩
    show Exact.ofUnpacked (Float.Model.pack (.zero (s / .positive))).unpack = _
    rw [unpack_pack (show IsCanonical (.zero (s / .positive)) from trivial)]
    rfl
  · have hpos : 0 < Exact.scaled m e := Exact.scaled_pos (Int.natCast_pos.mpr hm)
    rw [hxu, hyu]
    exact ofUnpacked_div hm hn ((div_lt_self hpos hv).trans_le hle)

end JourneyPlanner
