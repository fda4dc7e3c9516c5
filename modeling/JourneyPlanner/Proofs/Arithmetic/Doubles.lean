import JourneyPlanner.Proofs.Arithmetic.Exact

/-!
# Doubles as numbers

What a double stands for is not changed by packing it into bits and unpacking it again
(`unpack_pack`). Rounding a double up and truncating it gives the least integer that is not less, as
far as it fits in 64 bits (`truncate_ceilFloat`).
-/

namespace JourneyPlanner

open Float.Model (UnpackedFloat Format totalExponent)
open Float.Model.UnpackedFloat (Sign)

/-! ## Packing -/

/-- Whether an unpacked double has the form that its bits have: 53 binary digits, or fewer at the
least exponent. -/
def IsCanonical : UnpackedFloat → Prop
  | .finite _ m e _ => m < 2 ^ 53 ∧ -1074 ≤ e ∧ e ≤ 971 ∧ (2 ^ 52 ≤ m ∨ e = -1074)
  | _ => True

theorem toNat_one_append (m : BitVec 52) : (1#1 ++ m).toNat = 2 ^ 52 + m.toNat := by
  rw [BitVec.toNat_append, ← Nat.shiftLeft_add_eq_or_of_lt m.isLt]
  rfl

theorem isCanonical_unpack (b : BitVec Format.binary64.numBits) :
    IsCanonical (UnpackedFloat.unpack Format.binary64 b) := by
  have hexponent : (UnpackedFloat.unpackExponent b).toNat < 2 ^ 11 :=
    (UnpackedFloat.unpackExponent b).isLt
  have hmantissa : (UnpackedFloat.unpackMantissa b).toNat < 2 ^ 52 :=
    (UnpackedFloat.unpackMantissa b).isLt
  unfold UnpackedFloat.unpack
  dsimp only
  by_cases hgreatest : UnpackedFloat.unpackExponent b = -1#_
  · rw [if_pos hgreatest]
    split_ifs <;> trivial
  rw [if_neg hgreatest]
  by_cases hleast : UnpackedFloat.unpackExponent b = 0#_
  · rw [if_pos hleast]
    by_cases hm : UnpackedFloat.unpackMantissa b = 0#_
    · rw [dif_pos hm]
      trivial
    · rw [dif_neg hm, hleast]
      exact ⟨by omega, by decide, by decide, .inr rfl⟩
  · rw [if_neg hleast]
    have hhigh : (UnpackedFloat.unpackExponent b).toNat ≠ 2047 :=
      fun h => hgreatest (BitVec.eq_of_toNat_eq h)
    have hlow : (UnpackedFloat.unpackExponent b).toNat ≠ 0 :=
      fun h => hleast (BitVec.eq_of_toNat_eq h)
    have hbias : (Format.binary64.exponentBias : Int) = 1023 := rfl
    have hbits : (Format.binary64.mantissaBitsWithoutImplicit : Int) = 52 := rfl
    have hdigits := toNat_one_append (UnpackedFloat.unpackMantissa b)
    exact ⟨by omega, by omega, by omega, .inl (by omega)⟩

theorem unpackSign_packComponents {spec : Format} (s : Sign) (e : BitVec spec.exponentBits)
    (m : BitVec spec.mantissaBitsWithoutImplicit) :
    UnpackedFloat.unpackSign (UnpackedFloat.packComponents spec s e m) = s.toBitVec := by
  apply BitVec.eq_of_getLsbD_eq
  intro i hi
  obtain rfl : i = 0 := by omega
  show (BitVec.cast _ (BitVec.extractLsb _ _ (s.toBitVec ++ e ++ m))).getLsbD 0 = _
  simp [BitVec.getLsbD_append, BitVec.getElem_append]

theorem ofBitVec_toBitVec (s : Sign) : Sign.ofBitVec s.toBitVec = s := by
  cases s <;> rfl

theorem log2_eq_of_normal {m : Nat} (hm : m < 2 ^ 53) (hlow : 2 ^ 52 ≤ m) : m.log2 = 52 :=
  (Nat.log2_eq_iff (by omega)).mpr ⟨hlow, hm⟩

theorem finite_congr {s s' : Sign} {m m' : Nat} {e e' : Int} {pos : 0 < m} {pos' : 0 < m'}
    (hs : s = s') (hm : m = m') (he : e = e') :
    UnpackedFloat.finite s m e pos = .finite s' m' e' pos' := by
  subst hs hm he
  rfl

/-- What the parts of a packed double unpack to, where the exponent is between the least and the
greatest. -/
theorem unpack_normal {b : BitVec Format.binary64.numBits} {s : Sign} {e : BitVec 11}
    {m : BitVec 52} (hb : UnpackedFloat.packComponents Format.binary64 s e m = b)
    (hgreatest : e ≠ -1#_) (hleast : e ≠ 0#_) (pos : 0 < (1#1 ++ m).toNat) :
    UnpackedFloat.unpack Format.binary64 b =
      .finite s (1#1 ++ m).toNat (e.toNat - (1023 + 52)) pos := by
  have hsign : UnpackedFloat.unpackSign b = s.toBitVec := by
    rw [← hb, unpackSign_packComponents]
  have hexponent : UnpackedFloat.unpackExponent b = e := by
    rw [← hb, UnpackedFloat.unpackExponent_packComponents]
  have hmantissa : UnpackedFloat.unpackMantissa b = m := by
    rw [← hb, UnpackedFloat.unpackMantissa_packComponents]
  unfold UnpackedFloat.unpack
  dsimp only
  rw [if_neg (hexponent ▸ hgreatest), if_neg (hexponent ▸ hleast)]
  exact finite_congr (hsign ▸ ofBitVec_toBitVec s) (hmantissa ▸ rfl) (hexponent ▸ rfl)

/-- What the parts of a packed double unpack to, where the exponent is the least. -/
theorem unpack_subnormal {b : BitVec Format.binary64.numBits} {s : Sign} {m : BitVec 52}
    (hb : UnpackedFloat.packComponents Format.binary64 s 0#_ m = b) (hm : m ≠ 0#_)
    (pos : 0 < m.toNat) :
    UnpackedFloat.unpack Format.binary64 b = .finite s m.toNat (-1074) pos := by
  have hsign : UnpackedFloat.unpackSign b = s.toBitVec := by
    rw [← hb, unpackSign_packComponents]
  have hexponent : UnpackedFloat.unpackExponent b = 0#_ := by
    rw [← hb, UnpackedFloat.unpackExponent_packComponents]
  have hmantissa : UnpackedFloat.unpackMantissa b = m := by
    rw [← hb, UnpackedFloat.unpackMantissa_packComponents]
  unfold UnpackedFloat.unpack
  dsimp only
  rw [if_neg (by rw [hexponent]; decide), if_pos hexponent, dif_neg (hmantissa ▸ hm)]
  exact finite_congr (hsign ▸ ofBitVec_toBitVec s) (hmantissa ▸ rfl) (hexponent ▸ rfl)

theorem unpack_pack_normal (s : Sign) {m : Nat} {e : Int} (pos : 0 < m) (hm : m < 2 ^ 53)
    (hlow : 2 ^ 52 ≤ m) (he : -1074 ≤ e) (he' : e ≤ 971) :
    (Float.Model.pack (.finite s m e pos)).unpack = .finite s m e pos := by
  show UnpackedFloat.unpack Format.binary64 (UnpackedFloat.pack Format.binary64 _) = _
  have hbiased : (e + Format.binary64.exponentBias +
      Format.binary64.mantissaBitsWithoutImplicit).toNat = (e + 1075).toNat := by
    show (e + 1023 + 52).toNat = _
    omega
  have hexponent : (BitVec.ofNat 11 (e + 1075).toNat).toNat = (e + 1075).toNat := by
    rw [BitVec.toNat_ofNat, Nat.mod_eq_of_lt (by omega)]
  have hgreatest : BitVec.ofNat 11 (e + 1075).toNat ≠ -1#_ := by
    intro h
    have : (BitVec.ofNat 11 (e + 1075).toNat).toNat = 2047 := congrArg BitVec.toNat h
    omega
  have hleast : BitVec.ofNat 11 (e + 1075).toNat ≠ 0#_ := by
    intro h
    have : (BitVec.ofNat 11 (e + 1075).toNat).toNat = 0 := congrArg BitVec.toNat h
    omega
  have hdigits : (1#1 ++ BitVec.ofNat 52 m).toNat = m := by
    rw [toNat_one_append, BitVec.toNat_ofNat]
    omega
  delta UnpackedFloat.pack
  dsimp only
  rw [hbiased, if_neg (by show ¬ 2 ^ 11 ≤ _; omega), log2_eq_of_normal hm hlow,
    if_pos (by decide), unpack_normal rfl hgreatest hleast (pos.trans_eq hdigits.symm)]
  refine finite_congr rfl hdigits ?_
  rw [hexponent]
  omega

theorem unpack_pack_subnormal (s : Sign) {m : Nat} (pos : 0 < m) (hm : m < 2 ^ 52) :
    (Float.Model.pack (.finite s m (-1074) pos)).unpack = .finite s m (-1074) pos := by
  show UnpackedFloat.unpack Format.binary64 (UnpackedFloat.pack Format.binary64 _) = _
  have hlog : m.log2 < 52 := (Nat.log2_lt (by omega)).mpr hm
  have hdigits : (BitVec.ofNat 52 m).toNat = m := by
    rw [BitVec.toNat_ofNat, Nat.mod_eq_of_lt hm]
  have hnonzero : BitVec.ofNat 52 m ≠ 0#_ := by
    intro h
    have : (BitVec.ofNat 52 m).toNat = 0 := congrArg BitVec.toNat h
    omega
  delta UnpackedFloat.pack
  dsimp only
  rw [if_neg (by decide), if_neg (by show ¬ m.log2 + 1 = 53; omega),
    unpack_subnormal rfl hnonzero (by omega)]
  exact finite_congr rfl hdigits rfl

/-- Packing and unpacking changes nothing. -/
theorem unpack_pack {x : UnpackedFloat} (h : IsCanonical x) : (Float.Model.pack x).unpack = x := by
  cases x with
  | infinity s | zero s => cases s <;> rfl
  | notANumber => rfl
  | finite s m e pos =>
    obtain ⟨hm, he, he', hlow⟩ := h
    by_cases hnormal : 2 ^ 52 ≤ m
    · exact unpack_pack_normal s pos hm hnormal he he'
    · obtain rfl : e = -1074 := hlow.resolve_left hnormal
      exact unpack_pack_subnormal s pos (not_le.mp hnormal)

/-! ## Whole parts -/

open Float.Model.UnpackedFloat (ExtendedMantissa)

theorem mantissa_shift (x : ExtendedMantissa) (k : Nat) :
    (x >>> k).mantissa = x.mantissa / 2 ^ k := by
  show (k.repeat ExtendedMantissa.shiftRightOne x).mantissa = _
  induction k with
  | zero => rw [pow_zero, Nat.div_one]; rfl
  | succ k ih =>
    show (k.repeat ExtendedMantissa.shiftRightOne x).mantissa / 2 = _
    rw [ih, Nat.div_div_eq_div_mul, pow_succ]

theorem scaled_of_nonneg {n e : Int} (he : 0 ≤ e) :
    Exact.scaled n e = ((n * 2 ^ e.toNat : Int) : ℚ) := by
  unfold Exact.scaled
  rw [if_pos he]
  push_cast
  rfl

theorem scaled_of_nonpos {n e : Int} (he : e ≤ 0) :
    Exact.scaled n e = (n : ℚ) / ((2 ^ (-e).toNat : Nat) : ℚ) := by
  rcases he.lt_or_eq with he | rfl
  · exact if_neg (not_le.mpr he)
  · rw [scaled_of_nonneg (le_refl 0)]
    simp

theorem scaled_neg (n e : Int) : Exact.scaled (-n) e = -Exact.scaled n e := by
  rcases le_total 0 e with he | he
  · rw [scaled_of_nonneg he, scaled_of_nonneg he, Int.neg_mul, Int.cast_neg]
  · rw [scaled_of_nonpos he, scaled_of_nonpos he, Int.cast_neg, neg_div]

theorem roundToInt_positive (m : Nat) (e : Int) :
    UnpackedFloat.roundToInt .positive m e = ⌊Exact.scaled m e⌋ := by
  have heq : UnpackedFloat.roundToInt .positive m e =
      ((m <<< (e - 0).toNat / 2 ^ (0 - (e - (e - 0).toNat)).toNat : Nat) : Int) := by
    unfold UnpackedFloat.roundToInt UnpackedFloat.decreaseExponent UnpackedFloat.shiftToExponent
    dsimp only
    rw [mantissa_shift]
    rfl
  rw [heq, Nat.shiftLeft_eq]
  by_cases he : 0 ≤ e
  · rw [scaled_of_nonneg he, Int.floor_intCast, Int.sub_zero, Int.toNat_of_nonneg he, Int.sub_self,
      Int.sub_zero, Int.toNat_zero, pow_zero, Nat.div_one]
    push_cast
    rfl
  · rw [scaled_of_nonpos (not_le.mp he).le, Rat.floor_intCast_div_natCast, Int.sub_zero,
      Int.toNat_of_nonpos (by omega), pow_zero, mul_one, Nat.cast_zero, Int.sub_zero, Int.zero_sub]
    push_cast
    rfl

theorem toInt_ofIntClamp {n : Int} (h : 0 ≤ n) :
    (Int64.ofIntClamp n).toInt = min n (2 ^ 63 - 1) := by
  have hmin : Int64.minValue.toInt = -2 ^ 63 := rfl
  have hmax : Int64.maxValue.toInt = 2 ^ 63 - 1 := rfl
  unfold Int64.ofIntClamp
  by_cases hn : n ≤ Int64.maxValue.toInt
  · rw [dif_pos (by omega), dif_pos hn, Int64.toInt_ofIntLE]
    omega
  · rw [dif_pos (by omega), dif_neg hn]
    omega

theorem truncate_of_unpack {x : Float} {m : Nat} {e : Int} {pos : 0 < m}
    (hx : x.toModel.unpack = .finite .positive m e pos) :
    Weight.truncate x = min ⌊Exact.scaled m e⌋ (2 ^ 63 - 1) := by
  show (Int64.ofIntClamp (UnpackedFloat.toInt _ _ x.toModel.unpack)).toInt = _
  rw [hx]
  show (Int64.ofIntClamp (UnpackedFloat.roundToInt .positive m e)).toInt = _
  rw [roundToInt_positive, toInt_ofIntClamp]
  exact Int.floor_nonneg.mpr (Exact.scaled_nonneg (Int.natCast_nonneg m))

/-! ## Rounding up -/

theorem targetExponent_eq (m : Nat) (e : Int) :
    Format.binary64.targetExponent (totalExponent m e) = max (m.log2 + e - 52) (-1074) := by
  unfold Format.targetExponent totalExponent
  show max ((m.log2 : Int) + 1 + e - 53) (-1074) = _
  omega

theorem log2_le {m k : Nat} (hm : m < 2 ^ (k + 1)) : m.log2 ≤ k := by
  by_cases h : m = 0
  · rw [h, Nat.log2_zero]
    exact Nat.zero_le k
  · exact Nat.le_of_lt_succ ((Nat.log2_lt h).mpr hm)

theorem shiftToTargetExponent_of_lt {m : Nat} {e : Int} (a : UnpackedFloat.Accuracy)
    (hm : m < 2 ^ 53) (he : -1074 ≤ e) :
    UnpackedFloat.shiftToTargetExponent Format.binary64 m e a =
      (ExtendedMantissa.ofMantissaAndAccuracy m a, e) := by
  have hlog := log2_le hm
  unfold UnpackedFloat.shiftToTargetExponent UnpackedFloat.shiftToExponent
  dsimp only
  rw [targetExponent_eq, show (max ((m.log2 : Int) + e - 52) (-1074) - e).toNat = 0 by omega,
    Int.natCast_zero, Int.add_zero]
  rfl

theorem roundWithAccuracy_exact (s : Sign) {m : Nat} {e : Int} (pos : 0 < m) (hm : m < 2 ^ 53)
    (he : -1074 ≤ e) :
    UnpackedFloat.roundWithAccuracy Format.binary64 s m e .exact = .finite s m e pos := by
  unfold UnpackedFloat.roundWithAccuracy
  rw [shiftToTargetExponent_of_lt .exact hm he]
  dsimp only
  rw [show (ExtendedMantissa.ofMantissaAndAccuracy m .exact).roundedMantissa = m from rfl,
    shiftToTargetExponent_of_lt .exact hm he]
  exact dif_neg pos.ne'

/-- A whole number of no more than 53 binary digits is a double. -/
theorem normalize_natCast {c : Nat} (s : Sign) (pos : 0 < c) (hc : c < 2 ^ 53) :
    ∃ m e pos', UnpackedFloat.normalize Format.binary64 c 0 s = .finite .positive m e pos' ∧
      IsCanonical (.finite .positive m e pos') ∧ Exact.scaled m e = c := by
  have hlog := log2_le hc
  have hlow := Nat.log2_self_le pos.ne'
  have hhigh := Nat.lt_log2_self (n := c)
  have hpow : 2 ^ 52 = 2 ^ c.log2 * 2 ^ (52 - c.log2) := by
    rw [← Nat.pow_add]
    congr 1
    omega
  have hpos : 0 < 2 ^ (52 - c.log2) := Nat.two_pow_pos _
  have hdigits : 2 ^ 52 ≤ c * 2 ^ (52 - c.log2) :=
    hpow ▸ Nat.mul_le_mul_right _ hlow
  have hfits : c * 2 ^ (52 - c.log2) < 2 ^ 53 := by
    have hlt := Nat.mul_lt_mul_of_pos_right hhigh hpos
    rw [Nat.pow_succ, Nat.mul_right_comm, ← hpow] at hlt
    exact hlt
  refine ⟨c * 2 ^ (52 - c.log2), c.log2 - 52, by omega, ?_, ⟨hfits, by omega, by omega,
    .inl hdigits⟩, ?_⟩
  · unfold UnpackedFloat.normalize
    rw [Int.compare_eq_gt.mpr (by omega)]
    dsimp only
    unfold UnpackedFloat.round UnpackedFloat.decreaseExponent
    dsimp only
    rw [Int.toNat_natCast, targetExponent_eq, Nat.shiftLeft_eq,
      show (0 - max ((c.log2 : Int) + 0 - 52) (-1074)).toNat = 52 - c.log2 by omega,
      roundWithAccuracy_exact .positive (by omega) hfits (by omega)]
    exact finite_congr rfl rfl (by omega)
  · rw [scaled_of_nonpos (by omega)]
    rw [Int.neg_sub, show ((52 : Int) - c.log2).toNat = 52 - c.log2 by omega]
    push_cast
    exact mul_div_cancel_right₀ _ (by positivity)

/-- A double with digits behind the point rounds up to a whole number that is a double too. -/
theorem ceil_scaled_of_neg {m : Nat} {e : Int} (pos : 0 < m) (hm : m < 2 ^ 53) (he : e < 0) :
    ∃ c : Nat, 0 < c ∧ c < 2 ^ 53 ∧ ⌈Exact.scaled m e⌉ = c ∧
      -((-(m : Int)) >>> (-e).toNat) = c := by
  have heq : ⌈Exact.scaled m e⌉ = -((-(m : Int)) >>> (-e).toNat) := by
    rw [scaled_of_nonpos he.le, Rat.ceil_intCast_div_natCast, Int.shiftRight_eq_div_pow]
  have hlow : 0 < ⌈Exact.scaled m e⌉ :=
    Int.ceil_pos.mpr (Exact.scaled_pos (Int.natCast_pos.mpr pos))
  have hhigh : ⌈Exact.scaled m e⌉ ≤ m := by
    refine Int.ceil_le.mpr ?_
    rw [scaled_of_nonpos he.le]
    exact div_le_self (by positivity) (by exact_mod_cast Nat.one_le_two_pow)
  obtain ⟨c, hc⟩ := Int.eq_ofNat_of_zero_le hlow.le
  exact ⟨c, by omega, by omega, hc, heq ▸ hc⟩

theorem unpack_ceilFloat {x : Float} {m : Nat} {e : Int} {pos : 0 < m}
    (hx : x.toModel.unpack = .finite .positive m e pos) :
    ∃ m' e' pos', (ceilFloat x).toModel.unpack = .finite .positive m' e' pos' ∧
      Exact.scaled m' e' = ⌈Exact.scaled m e⌉ := by
  have hcanonical : IsCanonical (.finite .positive m e pos) :=
    hx ▸ isCanonical_unpack x.toModel.toBits.toBitVec
  have hceil : (ceilFloat x).toModel.unpack =
      (Float.Model.pack (ceilUnpacked (.finite .positive m e pos))).unpack := by
    rw [← hx]
    rfl
  rw [hceil]
  unfold ceilUnpacked
  dsimp only
  by_cases he : 0 ≤ e
  · rw [if_pos he, unpack_pack hcanonical]
    refine ⟨m, e, pos, rfl, ?_⟩
    rw [scaled_of_nonneg he, Int.ceil_intCast]
  · rw [if_neg he]
    obtain ⟨c, hpos, hlt, hc, hbelow⟩ := ceil_scaled_of_neg pos hcanonical.1 (not_le.mp he)
    obtain ⟨m', e', pos', heq, hcanonical', hvalue⟩ := normalize_natCast .positive hpos hlt
    refine ⟨m', e', pos', ?_, ?_⟩
    · show (Float.Model.pack (UnpackedFloat.normalize _
        (-((-(m : Int)) >>> (-e).toNat)) 0 _)).unpack = _
      rw [hbelow, heq, unpack_pack hcanonical']
    · rw [hvalue, hc]
      rfl

theorem unpack_of_ofFloat {x : Float} {q : ℚ} (hq : Weight.ofFloat x = Exact.finite q)
    (h : 0 ≤ q) :
    (∃ s, x.toModel.unpack = .zero s ∧ q = 0) ∨
      ∃ m e pos, x.toModel.unpack = .finite .positive m e pos ∧ q = Exact.scaled m e := by
  have hq : Exact.ofUnpacked x.toModel.unpack = .finite q := hq
  cases hx : x.toModel.unpack with
  | notANumber => rw [hx] at hq; cases hq
  | infinity s => rw [hx] at hq; cases s <;> cases hq
  | zero s =>
    rw [hx] at hq
    exact .inl ⟨s, rfl, (Exact.finite.inj hq).symm⟩
  | finite s m e pos =>
    rw [hx] at hq
    have heq := Exact.finite.inj hq
    cases s with
    | positive => exact .inr ⟨m, e, pos, rfl, heq.symm⟩
    | negative =>
      have hpos : 0 < Exact.scaled m e := Exact.scaled_pos (Int.natCast_pos.mpr pos)
      have hneg : Exact.scaled (-m) e = q := heq
      rw [scaled_neg] at hneg
      linarith

/-- Rounding up and truncating gives the ceiling, as far as it fits. -/
theorem truncate_ceilFloat {x : Float} {q : ℚ} (hq : Weight.ofFloat x = Exact.finite q)
    (h : 0 ≤ q) : Weight.truncate (Weight.ceil x) = min ⌈q⌉ (2 ^ 63 - 1) := by
  show Weight.truncate (ceilFloat x) = _
  rcases unpack_of_ofFloat hq h with ⟨s, hx, rfl⟩ | ⟨m, e, pos, hx, rfl⟩
  · have hceil : ceilFloat x = .ofModel (.pack (.zero s)) := by
      unfold ceilFloat
      rw [hx]
      rfl
    rw [hceil]
    cases s <;> rfl
  · obtain ⟨m', e', pos', hceil, hvalue⟩ := unpack_ceilFloat hx
    rw [truncate_of_unpack hceil, hvalue, Int.floor_intCast]

end JourneyPlanner
