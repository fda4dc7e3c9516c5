import JourneyPlanner.Proofs.Arithmetic.Doubles
import JourneyPlanner.Proofs.Arithmetic.Ordered
import JourneyPlanner.Proofs.Journey.Charges

/-!
# Fares without a wait

A weight that is added to a state must be a number or infinity, and not negative. When the costs of
a request are finite and not negative, and the vehicle is there at once, what boarding weighs is of
this kind (`Request.isCharge_boardingWeight`): with exact weights, and with doubles too, whose sums
may overflow but never turn negative.
-/

namespace JourneyPlanner

/-- An arithmetic in which what is put together from charges is a charge. -/
class Weight.Chargeable (W : Type) [Weight W] : Prop where
  isCharge_zero : Weight.IsCharge (Weight.zero : W)
  isCharge_ofFloat : ∀ {x : Float}, x.isFinite = true → 0.0 ≤ x →
    Weight.IsCharge (Weight.ofFloat x : W)
  isCharge_zero_mul : ∀ {x : Float}, x.isFinite = true → 0.0 ≤ x →
    Weight.IsCharge (Weight.zero * Weight.ofFloat x : W)
  isCharge_add : ∀ {a b : W}, Weight.IsCharge a → Weight.IsCharge b → Weight.IsCharge (a + b)

instance : Weight.Chargeable Exact where
  isCharge_zero := Exact.isCharge_iff.mpr (Exact.zero_eq ▸ Exact.nonneg_finite.mpr (le_refl 0))
  isCharge_ofFloat hf h := by
    obtain ⟨q, hq, heq⟩ := Exact.ofFloat_of_zero_le hf h
    exact Exact.isCharge_iff.mpr (heq ▸ Exact.nonneg_finite.mpr hq)
  isCharge_zero_mul hf h := by
    obtain ⟨q, -, heq⟩ := Exact.ofFloat_of_zero_le hf h
    rw [Exact.isCharge_iff, heq, Exact.zero_eq, Exact.finite_mul_finite, zero_mul]
    exact Exact.nonneg_finite.mpr (le_refl 0)
  isCharge_add ha hb := Exact.isCharge_iff.mpr
    ((Exact.isCharge_iff.mp ha).add (Exact.isCharge_iff.mp hb))

/-! ## Doubles -/

open Float.Model (UnpackedFloat Format)
open Float.Model.UnpackedFloat (Sign)

/-- Whether an unpacked double is a number or infinity, and not negative. -/
def IsOwed : UnpackedFloat → Prop
  | .infinity .positive | .zero _ | .finite .positive _ _ _ => True
  | _ => False

/-- Bits without a minus sign, and with an exponent that is not the greatest, are a number that is
not negative. -/
theorem isOwed_unpack {spec : Format} {e : BitVec spec.exponentBits}
    {m : BitVec spec.mantissaBitsWithoutImplicit} (h : e = -1#_ → m = 0#_) :
    IsOwed (UnpackedFloat.unpack spec (UnpackedFloat.packComponents spec .positive e m)) := by
  generalize hb : UnpackedFloat.packComponents spec .positive e m = b
  have hs : Sign.ofBitVec (UnpackedFloat.unpackSign b) = .positive := by
    rw [← hb, unpackSign_packComponents]
    rfl
  have he : UnpackedFloat.unpackExponent b = -1#_ → UnpackedFloat.unpackMantissa b = 0#_ := by
    rw [← hb, UnpackedFloat.unpackExponent_packComponents,
      UnpackedFloat.unpackMantissa_packComponents]
    exact h
  unfold UnpackedFloat.unpack
  dsimp only
  rw [hs]
  by_cases hgreatest : UnpackedFloat.unpackExponent b = -1#_
  · rw [if_pos hgreatest, if_pos (he hgreatest)]
    trivial
  rw [if_neg hgreatest]
  by_cases hleast : UnpackedFloat.unpackExponent b = 0#_
  · rw [if_pos hleast]
    by_cases hm : UnpackedFloat.unpackMantissa b = 0#_
    · rw [dif_pos hm]
      trivial
    · rw [dif_neg hm]
      trivial
  · rw [if_neg hleast]
    trivial

theorem IsOwed.unpack_pack {x : UnpackedFloat} (h : IsOwed x) :
    IsOwed (Float.Model.pack x).unpack := by
  show IsOwed (UnpackedFloat.unpack Format.binary64 (UnpackedFloat.pack Format.binary64 x))
  match x, h with
  | .infinity .positive, _ => exact isOwed_unpack fun _ => rfl
  | .zero .positive, _ => exact isOwed_unpack fun _ => rfl
  | .zero .negative, _ => trivial
  | .finite .positive m e _, _ =>
    delta UnpackedFloat.pack
    dsimp only
    split_ifs with hlarge
    · exact isOwed_unpack fun _ => rfl
    · -- the exponent of a number that is not too large is not the greatest
      refine isOwed_unpack fun heq => absurd (congrArg BitVec.toNat heq) ?_
      rw [BitVec.toNat_ofNat, Nat.mod_eq_of_lt (by omega)]
      show ¬ _ = 2 ^ 11 - 1
      omega
    · exact isOwed_unpack fun heq => absurd heq (by decide)

theorem isOwed_roundWithAccuracy {m : Nat} {e : Int} {a : UnpackedFloat.Accuracy} :
    IsOwed (UnpackedFloat.roundWithAccuracy Format.binary64 .positive m e a) := by
  have key : ∀ (d : Nat) (e' : Int), IsOwed (if h : d = 0 then .zero .positive
      else .finite .positive d e' (Nat.pos_of_ne_zero h)) := by
    intro d e'
    by_cases h : d = 0
    · rw [dif_pos h]
      trivial
    · rw [dif_neg h]
      trivial
  exact key _ _

theorem IsOwed.add {x y : UnpackedFloat} (hx : IsOwed x) (hy : IsOwed y) :
    IsOwed (UnpackedFloat.add Format.binary64 x y) := by
  match x, y, hx, hy with
  | .infinity .positive, .infinity .positive, _, _ => trivial
  | .infinity .positive, .zero _, _, _ => trivial
  | .infinity .positive, .finite .positive _ _ _, _, _ => trivial
  | .zero _, .infinity .positive, _, _ => trivial
  | .zero s, .zero t, _, _ => cases s <;> cases t <;> trivial
  | .zero _, .finite .positive _ _ _, _, _ => trivial
  | .finite .positive _ _ _, .infinity .positive, _, _ => trivial
  | .finite .positive _ _ _, .zero _, _, _ => trivial
  | .finite .positive m e _, .finite .positive m' e' _, _, _ =>
    show IsOwed (UnpackedFloat.normalize _ (Int.ofNat _ + Int.ofNat _) _ _)
    unfold UnpackedFloat.normalize
    split
    · rename_i hneg
      rw [compare_lt_iff_lt] at hneg
      exact absurd hneg (not_lt.mpr (Int.add_nonneg (Int.natCast_nonneg _) (Int.natCast_nonneg _)))
    · trivial
    · exact isOwed_roundWithAccuracy

theorem isCharge_iff_isOwed {x : Float} : Weight.IsCharge x ↔ IsOwed x.toModel.unpack := by
  have hzero : (Float.ofInt 0).toModel.unpack = .zero .positive := rfl
  show x.toModel.unpack.isNaN = false ∧ decide (x < Float.ofInt 0) = false ↔ _
  rw [decide_eq_false_iff_not, Exact.float_lt_iff, hzero]
  cases x.toModel.unpack with
  | notANumber => exact iff_of_false (fun h => nomatch h.1) id
  | infinity s | zero s | finite s =>
    cases s <;> first
      | exact iff_of_true ⟨rfl, nofun⟩ trivial
      | exact iff_of_false (fun h => h.2 rfl) id

instance : Weight.Chargeable Float where
  isCharge_zero := isCharge_iff_isOwed.mpr trivial
  isCharge_ofFloat hf h := by
    rw [isCharge_iff_isOwed]
    obtain ⟨q, hq, heq⟩ := Exact.ofFloat_of_zero_le hf h
    rcases unpack_of_ofFloat heq hq with ⟨s, hx, -⟩ | ⟨m, e, pos, hx, -⟩
    · exact hx ▸ trivial
    · exact hx ▸ trivial
  isCharge_zero_mul {x} hf h := by
    rw [isCharge_iff_isOwed]
    refine IsOwed.unpack_pack ?_
    show IsOwed (UnpackedFloat.mul _ (.zero .positive) x.toModel.unpack)
    obtain ⟨q, hq, heq⟩ := Exact.ofFloat_of_zero_le hf h
    rcases unpack_of_ofFloat heq hq with ⟨s, hx, -⟩ | ⟨m, e, pos, hx, -⟩
    · exact hx ▸ trivial
    · exact hx ▸ trivial
  isCharge_add ha hb := by
    rw [isCharge_iff_isOwed] at *
    exact (ha.add hb).unpack_pack

/-! ## Boarding -/

namespace Request

variable {W : Type} [Weight W] [Weight.Chargeable W] {r : Request}
  (hr : ∀ x ∈ r.costs, x.isFinite = true ∧ 0.0 ≤ x)

include hr

theorem isCharge_cost {x : Float} (hx : x ∈ r.costs) : Weight.IsCharge (Weight.ofFloat x : W) :=
  Weight.Chargeable.isCharge_ofFloat (hr x hx).1 (hr x hx).2

theorem isCharge_preferencePenalty (trip : Trip) :
    Weight.IsCharge (r.preferencePenalty trip : W) := by
  have hother : Weight.IsCharge (Weight.ofFloat r.otherRoutePenalty : W) :=
    isCharge_cost hr (by simp [costs])
  have hunpreferred : Weight.IsCharge (Weight.ofFloat r.unpreferredRoutePenalty : W) :=
    isCharge_cost hr (by simp [costs])
  have hzero : Weight.IsCharge (Weight.zero : W) := Weight.Chargeable.isCharge_zero
  unfold preferencePenalty
  split_ifs
  · exact Weight.Chargeable.isCharge_add (Weight.Chargeable.isCharge_add hzero hother) hunpreferred
  · exact Weight.Chargeable.isCharge_add hzero hother
  · exact Weight.Chargeable.isCharge_add hzero hunpreferred
  · exact hzero

theorem isCharge_boardingWeight {b : Boarding W} (hwait : b.wait = 0)
    (htransfer : Weight.IsCharge b.transferPenalty)
    (hpreference : Weight.IsCharge b.preferencePenalty) :
    Weight.IsCharge (r.boardingWeight b) := by
  have hwaiting : Weight.IsCharge (r.waitCost b.wait b.first : W) := by
    have hmem : (if b.first then r.firstWaitFactor else r.waitReluctance) ∈ r.costs := by
      cases b.first <;> simp [costs]
    unfold waitCost
    rw [hwait]
    exact Weight.Chargeable.isCharge_zero_mul (hr _ hmem).1 (hr _ hmem).2
  have hboard : Weight.IsCharge (Weight.ofFloat (r.boardCost b.mode) : W) :=
    isCharge_cost hr (Regular.boardCost_mem r b.mode)
  unfold boardingWeight
  exact Weight.Chargeable.isCharge_add (Weight.Chargeable.isCharge_add
    (Weight.Chargeable.isCharge_add hpreference htransfer) hwaiting) hboard

end Request

end JourneyPlanner
