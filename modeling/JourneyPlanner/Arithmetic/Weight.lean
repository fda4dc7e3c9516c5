import JourneyPlanner.Arithmetic.Integers

/-!
# Weights

The planner compares journeys by a weight. It computes weights in any arithmetic that offers the
operations below; doubles are one. Preferences and lengths are given as doubles and enter the
arithmetic through `ofFloat`.
-/

namespace JourneyPlanner

open Float.Model (UnpackedFloat)

/-- The operations that weights are computed and compared with. -/
class Weight (W : Type) extends Add W, Sub W, Mul W, Div W where
  /-- The weight of a number given as a double. -/
  ofFloat : Float → W
  /-- The weight of a whole number. -/
  ofInt : Int → W
  /-- A weight above all others. -/
  infinity : W
  /-- Strictly less; false when either side is not a number. -/
  less : W → W → Bool
  /-- Less or equal; false when either side is not a number. -/
  atMost : W → W → Bool
  /-- Whether the weight is no number at all. -/
  isNaN : W → Bool
  /-- Whether the weight is a number other than an infinity. -/
  isFinite : W → Bool
  /-- The least whole weight that is not less. -/
  ceil : W → W
  /-- The whole part as a 64-bit integer, the nearest one when it is out of range. -/
  truncate : W → Int
  /-- A total order that agrees with `less`, used to rank a queue. -/
  rank : W → W → Ordering

namespace Weight

variable {W : Type} [Weight W]

/-- No weight. -/
def zero : W := ofInt 0

/-- The lesser of two weights, or the one that is a number. -/
def lesser (a b : W) : W :=
  if isNaN a then b else if isNaN b then a else if less b a then b else a

/-- The greater of two weights, or the one that is a number. -/
def greater (a b : W) : W :=
  if isNaN a then b else if isNaN b then a else if less a b then b else a

end Weight

/-- An integer that orders doubles like their bits read as sign and magnitude. -/
def floatKey (x : Float) : Int :=
  let bits : Nat := x.toBits.toNat
  if bits < 1 <<< 63 then bits else -1 - (bits - 1 <<< 63 : Nat)

/-- The least whole number that is not less, of an unpacked double; zero keeps the sign. -/
def ceilUnpacked : UnpackedFloat → UnpackedFloat
  | .finite sign mantissa exponent pos =>
    if 0 ≤ exponent then .finite sign mantissa exponent pos
    else .normalize .binary64 (-((-sign.apply mantissa) >>> (-exponent).toNat)) 0 sign
  | x => x

/-- The least whole double that is not less. -/
def ceilFloat (x : Float) : Float := .ofModel (.pack (ceilUnpacked x.toModel.unpack))

instance : Weight Float where
  ofFloat x := x
  ofInt := Float.ofInt
  infinity := 1.0 / 0.0
  less a b := decide (a < b)
  atMost a b := decide (a ≤ b)
  isNaN x := x.isNaN
  isFinite x := x.isFinite
  ceil := ceilFloat
  truncate x := x.toModel.toInt64.toInt
  rank a b := compare (floatKey a) (floatKey b)

end JourneyPlanner
