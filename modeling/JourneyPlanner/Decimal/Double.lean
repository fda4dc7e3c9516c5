/-!
# The exact value of a double

Decoding the bits of a double into an integer times a power of two, so that printing can work in
exact arithmetic.
-/

namespace JourneyPlanner.Decimal

/-- What a double stands for; a finite one is `significand * 2 ^ exponent`, with a sign. -/
inductive Double where
  | nan
  | infinite (negative : Bool)
  | finite (negative : Bool) (significand : Nat) (exponent : Int)
  deriving DecidableEq, Repr

/-- Reads the sign, the eleven bits of the exponent and the fifty-two of the fraction. -/
def Double.ofFloat (x : Float) : Double :=
  let bits : Nat := x.toBits.toNat
  let negative : Bool := bits >>> 63 == 1
  let exponent : Nat := bits >>> 52 % 1 <<< 11
  let fraction : Nat := bits % 1 <<< 52
  if exponent = 2047 then
    if fraction = 0 then .infinite negative else .nan
  else if exponent = 0 then .finite negative fraction (-1074)
  else .finite negative (1 <<< 52 + fraction) ((exponent : Int) - 1075)

/-- `2 ^ exponent` as a fraction of natural numbers. -/
def powerOfTwo (exponent : Int) : Nat × Nat := (1 <<< exponent.toNat, 1 <<< (-exponent).toNat)

end JourneyPlanner.Decimal
