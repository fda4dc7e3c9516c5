import JourneyPlanner.Decimal.Double

/-!
# Numbers with a fixed count of decimal places

A double is written from its exact value; what the last place cannot hold is rounded to the
nearest, and a tie goes to the even neighbour.
-/

namespace JourneyPlanner.Decimal

/-- The natural number nearest to `numerator / denominator`; a tie goes to the even one. -/
def roundHalfEven (numerator denominator : Nat) : Nat :=
  let quotient := numerator / denominator
  let twice := 2 * (numerator % denominator)
  if twice < denominator || (twice == denominator && quotient % 2 == 0) then quotient
  else quotient + 1

/-- The digits of `n`, with zeros in front up to `width`. -/
def padded (width n : Nat) : String :=
  let digits := Nat.toDigits 10 n
  String.ofList (List.replicate (width - digits.length) '0' ++ digits)

/-- `x` with `places` digits after the point, and no point when there are none. -/
def fixed (places : Nat) (x : Float) : String :=
  match Double.ofFloat x with
  | .nan => "NaN"
  | .infinite negative => if negative then "-inf" else "inf"
  | .finite negative significand exponent =>
    let (up, down) := powerOfTwo exponent
    let units := roundHalfEven (significand * up * Nat.pow 10 places) down
    let sign := if negative then "-" else ""
    let whole := padded 1 (units / Nat.pow 10 places)
    if places = 0 then sign ++ whole
    else sign ++ whole ++ "." ++ padded places (units % Nat.pow 10 places)

end JourneyPlanner.Decimal
