import JourneyPlanner.Decimal.Fixed

/-!
# The shortest decimal that reads back

A finite double is the rounding of every real in an interval around it. The shortest text is the
point of the coarsest decimal grid that falls into the interval, written without an exponent.
-/

namespace JourneyPlanner.Decimal

/-- The reals that round to one double, over a common denominator: the value, the two ends, and
whether the ends belong to it. -/
structure RoundingInterval where
  value : Nat
  low : Nat
  high : Nat
  denominator : Nat
  closed : Bool

/-- The ends lie half-way to the neighbours; below a power of two the neighbour is closer. -/
def RoundingInterval.ofFinite (significand : Nat) (exponent : Int) : RoundingInterval :=
  let (up, down) := powerOfTwo exponent
  let narrow := significand == 1 <<< 52 && exponent > -1074
  { value := 4 * significand * up
    low := (4 * significand - (if narrow then 1 else 2)) * up
    high := (4 * significand + 2) * up
    denominator := 4 * down
    closed := significand % 2 == 0 }

/-- Whether `digits * 10 ^ power` lies in the interval. -/
def RoundingInterval.contains (r : RoundingInterval) (digits : Nat) (power : Int) : Bool :=
  let up := Nat.pow 10 power.toNat
  let down := Nat.pow 10 (-power).toNat
  let point := digits * up * r.denominator
  if r.closed then decide (r.low * down ≤ point) && decide (point ≤ r.high * down)
  else decide (r.low * down < point) && decide (point < r.high * down)

/-- The grid point below the value and its distance, both over the grid's own denominator. -/
def RoundingInterval.below (r : RoundingInterval) (power : Int) : Nat × Nat × Nat :=
  let unit := r.denominator * Nat.pow 10 power.toNat
  let value := r.value * Nat.pow 10 (-power).toNat
  (value / unit, value % unit, unit)

/-- The neighbour of the value on the grid of multiples of `10 ^ power` that is in the interval,
the nearer one when both are, and the even one on a tie. -/
def RoundingInterval.onGrid? (r : RoundingInterval) (power : Int) : Option Nat :=
  let (down, rest, unit) := r.below power
  match r.contains down power, r.contains (down + 1) power with
  | true, true =>
    if 2 * rest < unit || (2 * rest == unit && down % 2 == 0) then some down else some (down + 1)
  | true, false => some down
  | false, true => some (down + 1)
  | false, false => none

/-- Tries finer and finer grids. -/
def RoundingInterval.shortest (r : RoundingInterval) : Nat → Int → Nat × Int
  | 0, power => ((r.below power).1, power)
  | tries + 1, power =>
    match r.onGrid? power with
    | some digits => (digits, power)
    | none => r.shortest tries (power - 1)

/-- `digits * 10 ^ power` without an exponent. -/
def positional (digits : Nat) (power : Int) : String :=
  if 0 ≤ power then padded 1 (digits * Nat.pow 10 power.toNat)
  else
    let unit := Nat.pow 10 (-power).toNat
    padded 1 (digits / unit) ++ "." ++ padded (-power).toNat (digits % unit)

/-- The fewest digits that read back as `x`, always in positional notation. -/
def shortestText (x : Float) : String :=
  match Double.ofFloat x with
  | .nan => "NaN"
  | .infinite negative => if negative then "-inf" else "inf"
  | .finite negative 0 _ => if negative then "-0" else "0"
  | .finite negative significand exponent =>
    let (digits, power) := (RoundingInterval.ofFinite significand exponent).shortest 640 309
    (if negative then "-" else "") ++ positional digits power

end JourneyPlanner.Decimal
