import JourneyPlanner.Text.Blank

/-!
# Decimal numerals

A numeral is kept as its digits, so that readers with different rules of rounding and range share
one grammar. `value` is the nearest double.
-/

namespace JourneyPlanner.Decimal

open JourneyPlanner.Text

/-- A sign, the digits before and after the point, and a signed exponent. -/
structure Numeral where
  negative : Bool
  whole : List Nat
  fraction : Option (List Nat)
  exponent : Option (Bool × List Nat)
  deriving DecidableEq, Repr

/-- The digits at the start of a text, and the rest. -/
def takeDigits (cs : List Char) : List Nat × List Char :=
  ((cs.takeWhile isDigit).map digitValue, cs.dropWhile isDigit)

/-- The sign at the start of a text, when there is one. -/
def takeSign : List Char → Bool × List Char
  | '-' :: rest => (true, rest)
  | '+' :: rest => (false, rest)
  | rest => (false, rest)

/-- `significand * 10 ^ power` rounded to the nearest double; too large is infinity. -/
def nearestDouble (negative : Bool) (significand : Nat) (power : Int) : Float :=
  let size := (Nat.toDigits 10 significand).length
  let magnitude :=
    if significand = 0 then 0.0
    else if power + size > 400 then 1.0 / 0.0
    else if power + size < -400 then 0.0
    else Float.ofScientific significand (power < 0) power.natAbs
  if negative then -magnitude else magnitude

/-- The nearest double. -/
def Numeral.value (n : Numeral) : Float :=
  let fraction := n.fraction.getD []
  let shift : Int := match n.exponent with
    | none => 0
    | some (negative, digits) => if negative then -(ofDigits digits : Int) else ofDigits digits
  nearestDouble n.negative (ofDigits (n.whole ++ fraction)) (shift - fraction.length)

/-- An optional exponent at the very end of a text. -/
def readExponent? : List Char → Option (Option (Bool × List Nat))
  | [] => some none
  | c :: rest =>
    if c = 'e' || c = 'E' then
      let (negative, rest) := takeSign rest
      match takeDigits rest with
      | ([], _) => none
      | (digits, []) => some (some (negative, digits))
      | _ => none
    else none

/-- Digits with an optional point, at least one digit on either side of it, and an optional
exponent. -/
def readUnsigned? (negative : Bool) (cs : List Char) : Option Numeral :=
  let (whole, rest) := takeDigits cs
  let (fraction, rest) := match rest with
    | '.' :: rest => (some (takeDigits rest).1, (takeDigits rest).2)
    | _ => (none, rest)
  if whole.isEmpty && (fraction.getD []).isEmpty then none
  else (readExponent? rest).map fun exponent => ⟨negative, whole, fraction, exponent⟩

/-- A text with its ASCII letters in lower case. -/
def lowerCase (cs : List Char) : List Char := cs.map Char.toLower

/-- The double that a text writes: a numeral, or one of the words for infinity and
not-a-number in any case, each with an optional sign. -/
def readFloat? (cs : List Char) : Option Float :=
  let (negative, rest) := takeSign cs
  match readUnsigned? negative rest with
  | some n => some n.value
  | none =>
    let word := lowerCase rest
    if word = "inf".toList || word = "infinity".toList then
      some (if negative then -(1.0 / 0.0) else 1.0 / 0.0)
    else if word = "nan".toList then some (0.0 / 0.0)
    else none

/-- The natural number that ASCII digits write, after an optional plus sign. -/
def readNat? (cs : List Char) : Option Nat :=
  let digits := match cs with
    | '+' :: rest => rest
    | _ => cs
  if digits.isEmpty || !digits.all isDigit then none
  else some (ofDigits (digits.map digitValue))

/-- The integer that ASCII digits write, after an optional sign. -/
def readInt? (cs : List Char) : Option Int :=
  match cs with
  | '-' :: rest =>
    if rest.isEmpty || !rest.all isDigit then none
    else some (-(ofDigits (rest.map digitValue) : Int))
  | _ => (readNat? cs).map Int.ofNat

end JourneyPlanner.Decimal
