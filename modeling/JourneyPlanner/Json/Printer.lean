import JourneyPlanner.Json.Value
import JourneyPlanner.Decimal.Shortest

/-!
# Printing JSON values

A value is printed without blanks. Numerals keep their digits, and in strings quotes, backslashes
and control characters are escaped, so that a value can be read back as it was.
-/

namespace JourneyPlanner.Json

open JourneyPlanner.Decimal JourneyPlanner.Text

/-! ## Values of known things -/

/-- A text, written without escapes. -/
def Value.ofText (s : String) : Value := .string (piecesOf s)

/-- The digits of a natural number. -/
def digitsOf (n : Nat) : List Nat := (Nat.toDigits 10 n).map digitValue

/-- A natural number. -/
def Value.ofNat (n : Nat) : Value := .number ⟨false, digitsOf n, none, none⟩

/-- An integer. -/
def Value.ofInt (n : Int) : Value := .number ⟨decide (n < 0), digitsOf n.natAbs, none, none⟩

/-- A double in the fewest digits that read back, at least one of them after the point; null when
it is not finite. -/
def Value.ofFloat (x : Float) : Value :=
  if x.isFinite then
    let (negative, digits) := takeSign (shortestText x).toList
    let (whole, rest) := takeDigits digits
    let fraction := (takeDigits (rest.drop 1)).1
    .number ⟨negative, whole, some (if fraction.isEmpty then [0] else fraction), none⟩
  else .null

/-- Null for nothing. -/
def Value.ofOption {α : Type} (f : α → Value) (a : Option α) : Value := a.elim .null f

/-- An array of things of one kind. -/
def Value.ofList {α : Type} (f : α → Value) (as : List α) : Value := .array (as.map f)

/-- An object with these fields. -/
def Value.ofFields (fields : List (String × Value)) : Value :=
  .object (fields.map fun (name, v) => (piecesOf name, v))

/-! ## Texts of values -/

/-- The characters of digits. -/
def printDigits (digits : List Nat) : List Char := digits.map fun d => Char.ofNat ('0'.toNat + d)

/-- The exponent of a numeral, with its sign. -/
def printExponent : Bool × List Nat → List Char
  | (negative, digits) => 'e' :: (if negative then '-' else '+') :: printDigits digits

/-- A numeral as it was read. -/
def printNumeral (n : Numeral) : List Char :=
  (if n.negative then ['-'] else []) ++ printDigits n.whole ++
    n.fraction.elim [] (fun digits => '.' :: printDigits digits) ++
    n.exponent.elim [] printExponent

/-- The escape of a unit, in four hexadecimal digits. -/
def printUnit (n : Nat) : List Char :=
  let digits := Nat.toDigits 16 n
  '\\' :: 'u' :: (List.replicate (4 - digits.length) '0' ++ digits)

/-- A piece of a string; an octet that cannot stand for itself is escaped. -/
def printPiece : Piece → List Char
  | .octet c => if c = '"' || c = '\\' || c.toNat < 32 then printUnit c.toNat else [c]
  | .unit n => printUnit n

/-- A string between quotes. -/
def printString (pieces : List Piece) : List Char := '"' :: (pieces.flatMap printPiece ++ ['"'])

mutual

/-- The octets of a value. -/
def Value.print : Value → List Char
  | .null => "null".toList
  | .bool true => "true".toList
  | .bool false => "false".toList
  | .number n => printNumeral n
  | .string pieces => printString pieces
  | .array vs => '[' :: (printItems vs ++ [']'])
  | .object fields => '\x7b' :: (printFields fields ++ ['\x7d'])

/-- The items of an array with commas between them. -/
def printItems : List Value → List Char
  | [] => []
  | [v] => v.print
  | v :: vs => v.print ++ ',' :: printItems vs

/-- The fields of an object with commas between them. -/
def printFields : List (List Piece × Value) → List Char
  | [] => []
  | [(key, v)] => printString key ++ ':' :: v.print
  | (key, v) :: fields => printString key ++ ':' :: (v.print ++ ',' :: printFields fields)

end

end JourneyPlanner.Json
