import JourneyPlanner.Json.Value

/-!
# Reading JSON

One value fills the whole text, with blanks around it. Strings are cut into pieces and not yet
decoded, so a string that nothing reads need not be UTF-8.
-/

namespace JourneyPlanner.Json

open JourneyPlanner.Decimal JourneyPlanner.Text

/-- The rest after the blanks that may stand between tokens. -/
def skipBlank (s : List Char) : List Char :=
  s.dropWhile fun c => c = ' ' || c = '\t' || c = '\n' || c = '\r'

/-- The value of a hexadecimal digit. -/
def hexValue? (c : Char) : Option Nat :=
  if isDigit c then some (digitValue c)
  else if 'a' ≤ c && c ≤ 'f' then some (c.toNat - 'a'.toNat + 10)
  else if 'A' ≤ c && c ≤ 'F' then some (c.toNat - 'A'.toNat + 10)
  else none

/-- What a backslash and one more character stand for. -/
def escape? : Char → Option Char
  | '"' => some '"'
  | '\\' => some '\\'
  | '/' => some '/'
  | 'b' => some '\x08'
  | 'f' => some '\x0c'
  | 'n' => some '\n'
  | 'r' => some '\r'
  | 't' => some '\t'
  | _ => none

/-- The pieces up to the closing quote, after those already read (in reverse). -/
def stringBody? (read : List Piece) : List Char → Option (List Piece × List Char)
  | [] => none
  | '"' :: rest => some (read.reverse, rest)
  | '\\' :: 'u' :: a :: b :: c :: d :: rest =>
    match hexValue? a, hexValue? b, hexValue? c, hexValue? d with
    | some a, some b, some c, some d =>
      stringBody? (.unit (((a * 16 + b) * 16 + c) * 16 + d) :: read) rest
    | _, _, _, _ => none
  | '\\' :: c :: rest =>
    match escape? c with
    | some e => stringBody? (.octet e :: read) rest
    | none => none
  | c :: rest => if c.toNat < 0x20 then none else stringBody? (.octet c :: read) rest

/-- The digits of a whole number: a single zero, or digits that do not start with one. -/
def wholeDigits? : List Char → Option (List Nat × List Char)
  | '0' :: rest => some ([0], rest)
  | s => match takeDigits s with
    | ([], _) => none
    | found => some found

/-- A point and the digits after it. -/
def fractionDigits? : List Char → Option (Option (List Nat) × List Char)
  | '.' :: rest => match takeDigits rest with
    | ([], _) => none
    | (digits, rest) => some (some digits, rest)
  | s => some (none, s)

/-- An exponent: the letter, an optional sign, and digits. -/
def exponentDigits? : List Char → Option (Option (Bool × List Nat) × List Char)
  | c :: rest =>
    if c = 'e' || c = 'E' then
      match takeDigits (takeSign rest).2 with
      | ([], _) => none
      | (digits, after) => some (some ((takeSign rest).1, digits), after)
    else some (none, c :: rest)
  | [] => some (none, [])

/-- A number, after its sign. -/
def unsigned? (negative : Bool) (s : List Char) : Option (Value × List Char) := do
  let (whole, s) ← wholeDigits? s
  let (fraction, s) ← fractionDigits? s
  let (exponent, s) ← exponentDigits? s
  return (.number ⟨negative, whole, fraction, exponent⟩, s)

/-- One or more elements with commas between them and the closing character after the last. -/
def elements? {α : Type} (close : Char) (element : List Char → Option (α × List Char)) :
    Nat → List α → List Char → Option (List α × List Char)
  | 0, _, _ => none
  | fuel + 1, read, s =>
    match element s with
    | none => none
    | some (a, s) =>
      match skipBlank s with
      | [] => none
      | c :: rest =>
        if c = ',' then elements? close element fuel (a :: read) rest
        else if c = close then some ((a :: read).reverse, rest)
        else none

/-- A key, a colon and a value. -/
def field? (value : List Char → Option (Value × List Char)) (s : List Char) :
    Option ((List Piece × Value) × List Char) :=
  match skipBlank s with
  | '"' :: rest =>
    match stringBody? [] rest with
    | none => none
    | some (key, rest) =>
      match skipBlank rest with
      | ':' :: rest => (value rest).map fun (v, rest) => ((key, v), rest)
      | _ => none
  | _ => none

/-- A value at the start of a text that is no longer than the fuel. -/
def value? : Nat → List Char → Option (Value × List Char)
  | 0, _ => none
  | fuel + 1, s =>
    match skipBlank s with
    | 'n' :: 'u' :: 'l' :: 'l' :: rest => some (.null, rest)
    | 't' :: 'r' :: 'u' :: 'e' :: rest => some (.bool true, rest)
    | 'f' :: 'a' :: 'l' :: 's' :: 'e' :: rest => some (.bool false, rest)
    | '"' :: rest => (stringBody? [] rest).map fun (pieces, rest) => (.string pieces, rest)
    | '[' :: rest =>
      match skipBlank rest with
      | ']' :: rest => some (.array [], rest)
      | rest => (elements? ']' (value? fuel) fuel [] rest).map fun (vs, rest) => (.array vs, rest)
    | '\x7b' :: rest =>
      match skipBlank rest with
      | '\x7d' :: rest => some (.object [], rest)
      | rest =>
        (elements? '\x7d' (field? (value? fuel)) fuel [] rest).map fun (fs, rest) =>
          (.object fs, rest)
    | '-' :: rest => unsigned? true rest
    | rest => unsigned? false rest

/-- The value that fills the whole text. -/
def parse? (octets : List Char) : Option Value :=
  match value? (octets.length + 1) octets with
  | some (v, rest) => if (skipBlank rest).isEmpty then some v else none
  | none => none

end JourneyPlanner.Json
