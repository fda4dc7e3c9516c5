import JourneyPlanner.Decimal.Numeral
import JourneyPlanner.Text.Utf8

/-!
# JSON values

A value keeps what its reader may still refuse: numerals as digits, strings as octets and escaped
units, and the fields of an object in order, repeated ones included.
-/

namespace JourneyPlanner.Json

open JourneyPlanner.Decimal JourneyPlanner.Text

/-- A piece of a string: an octet, or a UTF-16 unit written as an escape. -/
inductive Piece where
  | octet (c : Char)
  | unit (n : Nat)
  deriving DecidableEq, Repr

/-- A value, not yet read as anything in particular. -/
inductive Value where
  | null
  | bool (b : Bool)
  | number (numeral : Numeral)
  | string (pieces : List Piece)
  | array (items : List Value)
  | object (fields : List (List Piece × Value))
  deriving Repr, Inhabited

/-- The octets of one code point. -/
def codePoint (n : Nat) : List Char := utf8Octets (String.singleton (Char.ofNat n))

/-- The octets of a string; a surrogate without its partner has none. -/
def octets? : List Piece → Option (List Char)
  | [] => some []
  | .octet c :: rest => (octets? rest).map (c :: ·)
  | .unit high :: .unit low :: rest =>
    if 0xd800 ≤ high && high ≤ 0xdbff then
      if 0xdc00 ≤ low && low ≤ 0xdfff then
        (octets? rest).map (codePoint (0x10000 + (high - 0xd800) * 0x400 + (low - 0xdc00)) ++ ·)
      else none
    else if 0xdc00 ≤ high && high ≤ 0xdfff then none
    else (octets? (.unit low :: rest)).map (codePoint high ++ ·)
  | .unit n :: rest =>
    if 0xd800 ≤ n && n ≤ 0xdfff then none else (octets? rest).map (codePoint n ++ ·)

/-- The text of a string: its surrogates are paired and its octets are UTF-8. -/
def text? (pieces : List Piece) : Option String := (octets? pieces).bind ofUtf8?

/-- The pieces of a text written without escapes. -/
def piecesOf (s : String) : List Piece := (utf8Octets s).map Piece.octet

/-- The digits of `word` that fit into 64 bits after those of `start`, and the digits left. -/
def takeWord (start : Nat) : List Nat → Nat × List Nat
  | [] => (start, [])
  | d :: ds =>
    if 10 * start + d < UInt64.size then takeWord (10 * start + d) ds else (start, d :: ds)

/-- `f * 10 ^ power`, scaled down in steps of at most 308 places; none when it is too large. -/
def scaled? : Nat → Float → Int → Option Float
  | 0, f, _ => some f
  | steps + 1, f, power =>
    if power.natAbs ≤ 308 then
      let unit := Float.ofScientific 1 false power.natAbs
      if 0 ≤ power then
        let product := f * unit
        if product.isInf then none else some product
      else some (f / unit)
    else if f == 0.0 then some f
    else if 0 ≤ power then none
    else scaled? steps (f / 1e308) (power + 308)

/-- The double of a numeral: the leading digits that fit into a 64-bit word, scaled by a power of
ten. None when it is too large for a double. -/
def float? (n : Numeral) : Option Float :=
  let (head, left) := takeWord 0 n.whole
  let fraction := n.fraction.getD []
  let (head, unread) := takeWord head fraction
  let shift : Int := left.length - (fraction.length - unread.length : Nat)
  let sign (f : Float) : Float := if n.negative then -f else f
  let unsigned : Option Float := match n.exponent with
    | none => scaled? 8 head.toUInt64.toFloat shift
    | some (down, digits) =>
      let places := ofDigits digits
      if Int32.maxValue.toInt < places then
        if head ≠ 0 && !down then none else some 0.0
      else scaled? 8 head.toUInt64.toFloat (if down then shift - places else shift + places)
  unsigned.map sign

/-- The integer of a numeral without point or exponent that fits into 64 bits, signed when it is
negative; a negative zero is none. -/
def int? (n : Numeral) : Option Int :=
  let value := ofDigits n.whole
  match n.fraction, n.exponent with
  | none, none =>
    if n.negative then
      if 0 < value ∧ Int64.minValue.toInt ≤ -value then some (-(value : Int)) else none
    else if value < UInt64.size then some value else none
  | _, _ => none

end JourneyPlanner.Json
