import JourneyPlanner.Time.Date
import JourneyPlanner.Text.Utf8
import JourneyPlanner.Text.Blank

/-!
# Reading dates and instants

Two forms: a date as year, month and day in a row, and an instant in the form of RFC 3339 with an
offset from UTC. The fault that stands first in the text decides; text left over is reported
before a date that does not exist.
-/

namespace JourneyPlanner

open JourneyPlanner.Text

/-- Why a text is no date or instant. -/
inductive TimeFault where
  | tooShort
  | invalid
  | outOfRange
  | tooLong
  deriving DecidableEq, Repr

/-- The reason in messages. -/
def TimeFault.message : TimeFault → String
  | .tooShort => "premature end of input"
  | .invalid => "input contains invalid characters"
  | .outOfRange => "input is out of range"
  | .tooLong => "trailing input"

/-- A number of at most `limit` digits, and the rest; with no limit, of all digits that follow. -/
def scanDigits (limit : Option Nat) (cs : List Char) : Except TimeFault (Nat × List Char) :=
  let run := (cs.takeWhile isDigit).length
  let size := match limit with
    | some most => min most run
    | none => run
  if cs.isEmpty then .error .tooShort
  else if size = 0 then .error .invalid
  else .ok (ofDigits ((cs.take size).map digitValue), cs.drop size)

/-- A year of at most four digits, or of any number of digits after a sign. -/
def scanYear (cs : List Char) : Except TimeFault (Int × List Char) := do
  let (year, rest) ← match cs with
    | '-' :: rest => (scanDigits none rest).map fun (n, rest) => (-(n : Int), rest)
    | '+' :: rest => (scanDigits none rest).map fun (n, rest) => ((n : Int), rest)
    | _ => (scanDigits (some 4) cs).map fun (n, rest) => ((n : Int), rest)
  if Int32.minValue.toInt ≤ year ∧ year ≤ Int32.maxValue.toInt then return (year, rest)
  else throw .outOfRange

/-- A number of at most two digits between 1 and `high`. -/
def scanPart (high : Nat) (cs : List Char) : Except TimeFault (Nat × List Char) := do
  let (n, rest) ← scanDigits (some 2) cs
  if 1 ≤ n ∧ n ≤ high then return (n, rest) else throw .outOfRange

/-- A date as year, month and day in a row, each after optional blanks. -/
def Date.readCompact (text : String) : Except TimeFault Date := do
  let (year, rest) ← scanYear (trimStart text.toList)
  let (month, rest) ← scanPart 12 (trimStart rest)
  let (day, rest) ← scanPart 31 (trimStart rest)
  if !rest.isEmpty then throw .tooLong
  match Date.ofCivil? year month day with
  | some date => return date
  | none => throw .outOfRange

/-- A point in time: whole seconds since 1970 in UTC, and nanoseconds. A leap second is the second
before it with a thousand million nanoseconds more. -/
structure Instant where
  seconds : Int
  nanoseconds : Nat
  deriving DecidableEq, Repr

namespace Instant

/-- Exactly `count` digits. -/
def fixedDigits : Nat → Nat → List Char → Except TimeFault (Nat × List Char)
  | 0, value, cs => .ok (value, cs)
  | _ + 1, _, [] => .error .tooShort
  | count + 1, value, c :: rest =>
    if isDigit c then fixedDigits count (10 * value + digitValue c) rest else .error .invalid

/-- One character that is accepted. -/
def mark (accepted : Char → Bool) : List Char → Except TimeFault (List Char)
  | [] => .error .tooShort
  | c :: rest => if accepted c then .ok rest else .error .invalid

/-- The nanoseconds after a point; digits beyond the ninth are dropped. -/
def fraction : List Char → Except TimeFault (Nat × List Char)
  | '.' :: rest => do
    let (value, after) ← scanDigits (some 9) rest
    return (value * Nat.pow 10 (9 - (rest.length - after.length)), after.dropWhile isDigit)
  | rest => .ok (0, rest)

/-- The sign of an offset: plus, minus, or the minus sign proper in its three octets. -/
def offsetSign : List Char → Except TimeFault (Bool × List Char)
  | '+' :: rest => .ok (false, rest)
  | '-' :: rest => .ok (true, rest)
  | '\xe2' :: '\x88' :: '\x92' :: rest => .ok (true, rest)
  | [] => .error .tooShort
  | _ => .error .invalid

/-- The minutes of an offset, below sixty. -/
def offsetMinutes : List Char → Except TimeFault (Nat × List Char)
  | a :: b :: rest =>
    if isDigit a && isDigit b then
      if digitValue a ≤ 5 then .ok (10 * digitValue a + digitValue b, rest)
      else .error .outOfRange
    else .error .invalid
  | _ => .error .tooShort

/-- Two digits of hours in an offset. -/
def offsetHours : List Char → Except TimeFault (Nat × List Char)
  | a :: b :: rest =>
    if isDigit a && isDigit b then .ok (10 * digitValue a + digitValue b, rest)
    else .error .invalid
  | _ => .error .tooShort

/-- The seconds that local time is ahead of UTC. -/
def offset : List Char → Except TimeFault (Int × List Char)
  | 'Z' :: rest => .ok (0, rest)
  | 'z' :: rest => .ok (0, rest)
  | cs => do
    let (negative, cs) ← offsetSign cs
    let (hours, cs) ← offsetHours cs
    let cs ← mark (· == ':') cs
    let (minutes, cs) ← offsetMinutes cs
    let ahead : Int := hours * 3600 + minutes * 60
    return (if negative then -ahead else ahead, cs)

/-- An instant in the form of RFC 3339. -/
def parse (text : String) : Except TimeFault Instant := do
  let cs := utf8Octets text
  if cs.length < 19 then throw .tooShort
  let (year, cs) ← fixedDigits 4 0 cs
  let cs ← mark (· == '-') cs
  let (month, cs) ← fixedDigits 2 0 cs
  let cs ← mark (· == '-') cs
  let (day, cs) ← fixedDigits 2 0 cs
  let some date := Date.ofCivil? year month day | throw .outOfRange
  let cs ← mark (fun c => c == 'T' || c == 't' || c == ' ') cs
  let (hour, cs) ← fixedDigits 2 0 cs
  let cs ← mark (· == ':') cs
  let (minute, cs) ← fixedDigits 2 0 cs
  let cs ← mark (· == ':') cs
  let (written, cs) ← fixedDigits 2 0 cs
  let (nanoseconds, cs) ← fraction cs
  let second := if written = 60 then 59 else written
  if hour ≥ 24 ∨ minute ≥ 60 ∨ second ≥ 60 then throw .outOfRange
  let (ahead, cs) ← offset cs
  if !cs.isEmpty then throw .tooLong
  if ahead ≤ -86400 ∨ 86400 ≤ ahead then throw .outOfRange
  return {
    seconds := date.day * 86400 + hour * 3600 + minute * 60 + second - ahead
    nanoseconds := nanoseconds + if written = 60 then 1000000000 else 0 }

/-- Whether an instant comes before another. -/
def before (i j : Instant) : Bool :=
  decide (i.seconds < j.seconds) ||
    (i.seconds == j.seconds && decide (i.nanoseconds < j.nanoseconds))

end Instant

end JourneyPlanner
