import JourneyPlanner.Text.Blank
import JourneyPlanner.Decimal.Fixed

/-!
# Times of a service day

A service time counts seconds from the start of the service day and may pass midnight. It is
written as hours, minutes and seconds; texts are accepted up to forty-eight hours.
-/

namespace JourneyPlanner

open JourneyPlanner.Text

/-- Seconds since the start of a service day. -/
structure ServiceTime where
  seconds : Int
  deriving DecidableEq, Repr

namespace ServiceTime

/-- Why a text is no service time. -/
inductive Fault where
  | parts
  | hourDigits
  | minuteDigits
  | minuteRange
  | secondDigits
  | secondRange
  | tooLate
  deriving DecidableEq, Repr

/-- The message for a refused text. -/
def Fault.message (fault : Fault) : String :=
  "invalid service time: " ++ match fault with
    | .parts => "expected H:MM:SS format"
    | .hourDigits => "invalid hour digits"
    | .minuteDigits => "invalid minute digits"
    | .minuteRange => "minute must be 0-59"
    | .secondDigits => "invalid second digits"
    | .secondRange => "second must be 0-59"
    | .tooLate => "service time beyond 48:00:00"

/-- The latest time that a text may give: forty-eight hours. -/
def latest : Nat := 2 * 24 * 3600

/-- The number that exactly two digits write. -/
def twoDigits? : List Char → Option Nat
  | [a, b] => if isDigit a && isDigit b then some (10 * digitValue a + digitValue b) else none
  | _ => none

/-- The number that one or two digits write. -/
def hours? : List Char → Option Nat
  | [a] => if isDigit a then some (digitValue a) else none
  | cs => twoDigits? cs

/-- Reads hours, minutes and seconds; the leftmost fault decides. -/
def parse (text : String) : Except Fault ServiceTime :=
  match fields (· == ':') text.toList with
  | [h, m, s] =>
    match hours? h with
    | none => .error .hourDigits
    | some hours =>
      match twoDigits? m with
      | none => .error .minuteDigits
      | some minutes =>
        if minutes > 59 then .error .minuteRange
        else match twoDigits? s with
          | none => .error .secondDigits
          | some seconds =>
            if seconds > 59 then .error .secondRange
            else
              let total := hours * 3600 + minutes * 60 + seconds
              if total > latest then .error .tooLate else .ok ⟨total⟩
  | _ => .error .parts

/-- Hours, minutes and seconds with two digits each at least, after a minus for a negative
time. -/
def render (t : ServiceTime) : String :=
  let size := t.seconds.natAbs
  (if t.seconds < 0 then "-" else "") ++ Decimal.padded 2 (size / 3600) ++ ":" ++
    Decimal.padded 2 (size / 60 % 60) ++ ":" ++ Decimal.padded 2 (size % 60)

/-- The form that inspection shows. -/
def inspect (t : ServiceTime) : String := "ServiceTime(" ++ t.render ++ ")"

end ServiceTime

end JourneyPlanner
