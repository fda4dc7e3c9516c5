import JourneyPlanner.Exposure.Basic
import JourneyPlanner.Decimal.Numeral

/-!
# Limits on exposure

A request may limit the average and the peak of each kind of exposure. Limits are written as
entries joined by ampersands, `ENVIRONMENTAL_kind_MAX_AVERAGE=value` or `…_PEAK=value`; entries of
one kind merge into one threshold, later values win, and malformed entries are skipped.
-/

namespace JourneyPlanner

open JourneyPlanner.Text

/-- The upper limits on one kind of exposure. -/
structure Threshold where
  kind : Exposure.Kind
  maxAverage : Option Float
  maxPeak : Option Float

namespace Threshold

/-- Whether a value keeps a limit, if there is one. -/
def within (limit : Option Float) (value : Float) : Bool :=
  match limit with
  | none => true
  | some max => decide (value ≤ max)

/-- Whether the exposure is of another kind or keeps both limits. -/
def allows (t : Threshold) (e : Exposure) : Bool :=
  e.kind != t.kind || (within t.maxAverage e.average && within t.maxPeak e.peak)

/-- Which of the two limits an entry sets. -/
inductive Limit where
  | average
  | peak
  deriving DecidableEq, Repr

/-- One entry of a text: a limit on a kind. -/
structure Entry where
  kind : Exposure.Kind
  limit : Limit
  value : Float

/-- The words of the two limits. -/
def Limit.words : List (String × Limit) := [("AVERAGE", .average), ("PEAK", .peak)]

/-- The limit and the value on the two sides of the first equals sign. -/
def assignment? (cs : List Char) : Option (Limit × Float) :=
  let word := String.ofList (cs.takeWhile (· != '='))
  match cs.dropWhile (· != '=') with
  | [] => none
  | _ :: value =>
    match Limit.words.lookup word, Decimal.readFloat? value with
    | some limit, some x => some (limit, x)
    | _, _ => none

/-- An entry has four words joined by underscores; the third is not looked at. -/
def entry? (cs : List Char) : Option Entry :=
  match fields (· == '_') cs with
  | [first, kind, _, last] =>
    if String.ofList first = "ENVIRONMENTAL" then
      match Exposure.Kind.words.lookup (String.ofList kind), assignment? last with
      | some kind, some (limit, value) => some ⟨kind, limit, value⟩
      | _, _ => none
    else none
  | _ => none

/-- The threshold with one limit set. -/
def set (t : Threshold) (limit : Limit) (value : Float) : Threshold :=
  match limit with
  | .average => { t with maxAverage := some value }
  | .peak => { t with maxPeak := some value }

/-- Sets the limit of an entry in the threshold of its kind, which is added when missing. -/
def merge (ts : List Threshold) (e : Entry) : List Threshold :=
  match ts with
  | [] => [(⟨e.kind, none, none⟩ : Threshold).set e.limit e.value]
  | t :: rest => if t.kind = e.kind then t.set e.limit e.value :: rest else t :: merge rest e

/-- The thresholds of a text, in the order in which their kinds first occur. -/
def parse (text : String) : List Threshold :=
  ((fields (· == '&') text.toList).filterMap entry?).foldl merge []

end Threshold

end JourneyPlanner
