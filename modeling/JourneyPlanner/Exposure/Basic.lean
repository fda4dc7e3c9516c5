import JourneyPlanner.Arithmetic.Weight

/-!
# Exposure on streets

Stations measure what travellers are exposed to. The readings of the stations near a street are
combined into one exposure per kind: their mean and their peak.
-/

namespace JourneyPlanner

/-- What a traveller is exposed to. -/
inductive Exposure.Kind where
  | pollution
  | allergic
  | noise
  deriving DecidableEq, Repr

/-- The combined exposure of one kind on a street. -/
structure Exposure where
  kind : Exposure.Kind
  average : Float
  peak : Float

namespace Exposure

/-- Every kind, in order. -/
def Kind.all : List Kind := [.pollution, .allergic, .noise]

theorem Kind.mem_all (k : Kind) : k ∈ Kind.all := by cases k <;> decide

/-- The word for a kind in texts. -/
def Kind.word : Kind → String
  | .pollution => "POLLUTION"
  | .allergic => "ALLERGIC"
  | .noise => "NOISE"

/-- Every kind under its word. -/
def Kind.words : List (String × Kind) := Kind.all.map fun k => (k.word, k)

/-- The sum from left to right; that of no values is a negative zero. -/
def sum (values : List Float) : Float := values.foldl (· + ·) (-0.0)

/-- The greatest value that is a number; of no values it is minus infinity. -/
def peakOf (values : List Float) : Float := values.foldl Weight.greater (-1.0 / 0.0)

/-- The sum divided by the count. -/
def mean (values : List Float) : Float := sum values / values.length.toFloat

/-- The mean and the peak of the readings of one kind, when there are any. -/
def combine (kind : Kind) (values : List Float) : Option Exposure :=
  if values.isEmpty then none else some ⟨kind, mean values, peakOf values⟩

/-- One station's value for one kind. -/
structure Reading where
  kind : Kind
  value : Float

end Exposure

end JourneyPlanner
