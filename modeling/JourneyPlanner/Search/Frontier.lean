import Std.Data.TreeMap
import JourneyPlanner.Journey.State

/-!
# Frontiers

Of the states that stand at the same place only those count that no other is at least as good as in
every respect: weight, time, boardings, and the slack since the last alighting. A frontier keeps
the labels of the states that count.
-/

namespace JourneyPlanner

/-- Where a state stands: its vertex, the trip ridden, and off board the trip and the stop that
were left, from which transfer rules start. -/
structure Place where
  vertex : VertexId
  riding : Option TripId
  left : Option (TripId × StopId)
  deriving DecidableEq

/-- What states at one place are compared by. -/
structure Label (W : Type) where
  place : Place
  weight : W
  time : Int
  boardings : Nat
  alighted : Option Int

variable {W : Type}

/-- The place of a state. -/
def State.place (s : State W) : Place where
  vertex := s.vertex
  riding := s.trip.map (·.id)
  left :=
    if s.isOnBoard then none
    else match s.previousTrip, s.previousStop with
      | some trip, some stop => some (trip.id, stop)
      | _, _ => none

/-- The label of a state; on board the last alighting does not count. -/
def State.label (s : State W) : Label W where
  place := s.place
  weight := s.weight
  time := s.time
  boardings := s.boardings
  alighted := if s.isOnBoard then none else s.lastAlighted

/-- Whether a time is at least as good: no later, or no earlier when searching backward. -/
def noWorseTime (arriveBy : Bool) (a b : Int) : Bool :=
  if arriveBy then decide (b ≤ a) else decide (a ≤ b)

/-- Whether an alighting is at least as good; one that happened and one that did not cannot be
compared. -/
def noWorseAlighting (arriveBy : Bool) : Option Int → Option Int → Bool
  | some a, some b => noWorseTime arriveBy a b
  | none, none => true
  | _, _ => false

/-- Whether a label is at the same place and at least as good in every respect. -/
def Label.dominates [Weight W] (arriveBy : Bool) (a b : Label W) : Bool :=
  a.place == b.place && Weight.atMost a.weight b.weight && noWorseTime arriveBy a.time b.time &&
    decide (a.boardings ≤ b.boardings) && noWorseAlighting arriveBy a.alighted b.alighted

/-- The labels that count, by vertex. -/
structure Frontier (W : Type) where
  labels : Std.TreeMap VertexId (List (Label W))

namespace Frontier

/-- No labels. -/
def empty : Frontier W := ⟨∅⟩

/-- The labels at a vertex. -/
def labelsAt (f : Frontier W) (v : VertexId) : List (Label W) := f.labels[v]?.getD []

/-- The frontier with a state's label in place of those it dominates, unless one there already
dominates it. -/
def admit? [Weight W] (f : Frontier W) (s : State W) : Option (Frontier W) :=
  let label := s.label
  let here := f.labelsAt s.vertex
  if here.any (·.dominates s.arriveBy label) then none
  else
    let kept := here.filter fun other => !label.dominates s.arriveBy other
    some ⟨f.labels.insert s.vertex (kept ++ [label])⟩

end Frontier

end JourneyPlanner
