import JourneyPlanner.Journey.Traversal

/-!
# Bounds on edges

What taking an edge takes and weighs at least, whatever the state. The edge that leaves a vehicle
stands for the board cost of the ride, which the edge that found the vehicle has paid. The bounds
are those of exact integers; where the seconds on board do not fit in their word there are none.
-/

namespace JourneyPlanner

variable {W : Type} [Weight W]

/-- Nothing when the pattern may be used and runs on one of the days, otherwise infinity. -/
def FrequencyPattern.reachBound (p : FrequencyPattern) (c : Context) : W :=
  if c.request.modes.contains p.mode && c.days.anyRunning p.service then Weight.zero
  else Weight.infinity

/-- The least seconds on a street. -/
def Street.timeBound (street : Street) (c : Context) : W :=
  Weight.ofFloat street.length / c.request.maxStreetSpeed

namespace Edge

/-- The seconds that the edge stays on board, without bound. -/
def exactStay (e : Edge) : Int := (e.staySeconds .unbounded).toOption.getD 0

/-- The least seconds that the edge takes. -/
def timeBound (e : Edge) (c : Context) : W :=
  match e.link with
  | .board p _ => if c.arriveBy then Weight.zero else p.reachBound c
  | .alight p _ => if c.arriveBy then p.reachBound c else Weight.zero
  | .hop .. | .dwell .. => Weight.ofInt e.exactStay
  | .timedTransfer => Weight.zero
  | .street street => street.timeBound c

/-- The least weight that the edge adds; over a ride the bounds of its two ends add up to no more
than its boarding weighs. -/
def weightBound (e : Edge) (c : Context) : W :=
  match e.link with
  | .board p _ => if c.arriveBy then c.request.boardCostLowerBound else p.reachBound c
  | .alight p _ => if c.arriveBy then p.reachBound c else c.request.boardCostLowerBound
  | .hop .. | .dwell .. => Weight.ofInt e.exactStay
  | .timedTransfer => Weight.zero
  | .street street => street.timeBound c * c.request.minStreetReluctance

end Edge

end JourneyPlanner
