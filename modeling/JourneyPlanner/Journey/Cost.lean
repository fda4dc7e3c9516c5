import JourneyPlanner.Journey.Request

/-!
# What journeys weigh

The weights of boardings and of streets, in any arithmetic. The bounds at the end are what no
boarding and no second on a street can be lighter than.
-/

namespace JourneyPlanner

namespace Request

variable {W : Type} [Weight W] (r : Request)

/-- The weight of waiting; the wait before the first boarding has its own factor. -/
def waitCost (wait : Int) (first : Bool) : W :=
  Weight.ofInt wait * Weight.ofFloat (if first then r.firstWaitFactor else r.waitReluctance)

/-- What the route of a trip weighs for being outside the preferred ones or among the
unpreferred. -/
def preferencePenalty (trip : Trip) : W :=
  let other : W :=
    if !r.preferredRoutes.isEmpty && !r.preferredRoutes.contains trip.route then
      Weight.zero + Weight.ofFloat r.otherRoutePenalty
    else Weight.zero
  if r.unpreferredRoutes.contains trip.route then
    other + Weight.ofFloat r.unpreferredRoutePenalty
  else other

/-- The circumstances of a boarding. -/
structure Boarding (W : Type) where
  wait : Int
  first : Bool
  transferPenalty : W
  preferencePenalty : W
  mode : Mode

/-- The weight of a boarding. -/
def boardingWeight (b : Boarding W) : W :=
  b.preferencePenalty + b.transferPenalty + r.waitCost b.wait b.first +
    Weight.ofFloat (r.boardCost b.mode)

/-- The seconds that a street takes in an off-board mode. -/
def streetSeconds (length : Float) (mode : Mode) : W :=
  Weight.ofFloat length / Weight.ofFloat (r.speed mode)

/-- The weight of seconds on a street; only walking has a reluctance. -/
def streetWeight (seconds : W) (mode : Mode) : W :=
  if mode = .walk then seconds * Weight.ofFloat r.walkReluctance else seconds

/-- The least that any boarding costs. -/
def boardCostLowerBound : W :=
  Weight.lesser (Weight.ofFloat r.walkBoardCost) (Weight.ofFloat r.bikeBoardCost)

/-- The greatest speed that the modes allow on streets. -/
def maxStreetSpeed : W :=
  if r.modes.contains .bicycle then
    Weight.greater (Weight.ofFloat r.walkSpeed) (Weight.ofFloat r.bikeSpeed)
  else Weight.ofFloat r.walkSpeed

/-- The least that a second on a street weighs. -/
def minStreetReluctance : W :=
  if r.modes.contains .bicycle then
    Weight.lesser (Weight.ofFloat r.walkReluctance) (Weight.ofInt 1)
  else Weight.ofFloat r.walkReluctance

end Request

end JourneyPlanner
