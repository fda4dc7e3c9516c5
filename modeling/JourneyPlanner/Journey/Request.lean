import JourneyPlanner.Exposure.Threshold
import JourneyPlanner.Identifier
import JourneyPlanner.Mode

/-!
# Requests

What a traveller asks for besides the two ends and the time: the direction of the search, the modes
and lines to use or avoid, and how much each second and each boarding weighs. Speeds are in metres
per second, penalties and costs in seconds.
-/

namespace JourneyPlanner

/-- A traveller's preferences. The defaults make waiting a little cheaper than riding, discount the
first wait, and let a boarding weigh ten minutes. -/
structure Request where
  /-- Whether the time is that of arrival, and the search goes backward. -/
  arriveBy : Bool := false
  modes : ModeSet := .walkAndTransit
  bannedTrips : List TripId := []
  bannedRoutes : List RouteId := []
  /-- When there are any, all other routes are penalised. -/
  preferredRoutes : List RouteId := []
  unpreferredRoutes : List RouteId := []
  otherRoutePenalty : Float := 300.0
  unpreferredRoutePenalty : Float := 300.0
  waitReluctance : Float := 0.95
  firstWaitFactor : Float := 0.4
  walkReluctance : Float := 2.0
  walkSpeed : Float := 1.33
  bikeSpeed : Float := 5.0
  walkBoardCost : Float := 600.0
  bikeBoardCost : Float := 600.0
  nonpreferredTransferPenalty : Float := 180.0
  wheelchair : Bool := false
  thresholds : List Threshold := []

namespace Request

variable (r : Request)

/-- Whether the route of a trip is banned. -/
def bansRoute (trip : Trip) : Bool := r.bannedRoutes.contains trip.route

/-- Whether the trip itself is banned. -/
def bansTrip (trip : Trip) : Bool := r.bannedTrips.contains trip.id

/-- The off-board mode that a search starts in: walking, unless only a bicycle is allowed. -/
def initialMode : Mode :=
  if r.modes.contains .bicycle && !r.modes.contains .walk then .bicycle else .walk

/-- The speed in an off-board mode. -/
def speed (mode : Mode) : Float := if mode = .bicycle then r.bikeSpeed else r.walkSpeed

/-- The cost of boarding from an off-board mode. -/
def boardCost (mode : Mode) : Float := if mode = .bicycle then r.bikeBoardCost else r.walkBoardCost

/-- Whether the exposures on a street break one of the limits. -/
def exceeds (exposures : List Exposure) : Bool :=
  exposures.any fun e => r.thresholds.any fun t => !t.allows e

end Request

end JourneyPlanner
