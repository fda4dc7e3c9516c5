import JourneyPlanner.Journey.Cost
import JourneyPlanner.Network.Basic
import JourneyPlanner.Schedule.ServiceDay

/-!
# States of a journey

A state is where a traveller stands in the course of a search: vertex, time, weight, and what the
rules about boarding remember of the way. An edge is taken in a move, which stages the changes and
is spoilt by a step back in time or a weight that is no weight. A trail is a state with the states
before it.
-/

namespace JourneyPlanner

/-- A boarding or alighting for which the traveller has to do something. -/
structure Note where
  stop : StopId
  access : StopAccess
  boarding : Bool
  deriving DecidableEq

/-- Why an edge cannot be taken. -/
inductive Rejection where
  | modeNotAllowed (mode : Mode)
  | forbiddenTransfer
  | notTimedTransfer
  | timedTransferMissing
  | bannedTrip
  | bannedRoute
  | noService
  | accessNotAvailable
  | repeatedAccess
  | notOnTrip
  | alreadyOnBoard
  | negativeWait
  | exposureLimit
  | defective
  /-- A result did not fit in its word: no verdict on the edge, but the end of the computation. -/
  | overflow
  deriving DecidableEq, Repr

/-- The message for a rejection. -/
def Rejection.message : Rejection → String
  | .modeNotAllowed mode => "mode " ++ mode.name ++ " not allowed"
  | .forbiddenTransfer => "transfer forbidden"
  | .notTimedTransfer => "timed-transfer edge used for a transfer that is not timed"
  | .timedTransferMissing => "timed transfer not made over a timed-transfer edge"
  | .bannedTrip => "trip banned"
  | .bannedRoute => "route banned"
  | .noService => "no service in the search window"
  | .accessNotAvailable => "boarding or alighting not available at this stop"
  | .repeatedAccess => "repeated board or alight"
  | .notOnTrip => "not riding this trip"
  | .alreadyOnBoard => "already riding a trip"
  | .negativeWait => "negative wait"
  | .exposureLimit => "environmental limit exceeded"
  | .defective => "invalid state change"
  | .overflow => "arithmetic overflow"

/-- The result of integer arithmetic on the way along an edge. -/
def unlessOverflow {α : Type} (x : Except Overflow α) : Except Rejection α :=
  x.mapError fun _ => .overflow

/-- The time so many seconds on in the direction of a search. -/
def onward (arriveBy : Bool) (time seconds : Int) : Int :=
  if arriveBy then time - seconds else time + seconds

/-- The seconds from one time to another in the direction of a search. -/
def secondsTo (arriveBy : Bool) (a b : Int) : Int := if arriveBy then a - b else b - a

/-- Where a traveller stands in a search. -/
structure State (W : Type) where
  vertex : VertexId
  time : Int
  weight : W
  boardings : Nat
  everBoarded : Bool
  /-- The trip that is being ridden. -/
  trip : Option Trip
  /-- The trip boarded last, kept after leaving it. -/
  previousTrip : Option Trip
  /-- Where a vehicle was left last. -/
  previousStop : Option StopId
  /-- When a vehicle was left last. -/
  lastAlighted : Option Int
  serviceDay : Option ServiceDay
  zone : Option String
  backMode : Option Mode
  /-- The mode used when off board. -/
  streetMode : Mode
  /-- The edge that led here. -/
  backEdge : Option EdgeRef
  notes : List Note
  arriveBy : Bool

namespace State

variable {W : Type} [Weight W]

/-- The state in which a search starts. -/
def origin (vertex : VertexId) (time : Int) (request : Request) : State W where
  vertex := vertex
  time := time
  weight := Weight.zero
  boardings := 0
  everBoarded := false
  trip := none
  previousTrip := none
  previousStop := none
  lastAlighted := none
  serviceDay := none
  zone := none
  backMode := none
  streetMode := request.initialMode
  backEdge := none
  notes := []
  arriveBy := request.arriveBy

/-- Whether a vehicle is being ridden. -/
def isOnBoard (s : State W) : Bool := s.trip.isSome

/-- Whether an edge of a sort led here. -/
def cameBy (s : State W) (kind : EdgeKind) : Bool := s.backEdge.any (·.kind == kind)

/-- The seconds between the origin's time and the state's, in either direction. -/
def elapsed (k : Integers) (s : State W) (originTime : Int) : Except Overflow Int := do
  k.fit 64 (← k.fit 64 (s.time - originTime)).natAbs

end State

/-- A state in the making, and whether a change was refused. -/
structure Move (W : Type) where
  state : State W
  isDefective : Bool

namespace Move

variable {W : Type} [Weight W]

/-- Starts from a state over an edge to a vertex. -/
def start (s : State W) (edge : EdgeRef) (vertex : VertexId) : Move W :=
  ⟨{ s with vertex := vertex, backEdge := some edge, notes := [] }, false⟩

/-- Moves time in the direction of the search, by no less than nothing. -/
def advance (k : Integers) (m : Move W) (seconds : Int) : Except Overflow (Move W) :=
  if seconds < 0 then .ok { m with isDefective := true }
  else do
    let time ← k.fit 64 (onward m.state.arriveBy m.state.time seconds)
    return { m with state := { m.state with time := time } }

/-- Adds a weight that is a number and not negative. -/
def addWeight (m : Move W) (weight : W) : Move W :=
  if Weight.isNaN weight || Weight.less weight Weight.zero then { m with isDefective := true }
  else { m with state := { m.state with weight := m.state.weight + weight } }

/-- Counts a boarding. -/
def countBoarding (m : Move W) : Move W :=
  { m with state := { m.state with boardings := m.state.boardings + 1, everBoarded := true } }

/-- Gets on a trip. -/
def board (m : Move W) (trip : Trip) : Move W :=
  { m with state := { m.state with trip := some trip, previousTrip := some trip } }

/-- Gets off the trip. -/
def leave (m : Move W) : Move W := { m with state := { m.state with trip := none } }

/-- Remembers the stop where a vehicle was left. -/
def setPreviousStop (m : Move W) (stop : StopId) : Move W :=
  { m with state := { m.state with previousStop := some stop } }

/-- Remembers the time at which a vehicle was left. -/
def setLastAlighted (m : Move W) (time : Int) : Move W :=
  { m with state := { m.state with lastAlighted := some time } }

/-- Records the day on which the vehicle runs. -/
def setServiceDay (m : Move W) (day : ServiceDay) : Move W :=
  { m with state := { m.state with serviceDay := some day } }

/-- Records the fare zone. -/
def setZone (m : Move W) (zone : Option String) : Move W :=
  { m with state := { m.state with zone := zone } }

/-- Records the mode of the edge. -/
def setBackMode (m : Move W) (mode : Mode) : Move W :=
  { m with state := { m.state with backMode := some mode } }

/-- Adds a note. -/
def addNote (m : Move W) (note : Note) : Move W :=
  { m with state := { m.state with notes := m.state.notes ++ [note] } }

/-- The state reached, unless a change was refused. -/
def finish (m : Move W) : Except Rejection (State W) :=
  if m.isDefective then .error .defective else .ok m.state

end Move

/-- A state and the states before it, the latest first. -/
structure Trail (W : Type) where
  last : State W
  earlier : List (State W)

namespace Trail

variable {W : Type} [Weight W]

/-- The trail of a search that has not moved. -/
def start (s : State W) : Trail W := ⟨s, []⟩

/-- The trail with one state more. -/
def extend (t : Trail W) (s : State W) : Trail W := ⟨s, t.last :: t.earlier⟩

/-- The states from the origin on. -/
def states (t : Trail W) : List (State W) := t.earlier.reverse ++ [t.last]

/-- The trail up to the state before the last, and the trails before it, added to a list. -/
def prefixesOnto (last : State W) : List (State W) → List (Trail W) → List (Trail W)
  | [], onto => ⟨last, []⟩ :: onto
  | before :: earlier, onto => prefixesOnto before earlier (⟨last, before :: earlier⟩ :: onto)

/-- The trails that end at each state in turn, the origin's first. -/
def prefixes (t : Trail W) : List (Trail W) := prefixesOnto t.last t.earlier []

/-- The weight that the last edge added. -/
def weightDelta (t : Trail W) : W :=
  match t.earlier with
  | [] => Weight.zero
  | before :: _ => t.last.weight - before.weight

end Trail

end JourneyPlanner
