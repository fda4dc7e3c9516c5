import JourneyPlanner.Journey.State

/-!
# Taking edges

From a state an edge is taken or rejected. Boarding and alighting are two sides of one
thing: the edge that finds the vehicle is the board edge of a search forward in time and the alight
edge of one backward; the other edge of the pair only records where the vehicle was left.
-/

namespace JourneyPlanner

/-- What taking an edge may look at besides the state. -/
structure Context where
  integers : Integers
  network : Network
  request : Request
  days : ServiceDays

namespace Context

/-- The context of a request at a reference time. -/
def make (integers : Integers) (network : Network) (request : Request) (time : Int) :
    Except CalendarError Context :=
  (network.calendar.serviceDays time).map fun days => ⟨integers, network, request, days⟩

/-- Whether the search goes backward in time. -/
def arriveBy (c : Context) : Bool := c.request.arriveBy

end Context

/-- An edge to get on or off at a stop of a pattern. -/
structure Gate where
  pattern : FrequencyPattern
  index : Nat
  boarding : Bool

namespace Gate

variable (g : Gate)

/-- The sort of the edge. -/
def kind : EdgeKind := if g.boarding then .board else .alight

/-- The stop. -/
def stop? : Option StopId := g.pattern.stops[g.index]?.map (·.stop)

/-- How travellers pass. -/
def access : StopAccess :=
  if g.boarding then g.pattern.boardAccess g.index else g.pattern.alightAccess g.index

/-- The vehicle time nearest to a time of the day on the search's side of it. -/
def nearestTime? (c : Context) (t : Int) (needs : Needs) : Except Overflow (Option Int) :=
  if c.arriveBy then g.pattern.previousArrival? c.integers g.index t needs true
  else g.pattern.nextDeparture? c.integers g.index t needs true

end Gate

section

variable {W : Type} [Weight W]

/-- Starts to take an edge. -/
def Edge.move (e : Edge) (s : State W) (c : Context) : Move W :=
  Move.start s e.reference (e.target c.arriveBy)

/-- Passes a gate that is open, with a note when the traveller has to do something. -/
def Gate.pass (g : Gate) (stop : StopId) (m : Move W) : Except Rejection (Move W) :=
  match g.access with
  | .regular => .ok m
  | .notAvailable => .error .accessNotAvailable
  | access => .ok (m.addNote ⟨stop, access, g.boarding⟩)

/-- Leaves the vehicle. Right after an edge of the same sort this would lead back onto it. -/
def Gate.leave (g : Gate) (e : Edge) (s : State W) (c : Context) : Except Rejection (State W) := do
  if s.cameBy g.kind then throw .repeatedAccess
  let some stop := g.stop? | throw .accessNotAvailable
  let m ← g.pass stop (e.move s c)
  ((((m.leave).setLastAlighted s.time).setPreviousStop stop).setBackMode .legSwitch).finish

/-- The transfer that boarding at a stop makes after an earlier ride. -/
def transferAt (c : Context) (s : State W) (stop : StopId) (trip : Trip) : TransferTime :=
  match s.previousStop, s.previousTrip with
  | some previousStop, some previousTrip =>
    c.network.transfers.transferTime previousStop stop previousTrip trip (!c.arriveBy)
  | _, _ => .unknown

/-- The time from which a vehicle may be met, given the least time of the transfer. -/
def earliestMeeting (c : Context) (s : State W) (transfer : TransferTime) :
    Except Overflow Int :=
  match transfer.minimumSeconds?, s.lastAlighted with
  | some least, some alighted =>
    if least = 0 then .ok s.time
    else do
      let ready ← c.integers.fit 64 (onward c.arriveBy alighted least)
      return if c.arriveBy then min s.time ready else max s.time ready
  | _, _ => .ok s.time

/-- A transfer that can be made from a state: the time from which a vehicle may be met, and what
the transfer weighs. The first boarding makes none. -/
def checkTransfer (c : Context) (s : State W) (stop : StopId) (trip : Trip) :
    Except Rejection (Int × W) :=
  if s.everBoarded then do
    let transfer := transferAt c s stop trip
    let overTimedEdge := s.cameBy .timedTransfer
    if transfer = .forbidden then throw .forbiddenTransfer
    let meeting ← unlessOverflow (earliestMeeting c s transfer)
    if overTimedEdge && transfer ≠ .timed then throw .notTimedTransfer
    if transfer = .timed && !overTimedEdge then throw .timedTransferMissing
    return (meeting, transfer.penalty c.request.nonpreferredTransferPenalty)
  else .ok (s.time, Weight.zero)

/-- The wait for the vehicle of one day that is nearest to a time, when the day has started and its
vehicles run. -/
def Gate.waitOn? (g : Gate) (c : Context) (s : State W) (meeting : Int) (day : ServiceDay) :
    Except Overflow (Option Int) := do
  let t ← day.sinceMidnight c.integers meeting
  if t < 0 ∨ Int32.maxValue.toInt < t ∨ !day.runs g.pattern.service then return none
  let hit? ← g.nearestTime? c t ⟨c.request.wheelchair, s.streetMode == .bicycle⟩
  hit?.mapM fun hit => do
    c.integers.fit 64 (secondsTo c.arriveBy s.time (← day.instantOf c.integers hit))

/-- The better of two hits: the shorter wait, the earlier on a tie, and any instead of a negative
one. -/
def shorterWait (best : Option (Int × ServiceDay)) (hit : Int × ServiceDay) :
    Option (Int × ServiceDay) :=
  match best with
  | none => some hit
  | some b => if b.1 < 0 ∨ (0 ≤ hit.1 ∧ hit.1 < b.1) then some hit else some b

/-- The shortest wait over the three days, with the day on which the vehicle runs. -/
def Gate.nearestVehicle? (g : Gate) (c : Context) (s : State W) (meeting : Int) :
    Except Overflow (Option (Int × ServiceDay)) := do
  let hits ← c.days.toList.mapM fun day => do
    return (← g.waitOn? c s meeting day).map (·, day)
  return (hits.filterMap id).foldl shorterWait none

/-- Finds the nearest vehicle and gets on it. -/
def Gate.findVehicle (g : Gate) (e : Edge) (s : State W) (c : Context) :
    Except Rejection (State W) := do
  let p := g.pattern
  if !c.request.modes.contains p.mode then throw (.modeNotAllowed p.mode)
  let some stop := g.stop? | throw .accessNotAvailable
  let (meeting, transferPenalty) ← checkTransfer c s stop p.trip
  if c.request.bansTrip p.trip then throw .bannedTrip
  let some (wait, day) ← unlessOverflow (g.nearestVehicle? c s meeting) | throw .noService
  if wait < 0 then throw .negativeWait
  if c.request.bansRoute p.trip then throw .bannedRoute
  let m ← g.pass stop (e.move s c)
  let m ← unlessOverflow ((m.setServiceDay day).advance c.integers wait)
  let m := m.countBoarding.board p.trip
  let weight := c.request.boardingWeight {
    wait := wait
    first := !s.everBoarded
    transferPenalty := transferPenalty
    preferencePenalty := c.request.preferencePenalty p.trip
    mode := s.streetMode }
  (((m.setZone (p.zoneAt g.index)).addWeight weight).setBackMode .legSwitch).finish

/-- Takes a board or alight edge. -/
def Gate.traverse (g : Gate) (e : Edge) (s : State W) (c : Context) : Except Rejection (State W) :=
  if g.boarding = c.arriveBy then g.leave e s c else g.findVehicle e s c

/-- Stays on the vehicle for some seconds. -/
def ride (p : FrequencyPattern) (seconds : Int) (e : Edge) (s : State W) (c : Context) :
    Except Rejection (State W) :=
  if s.trip.map (·.id) = some p.trip.id then do
    let m ← unlessOverflow ((e.move s c).advance c.integers seconds)
    ((m.addWeight (Weight.ofInt seconds)).setBackMode p.mode).finish
  else .error .notOnTrip

/-- The seconds that an edge stays on board. -/
def Edge.staySeconds (k : Integers) (e : Edge) : Except Overflow Int := do
  match e.link with
  | .hop p i j => return (← p.rideTime? k i j).getD 0
  | .dwell p i => return (← p.dwellTime? k i).getD 0
  | _ => return 0

/-- Walks or cycles along a street that the modes and the limits on exposure allow. -/
def Street.traverse (street : Street) (e : Edge) (s : State W) (c : Context) :
    Except Rejection (State W) :=
  let mode := s.streetMode
  if s.isOnBoard then .error .alreadyOnBoard
  else if !c.request.modes.contains mode || !street.permission.contains mode then
    .error (.modeNotAllowed mode)
  else if c.request.exceeds (c.network.exposures e.id) then .error .exposureLimit
  else do
    let seconds : W := Weight.ceil (c.request.streetSeconds street.length mode)
    let m ← unlessOverflow ((e.move s c).advance c.integers (Weight.truncate seconds))
    ((m.addWeight (c.request.streetWeight seconds mode)).setBackMode mode).finish

/-- Changes to the other stop of a timed transfer. -/
def changeVehicles (e : Edge) (s : State W) (c : Context) : Except Rejection (State W) :=
  if s.isOnBoard then .error .alreadyOnBoard else ((e.move s c).setBackMode .walk).finish

namespace Edge

/-- The state after taking the edge in the direction of the search. -/
def traverse (e : Edge) (s : State W) (c : Context) : Except Rejection (State W) :=
  match e.link with
  | .board p i => Gate.traverse ⟨p, i, true⟩ e s c
  | .alight p i => Gate.traverse ⟨p, i, false⟩ e s c
  | .hop p .. | .dwell p .. => do ride p (← unlessOverflow (e.staySeconds c.integers)) e s c
  | .timedTransfer => changeVehicles e s c
  | .street street => street.traverse e s c

/-- The state after taking the edge when every vehicle is there at once and free of charge. -/
def optimisticTraverse (e : Edge) (s : State W) (c : Context) : Except Rejection (State W) :=
  match e.link with
  | .board .. | .alight .. => ((e.move s c).setBackMode .legSwitch).finish
  | _ => e.traverse s c

end Edge

end

end JourneyPlanner
