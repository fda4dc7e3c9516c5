import JourneyPlanner.Identifier
import JourneyPlanner.Arithmetic.Weight

/-!
# Transfers

A rule says how a traveller may change from one stop to another, perhaps only between certain
routes or trips. Of the rules that match, the most specific one counts, and of equals the last
added; without a match the parent stations are tried.
-/

namespace JourneyPlanner

/-- How a transfer can be made. -/
inductive TransferTime where
  | unknown
  | preferred
  | timed
  | minimum (seconds : Nat)
  | forbidden
  deriving DecidableEq, Repr

namespace TransferTime

/-- The transfer of a code of the feed and its minimum time. -/
def ofCode? (code : Nat) (minimumTime : Option Nat) : Option TransferTime :=
  match code with
  | 0 => some preferred
  | 1 => some timed
  | 2 => some (minimum (minimumTime.getD 0))
  | 3 => some forbidden
  | _ => none

/-- The seconds that a transfer needs at least. -/
def minimumSeconds? : TransferTime → Option Nat
  | minimum seconds => some seconds
  | _ => none

/-- What a transfer weighs: timed and preferred ones are free. -/
def penalty {W : Type} [Weight W] (t : TransferTime) (nonpreferred : Float) : W :=
  match t with
  | timed | preferred => Weight.zero
  | forbidden => Weight.infinity
  | minimum _ | unknown => Weight.ofFloat nonpreferred

end TransferTime

/-- A transfer, for the trips and routes that it names on either side. -/
structure TransferRule where
  fromRoute : Option RouteId
  toRoute : Option RouteId
  fromTrip : Option TripId
  toTrip : Option TripId
  transfer : TransferTime
  deriving DecidableEq

namespace TransferRule

/-- Whether a restriction, if there is one, is met. -/
def accepts {α : Type} [DecidableEq α] (restriction : Option α) (a : α) : Bool :=
  match restriction with
  | none => true
  | some r => r == a

/-- Whether the rule covers a change between two trips. -/
def isMatch (r : TransferRule) (alighted boarded : Trip) : Bool :=
  accepts r.fromRoute alighted.route && accepts r.toRoute boarded.route &&
    accepts r.fromTrip alighted.id && accepts r.toTrip boarded.id

/-- How narrow one side of a rule is: a trip outranks a route. -/
def sideSpecificity (route : Option RouteId) (trip : Option TripId) : Nat :=
  match route, trip with
  | _, some _ => 2
  | some _, none => 1
  | none, none => 0

/-- How narrow the rule is. -/
def specificity (r : TransferRule) : Nat :=
  sideSpecificity r.fromRoute r.fromTrip + sideSpecificity r.toRoute r.toTrip

/-- The most specific of two rules, the second on a tie. -/
def preferLater (best : Option TransferRule) (r : TransferRule) : Option TransferRule :=
  match best with
  | none => some r
  | some b => if b.specificity ≤ r.specificity then some r else some b

/-- The most specific rule of a list, the last one of equals. -/
def best? (rules : List TransferRule) : Option TransferRule := rules.foldl preferLater none

end TransferRule

/-- The rules of stop pairs, in the order added, and the stations that stops belong to, the
latest first. -/
structure TransferTable where
  rules : List (StopId × StopId × TransferRule)
  parents : List (StopId × StopId)

namespace TransferTable

/-- No rules. -/
def empty : TransferTable := ⟨[], []⟩

/-- One more rule for changes between two stops. -/
def add (t : TransferTable) (fromStop toStop : StopId) (rule : TransferRule) : TransferTable :=
  { t with rules := t.rules ++ [(fromStop, toStop, rule)] }

/-- The table with a stop in a station. -/
def setParent (t : TransferTable) (stop parent : StopId) : TransferTable :=
  { t with parents := (stop, parent) :: t.parents }

/-- The rules of a stop pair, in the order added. -/
def rulesFor (t : TransferTable) (fromStop toStop : StopId) : List TransferRule :=
  t.rules.filterMap fun (a, b, rule) => if a = fromStop ∧ b = toStop then some rule else none

/-- The number of stop pairs with a rule. -/
def size (t : TransferTable) : Nat := (t.rules.map fun (a, b, _) => (a, b)).eraseDups.length

/-- The station of a stop, which stands for itself when it has none. -/
def parentOf (t : TransferTable) (stop : StopId) : StopId := (t.parents.lookup stop).getD stop

/-- The transfer of the best rule of a stop pair that covers the trips. -/
def ruleOf? (t : TransferTable) (fromStop toStop : StopId) (alighted boarded : Trip) :
    Option TransferTime :=
  (TransferRule.best? ((t.rulesFor fromStop toStop).filter (·.isMatch alighted boarded))).map
    (·.transfer)

/-- The transfer from one trip to another in the direction of travel. -/
def travel (t : TransferTable) (fromStop toStop : StopId) (alighted boarded : Trip) :
    TransferTime :=
  match t.ruleOf? fromStop toStop alighted boarded with
  | some found => found
  | none =>
    if t.parentOf fromStop = fromStop ∧ t.parentOf toStop = toStop then .unknown
    else (t.ruleOf? (t.parentOf fromStop) (t.parentOf toStop) alighted boarded).getD .unknown

/-- The transfer between two stops in the order in which a search meets them; a backward search
meets the boarding first. -/
def transferTime (t : TransferTable) (firstStop secondStop : StopId) (first second : Trip)
    (forward : Bool) : TransferTime :=
  if forward then t.travel firstStop secondStop first second
  else t.travel secondStop firstStop second first

end TransferTable

end JourneyPlanner
