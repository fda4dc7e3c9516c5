import JourneyPlanner.Search.Frontier
import JourneyPlanner.Search.LowerBounds

/-!
# The search for journeys

States are explored in the order of their weight plus a lower bound on what is still to come. A
state off board at the target ends a path; any other is expanded by the edges that can be taken
from it, and only states that count on the frontier are queued. On board nothing is added to the
weight, because the edge that leaves the vehicle stands for a boarding already paid for. A search
in which some result did not fit in its word has no answer.
-/

namespace JourneyPlanner

/-- How far a search may go. -/
structure SearchLimits where
  maxStates : Nat := 200000
  maxResults : Nat := 3
  maxBoardings : Nat := 6

/-- Where from, where to, when, and how. -/
structure Query where
  start : VertexId
  goal : VertexId
  time : Int
  request : Request

/-- Why a search has no answer. -/
inductive SearchError where
  | unknownVertex (v : VertexId)
  | calendar (e : CalendarError)
  | overflow

/-- The message for an error. -/
def SearchError.message : SearchError → String
  | .unknownVertex v => "invalid search request: unknown vertex " ++ v.render
  | .calendar e => e.message
  | .overflow => Rejection.overflow.message

/-- The paths found, in the order found, and the number of states explored. -/
structure SearchResult (W : Type) where
  explored : Nat
  paths : List (Trail W)

namespace Query

/-- The vertex at which the search starts: the goal when it goes backward. -/
def origin (q : Query) : VertexId := if q.request.arriveBy then q.goal else q.start

/-- The vertex at which the search ends. -/
def target (q : Query) : VertexId := if q.request.arriveBy then q.start else q.goal

/-- The first of the two ends that is no vertex. -/
def unknownVertex? (q : Query) (n : Network) : Option VertexId :=
  [q.start, q.goal].find? fun v => n.vertices.size ≤ v

end Query

variable {W : Type} [Weight W]

/-- A trail in the queue, with its priority and its number in the order of queueing. -/
structure Candidate (W : Type) where
  priority : W
  number : Nat
  trail : Trail W

/-- Whether one candidate comes before another: by priority, then by number. -/
def Candidate.before (a b : Candidate W) : Bool :=
  match Weight.rank a.priority b.priority with
  | .lt => true
  | .gt => false
  | .eq => decide (a.number ≤ b.number)

/-- What a search goes by. -/
structure Plan (W : Type) where
  context : Context
  target : VertexId
  limits : SearchLimits
  bounds : Array W

/-- How far a search has come. -/
structure Progress (W : Type) where
  queue : Queue (Candidate W)
  frontier : Frontier W
  queued : Nat
  explored : Nat
  paths : List (Trail W)
  /-- Whether taking an edge overflowed. -/
  overflowed : Bool

namespace Plan

/-- What a state's journey still weighs at least; on board nothing is known. -/
def heuristic (p : Plan W) (s : State W) : W :=
  if s.isOnBoard then Weight.zero else p.bounds[s.vertex]?.getD Weight.infinity

/-- Whether a state ends a path. -/
def isGoal (p : Plan W) (s : State W) : Bool := s.vertex == p.target && !s.isOnBoard

/-- Queues the state behind an edge, if the edge can be taken, the boardings are not too many, the
target can be reached, and the state counts. -/
def tryEdge (p : Plan W) (trail : Trail W) (g : Progress W) (e : Edge) : Progress W :=
  match e.traverse trail.last p.context with
  | .error .overflow => { g with overflowed := true }
  | .error _ => g
  | .ok child =>
    let ahead := p.heuristic child
    if p.limits.maxBoardings < child.boardings || !Weight.isFinite ahead then g
    else match g.frontier.admit? child with
      | none => g
      | some frontier =>
        { g with
          frontier := frontier
          queued := g.queued + 1
          queue := g.queue.push Candidate.before
            ⟨child.weight + ahead, g.queued + 1, trail.extend child⟩ }

/-- Queues the states behind a trail. -/
def expand (p : Plan W) (trail : Trail W) (g : Progress W) : Progress W :=
  (p.context.network.edgesFrom trail.last.vertex p.context.arriveBy).foldl (p.tryEdge trail) g

/-- Explores at most so many states, until enough paths are found or none is left. -/
def explore (p : Plan W) : Nat → Progress W → Progress W
  | 0, g => g
  | budget + 1, g =>
    match g.queue.pop? Candidate.before with
    | none => g
    | some (candidate, queue) =>
      let g := { g with queue := queue, explored := g.explored + 1 }
      if p.isGoal candidate.trail.last then
        let g := { g with paths := candidate.trail :: g.paths }
        if p.limits.maxResults ≤ g.paths.length then g else explore p budget g
      else explore p budget (p.expand candidate.trail g)

/-- Only the origin is queued. -/
def begin (p : Plan W) (origin : State W) : Progress W where
  queue := .node ⟨p.heuristic origin, 0, Trail.start origin⟩ .empty .empty
  frontier := (Frontier.empty.admit? origin).getD Frontier.empty
  queued := 0
  explored := 0
  paths := []
  overflowed := false

end Plan

/-- The paths found, first found first. -/
def Progress.result (g : Progress W) : SearchResult W := ⟨g.explored, g.paths.reverse⟩

/-- What a search gives when it ends. -/
def Progress.answer (g : Progress W) : Except SearchError (SearchResult W) :=
  if g.overflowed then .error .overflow else .ok g.result

/-- The journeys that answer a query, with the bounds to its target. -/
def Query.answer (q : Query) (c : Context) (limits : SearchLimits) :
    Except Overflow (Array W) → Except SearchError (SearchResult W)
  | .error _ => .error .overflow
  | .ok bounds =>
    let plan : Plan W := ⟨c, q.target, limits, bounds⟩
    let origin := State.origin q.origin q.time q.request
    (plan.explore limits.maxStates (plan.begin origin)).answer

/-- The journeys that answer a query, cheapest first; those of a backward search start at the
goal. -/
def search (k : Integers) (n : Network) (q : Query) (limits : SearchLimits) :
    Except SearchError (SearchResult W) :=
  match q.unknownVertex? n with
  | some v => .error (.unknownVertex v)
  | none =>
    match Context.make k n q.request q.time with
    | .error e => .error (.calendar e)
    | .ok context => q.answer context limits (lowerBounds context q.target)

end JourneyPlanner
