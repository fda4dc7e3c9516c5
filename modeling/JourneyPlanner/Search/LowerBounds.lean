import JourneyPlanner.Journey.Bounds
import JourneyPlanner.Search.Queue

/-!
# Lower bounds to a target

The least sum of edge bounds on the way from each vertex to a target, found by walking back from
the target over the cheapest open vertex first. A vertex from which there is no way has infinity.
There is no table when an edge that is looked at has no bound.
-/

namespace JourneyPlanner

variable {W : Type} [Weight W]

/-- Whether one entry of a table's queue comes before another: by cost, then by vertex. -/
def cheaper (a b : W × VertexId) : Bool :=
  match Weight.rank a.1 b.1 with
  | .lt => true
  | .gt => false
  | .eq => decide (a.2 ≤ b.2)

/-- The bounds found so far, the vertices to look at again, and whether an edge had no bound. -/
structure BoundTable (W : Type) where
  bounds : Array W
  queue : Queue (W × VertexId)
  overflowed : Bool

namespace BoundTable

/-- Only the target has a bound. -/
def start (size : Nat) (target : VertexId) : BoundTable W :=
  { bounds := (Array.replicate size Weight.infinity).setIfInBounds target Weight.zero
    queue := if target < size then .node (Weight.zero, target) .empty .empty else .empty
    overflowed := false }

/-- The bound of a vertex. -/
def get (t : BoundTable W) (v : VertexId) : W := t.bounds[v]?.getD Weight.infinity

/-- The table with a better bound for a vertex. -/
def lower (t : BoundTable W) (v : VertexId) (bound : W) : BoundTable W :=
  { t with
    bounds := t.bounds.setIfInBounds v bound
    queue := t.queue.push cheaper (bound, v) }

/-- Lowers the bound of the vertex before an edge, given the bound of the vertex after it. -/
def relax (c : Context) (cost : W) (t : BoundTable W) (e : Edge) : BoundTable W :=
  match e.staySeconds c.integers, t.bounds[e.source c.arriveBy]? with
  | .error _, _ => { t with overflowed := true }
  | .ok _, none => t
  | .ok _, some current =>
    let bound : W := e.weightBound c
    if Weight.isFinite bound && Weight.less (cost + bound) current then
      t.lower (e.source c.arriveBy) (cost + bound)
    else t

/-- Takes the cheapest vertex off the queue, unless its bound has been lowered since, and relaxes
the edges that lead to it. -/
def settle (c : Context) (t : BoundTable W) (cost : W) (v : VertexId) : BoundTable W :=
  if Weight.less (t.get v) cost then t
  else (c.network.edgesFrom v (!c.arriveBy)).foldl (relax c cost) t

/-- Settles vertices until none is left. -/
def run (c : Context) : Nat → BoundTable W → BoundTable W
  | 0, t => t
  | steps + 1, t =>
    match t.queue.pop? cheaper with
    | none => t
    | some ((cost, v), queue) => run c steps (settle c { t with queue := queue } cost v)

/-- The bounds, when every edge that was looked at had one. -/
def result (t : BoundTable W) : Except Overflow (Array W) :=
  if t.overflowed then .error .overflow else .ok t.bounds

end BoundTable

/-- A count of steps that is never used up: every entry of the queue but the first lowers the
bound of a vertex, which takes at most one of the values of a 64-bit word. -/
def stepLimit (n : Network) : Nat := n.vertices.size * UInt64.size + n.edges.size + 1

/-- The table with every vertex settled from which there is a way to the target. -/
def boundTable (c : Context) (target : VertexId) : BoundTable W :=
  BoundTable.run c (stepLimit c.network) (BoundTable.start c.network.vertices.size target)

/-- The least sum of edge bounds from every vertex to the target. -/
def lowerBounds (c : Context) (target : VertexId) : Except Overflow (Array W) :=
  (boundTable c target).result

end JourneyPlanner
