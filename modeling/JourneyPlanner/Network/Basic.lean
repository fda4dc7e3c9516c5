import Std.Data.TreeMap
import JourneyPlanner.Exposure.Basic
import JourneyPlanner.Geometry
import JourneyPlanner.Schedule.Pattern
import JourneyPlanner.Schedule.ServiceCalendar
import JourneyPlanner.Transfer

/-!
# Networks

A network joins streets and transit in one graph. Travellers stand at street vertices and stops;
on board they pass an arrival and a departure vertex for every stop of a pattern. Edges are walked
from tail to head when a search goes forward in time, and from head to tail when it goes backward.
-/

namespace JourneyPlanner

/-- The position of a vertex in its network. -/
abbrev VertexId := Nat

/-- The position of an edge in its network. -/
abbrev EdgeId := Nat

/-- The text of a vertex number in messages. -/
def VertexId.render (v : VertexId) : String := "v" ++ toString v

/-- The text of an edge number in messages. -/
def EdgeId.render (e : EdgeId) : String := "e" ++ toString e

/-- What a vertex stands for; patterns and their stops are given by position. -/
inductive VertexKind where
  | street
  | stop (id : StopId)
  | arrive (pattern stop : Nat)
  | depart (pattern stop : Nat)
  deriving DecidableEq

/-- A vertex with its unique label and its place. -/
structure Vertex where
  id : VertexId
  label : String
  kind : VertexKind
  point : Point

/-- A street with its length in metres and the modes that may use it. -/
structure Street where
  name : String
  length : Float
  permission : ModeSet

/-- What an edge does; on-board edges know their pattern and positions in it. -/
inductive Link where
  | board (pattern : FrequencyPattern) (stop : Nat)
  | alight (pattern : FrequencyPattern) (stop : Nat)
  | hop (pattern : FrequencyPattern) (first second : Nat)
  | dwell (pattern : FrequencyPattern) (stop : Nat)
  | timedTransfer
  | street (street : Street)

/-- The sort of an edge. -/
inductive EdgeKind where
  | board
  | alight
  | hop
  | dwell
  | timedTransfer
  | street
  deriving DecidableEq, Repr

/-- The sort of a link. -/
def Link.kind : Link → EdgeKind
  | .board .. => .board
  | .alight .. => .alight
  | .hop .. => .hop
  | .dwell .. => .dwell
  | .timedTransfer => .timedTransfer
  | .street _ => .street

/-- A link between two vertices. -/
structure Edge where
  id : EdgeId
  tail : VertexId
  head : VertexId
  link : Link

/-- An edge by number and sort. -/
structure EdgeRef where
  id : EdgeId
  kind : EdgeKind
  deriving DecidableEq, Repr

namespace Edge

/-- The sort of an edge. -/
def kind (e : Edge) : EdgeKind := e.link.kind

/-- The number and the sort of an edge. -/
def reference (e : Edge) : EdgeRef := ⟨e.id, e.kind⟩

/-- The vertex at which a search enters the edge. -/
def source (e : Edge) (arriveBy : Bool) : VertexId := if arriveBy then e.head else e.tail

/-- The vertex at which a search leaves the edge. -/
def target (e : Edge) (arriveBy : Bool) : VertexId := if arriveBy then e.tail else e.head

end Edge

/-- Streets and transit in one graph, with what is known about times and exposure. -/
structure Network where
  vertices : Array Vertex
  edges : Array Edge
  outgoing : Array (List EdgeId)
  incoming : Array (List EdgeId)
  labels : Std.TreeMap String VertexId
  stops : Std.TreeMap String VertexId
  patterns : Array FrequencyPattern
  calendar : ServiceCalendar
  transfers : TransferTable
  conditions : Std.TreeMap EdgeId (List Exposure)

namespace Network

variable (n : Network)

/-- The vertex with a label. -/
def vertexByLabel? (label : String) : Option VertexId := n.labels[label]?

/-- The vertex of a stop. -/
def stopVertex? (stop : StopId) : Option VertexId := n.stops[stop.text]?

/-- The edges of an adjacency list. -/
def adjacent (lists : Array (List EdgeId)) (v : VertexId) : List Edge :=
  (lists[v]?.getD []).filterMap fun e => n.edges[e]?

/-- The edges that start at a vertex. -/
def edgesOut (v : VertexId) : List Edge := n.adjacent n.outgoing v

/-- The edges that end at a vertex. -/
def edgesIn (v : VertexId) : List Edge := n.adjacent n.incoming v

/-- The edges that a search may take from a vertex. -/
def edgesFrom (v : VertexId) (arriveBy : Bool) : List Edge :=
  if arriveBy then n.edgesIn v else n.edgesOut v

/-- What is measured along an edge. -/
def exposures (e : EdgeId) : List Exposure := n.conditions[e]?.getD []

/-- The network with other exposures along an edge. -/
def setExposures (e : EdgeId) (exposures : List Exposure) : Network :=
  { n with conditions := n.conditions.insert e exposures }

/-- The network with another calendar. -/
def setCalendar (calendar : ServiceCalendar) : Network := { n with calendar := calendar }

/-- The network with other transfer rules. -/
def setTransfers (transfers : TransferTable) : Network := { n with transfers := transfers }

/-- Whether a street edge passes within a distance of a point. -/
def isStreetNear (p : Point) (radius : Float) (e : Edge) : Bool :=
  match e.link with
  | .street _ =>
    match n.vertices[e.tail]?, n.vertices[e.head]? with
    | some a, some b =>
      decide ((p.nearestOnSegment a.point b.point).distance p ≤ radius)
    | _, _ => false
  | _ => false

/-- The street edges within a distance of a point, in order. -/
def streetsNear (p : Point) (radius : Float) : List EdgeId :=
  (n.edges.toList.filter (n.isStreetNear p radius)).map (·.id)

end Network

end JourneyPlanner
