import JourneyPlanner.Decimal.Shortest
import JourneyPlanner.Network.Basic
import JourneyPlanner.Text.Quoted
import JourneyPlanner.Time.Reading

/-!
# Building networks

A draft grows by vertices, streets, transfers and patterns. An operation that fails gives the
reason and leaves the draft as far as it came. A finished draft is a network with its adjacency
lists, in which each list holds its edges in the order added.
-/

namespace JourneyPlanner

/-- What is wrong with a description, apart from references. -/
inductive DescriptionFault where
  | duplicateLabel (label : String)
  | negativeLength (length : Float)
  | badDate (text : String) (fault : TimeFault)
  | unknownZone (name : String)
  | noMode (trip : TripId)
  | unknownAccess (code : Nat)
  | unknownTransfer (code : Nat)

/-- Why a network cannot be read or built. -/
inductive NetworkError where
  | duplicateStop (stop : StopId)
  | unknownStop (stop : StopId)
  | unknownVertex (label : String)
  | invalid (fault : DescriptionFault)
  | time (fault : ServiceTime.Fault)
  | pattern (e : PatternError)
  | calendar (e : CalendarError)
  | unreadable
  | malformed

/-- What a fault says. -/
def DescriptionFault.reason : DescriptionFault → String
  | .duplicateLabel label => "duplicate vertex label " ++ label
  | .negativeLength length => "negative street length " ++ Decimal.shortestText length
  | .badDate text fault => "bad date " ++ Text.quoted text ++ ": " ++ fault.message
  | .unknownZone name => "unknown time zone " ++ name
  | .noMode trip => "no mode for trip " ++ trip.text
  | .unknownAccess code => "unknown pickup/drop-off type " ++ toString code
  | .unknownTransfer code => "unknown transfer type " ++ toString code

/-- The message for an error. -/
def NetworkError.message : NetworkError → String
  | .duplicateStop stop => "duplicate stop " ++ stop.text
  | .unknownStop stop => "unknown stop " ++ stop.text
  | .unknownVertex label => "unknown vertex " ++ label
  | .invalid fault => "invalid network description: " ++ fault.reason
  | .time fault => fault.message
  | .pattern e => e.message
  | .calendar e => e.message
  | .unreadable => "failed to read network"
  | .malformed => "failed to parse network"

/-- A network in the making. -/
structure Draft where
  vertices : Array Vertex
  edges : Array Edge
  labels : Std.TreeMap String VertexId
  stops : Std.TreeMap String VertexId
  patterns : Array FrequencyPattern
  calendar : ServiceCalendar
  transfers : TransferTable

namespace Draft

/-- A step on a draft, which keeps what was done before it failed. -/
abbrev Step := ExceptT NetworkError (StateM Draft)

/-- Nothing but a calendar. -/
def empty (calendar : ServiceCalendar) : Draft :=
  ⟨#[], #[], ∅, ∅, #[], calendar, .empty⟩

/-- The draft with one vertex more. -/
def withVertex (d : Draft) (label : String) (kind : VertexKind) (point : Point) : Draft :=
  { d with
    vertices := d.vertices.push ⟨d.vertices.size, label, kind, point⟩
    labels := d.labels.insert label d.vertices.size }

/-- The draft with one edge more. -/
def withEdge (d : Draft) (tail head : VertexId) (link : Link) : Draft :=
  { d with edges := d.edges.push ⟨d.edges.size, tail, head, link⟩ }

/-- Adds a vertex whose label is new. -/
def addVertex (label : String) (kind : VertexKind) (point : Point) : Step VertexId := do
  let d ← get
  if d.labels.contains label then throw (.invalid (.duplicateLabel label))
  set (d.withVertex label kind point)
  return d.vertices.size

/-- Adds an edge. -/
def addEdge (tail head : VertexId) (link : Link) : Step EdgeId := do
  let d ← get
  set (d.withEdge tail head link)
  return d.edges.size

/-- The vertex with a label. -/
def vertexByLabel? (d : Draft) (label : String) : Option VertexId := d.labels[label]?

/-- The vertex with a label that must be known. -/
def vertexNamed (label : String) : Step VertexId := do
  match (← get).vertexByLabel? label with
  | some v => return v
  | none => throw (.unknownVertex label)

/-- The place of a vertex that must be known. -/
def pointOf (v : VertexId) : Step Point := do
  match (← get).vertices[v]? with
  | some vertex => return vertex.point
  | none => throw (.unknownVertex v.render)

/-- The vertex of a stop that must be known. -/
def vertexOfStop (stop : StopId) : Step VertexId := do
  match (← get).stops[stop.text]? with
  | some v => return v
  | none => throw (.unknownStop stop)

/-- Adds a street vertex. -/
def addStreetVertex (label : String) (point : Point) : Step VertexId :=
  addVertex label .street point

/-- Adds a stop, whose name is its label. -/
def addStop (stop : StopId) (point : Point) : Step VertexId := do
  if (← get).stops.contains stop.text then throw (.duplicateStop stop)
  let v ← addVertex stop.text (.stop stop) point
  modify fun d => { d with stops := d.stops.insert stop.text v }
  return v

/-- Puts a stop into a station. -/
def setParent (stop parent : StopId) : Step Unit :=
  modify fun d => { d with transfers := d.transfers.setParent stop parent }

/-- Adds a transfer rule. -/
def addTransfer (fromStop toStop : StopId) (rule : TransferRule) : Step Unit :=
  modify fun d => { d with transfers := d.transfers.add fromStop toStop rule }

/-- The length of a street: the one given, or the distance of its ends. -/
def streetLength (tail head : VertexId) (given : Option Float) : Step Float := do
  match given with
  | some length =>
    if length ≥ 0.0 then return length else throw (.invalid (.negativeLength length))
  | none => return (← pointOf tail).distance (← pointOf head)

/-- Adds a street, and its way back when it goes both ways. -/
def addStreet (tail head : VertexId) (name : String) (length : Option Float) (permission : ModeSet)
    (bothWays : Bool) : Step (List EdgeId) := do
  let street : Street := ⟨name, ← streetLength tail head length, permission⟩
  let there ← addEdge tail head (.street street)
  if bothWays then
    let back ← addEdge head tail (.street street)
    return [there, back]
  else return [there]

/-- Adds a timed transfer between two stops. -/
def addTimedTransfer (fromStop toStop : StopId) : Step EdgeId := do
  let tail ← vertexOfStop fromStop
  let head ← vertexOfStop toStop
  addEdge tail head .timedTransfer

/-- The label of an on-board vertex. -/
def onBoardLabel (trip : TripId) (index : Nat) (side : String) : String :=
  trip.text ++ ":" ++ toString index ++ ":" ++ side

/-- Adds the two on-board vertices of one stop of a pattern. -/
def addOnBoard (trip : TripId) (pattern index : Nat) (stop : VertexId) :
    Step (VertexId × VertexId) := do
  let point ← pointOf stop
  let arrive ← addVertex (onBoardLabel trip index "arrive") (.arrive pattern index) point
  let depart ← addVertex (onBoardLabel trip index "depart") (.depart pattern index) point
  return (arrive, depart)

/-- The vertices of one stop of a pattern. -/
structure Platform where
  stop : VertexId
  arrive : VertexId
  depart : VertexId

/-- Adds the on-board vertices of the stops from position `index` on. -/
def addPlatforms (trip : TripId) (pattern : Nat) : Nat → List VertexId → Step (List Platform)
  | _, [] => return []
  | index, stop :: rest => do
    let (arrive, depart) ← addOnBoard trip pattern index stop
    let others ← addPlatforms trip pattern (index + 1) rest
    return ⟨stop, arrive, depart⟩ :: others

/-- The edges of a pattern at its stops from position `index` on: a stop but the last can be
boarded and is left by a hop, one but the first is alighted at, and one between them dwelt at. -/
def patternLinks (p : FrequencyPattern) :
    Nat → List Platform → List (VertexId × VertexId × Link)
  | _, [] => []
  | index, here :: rest =>
    let ahead := match rest with
      | [] => []
      | next :: _ =>
        [(here.stop, here.depart, .board p index),
          (here.depart, next.arrive, .hop p index (index + 1))]
    let behind := if index = 0 then [] else [(here.arrive, here.stop, .alight p index)]
    let between :=
      if index = 0 ∨ rest.isEmpty then [] else [(here.arrive, here.depart, .dwell p index)]
    ahead ++ behind ++ between ++ patternLinks p (index + 1) rest

/-- Adds edges in order. -/
def addEdges : List (VertexId × VertexId × Link) → Step Unit
  | [] => return
  | (tail, head, link) :: rest => do
    let _ ← addEdge tail head link
    addEdges rest

/-- Adds a pattern whose stops are all known, with its on-board vertices and edges. -/
def addPattern (p : FrequencyPattern) : Step Nat := do
  let stops ← p.stops.mapM fun s => vertexOfStop s.stop
  let index := (← get).patterns.size
  let platforms ← addPlatforms p.trip.id index 0 stops
  addEdges (patternLinks p 0 platforms)
  modify fun d => { d with patterns := d.patterns.push p }
  return index

/-- The edges of each vertex, by one of their ends. -/
def adjacency (d : Draft) (endpoint : Edge → VertexId) : Array (List EdgeId) :=
  d.edges.foldr (fun e lists => lists.modify (endpoint e) (e.id :: ·))
    (Array.replicate d.vertices.size [])

/-- The finished network. -/
def toNetwork (d : Draft) : Network where
  vertices := d.vertices
  edges := d.edges
  outgoing := d.adjacency (·.tail)
  incoming := d.adjacency (·.head)
  labels := d.labels
  stops := d.stops
  patterns := d.patterns
  calendar := d.calendar
  transfers := d.transfers
  conditions := ∅

end Draft

end JourneyPlanner
