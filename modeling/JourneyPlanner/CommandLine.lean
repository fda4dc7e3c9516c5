import JourneyPlanner.Journey.Itinerary
import JourneyPlanner.Live.Manager
import JourneyPlanner.Network.Reading
import JourneyPlanner.Search.Planner

/-!
# The command line

The arguments are where from, where to and when; the files are the network and, if wanted, the
updaters. Faults are found in this order: the arguments, the network, the updaters, the places, the
search. What keeps the files from being used goes to the log and not to the error output. When a
result of integer arithmetic does not fit in its word the program breaks off.
-/

namespace JourneyPlanner.CommandLine

/-- What the arguments ask for. -/
structure Arguments where
  start : String
  goal : String
  time : Instant
  arriveBy : Bool

/-- The files named in the environment. A file that is named may be missing. -/
structure Files where
  network : Option (Option ByteArray)
  updaters : Option (Option ByteArray)

/-- Why there is no answer. -/
inductive Failure where
  | usage
  | badTime (text : String) (fault : TimeFault)
  | noNetwork
  | network (e : NetworkError)
  | updaters (e : UpdaterError)
  | unknownPlace
  | search (e : SearchError)
  | overflow

namespace Failure

/-- The failure of a search. -/
def ofSearch : SearchError → Failure
  | .overflow => overflow
  | e => search e

/-- The exit code: 2 for what the caller asked wrongly, 1 for what could not be done, 101 where the
program broke off. -/
def code : Failure → Nat
  | usage | badTime .. | noNetwork | unknownPlace => 2
  | network _ | updaters _ | search _ => 1
  | overflow => 101

/-- The line on the error output, unless the failure goes to the log. -/
def message? : Failure → Option String
  | usage => some "usage: transit-router <from> <to> <rfc3339-time> [--arrive-by]"
  | badTime text fault => some ("invalid time '" ++ text ++ "': " ++ fault.message)
  | noNetwork => some "NETWORK_PATH not set"
  | network _ => none
  | updaters _ => none
  | unknownPlace => some "unknown origin or destination"
  | search e => some ("search failed: " ++ e.message)
  | overflow => some Rejection.overflow.message

end Failure

/-- What a run leaves: the exit code and the two outputs. -/
structure Outcome where
  code : Nat
  output : String
  errors : String
  deriving DecidableEq, Repr

/-- The flag for a search backward. -/
def arriveByFlag : String := "--arrive-by"

/-- Three arguments besides the flag, which may stand anywhere. -/
def parse (args : List String) : Except Failure Arguments :=
  match args.filter (· != arriveByFlag) with
  | [start, goal, time] =>
    match Instant.parse time with
    | .ok instant => .ok ⟨start, goal, instant, args.contains arriveByFlag⟩
    | .error fault => .error (.badTime time fault)
  | _ => .error .usage

/-- The vertex of a stop, or else the one with a label. -/
def resolve? (n : Network) (name : String) : Option VertexId :=
  ((Identifier.parse .stop name).toOption.bind n.stopVertex?).or (n.vertexByLabel? name)

/-- The network of the files. -/
def network (zones : ZoneDatabase) (files : Files) : Except Failure Network :=
  match files.network with
  | none => .error .noNetwork
  | some content =>
    ((NetworkDescription.ofFile content).bind (·.build zones)).mapError .network

/-- The manager of a network with the updaters of the files. -/
def manager (files : Files) (n : Network) : Except Failure Manager :=
  match files.updaters with
  | none => .ok (.start n)
  | some content => do
    let descriptions ← (UpdaterDescription.listOfFile content).mapError .updaters
    match (Manager.startUpdaters descriptions).run.run (.start n) with
    | (.ok (), m) => return m
    | (.error e, _) => throw (.updaters e)

/-- The report on a search: a text for each path, up to one that cannot be shown. -/
def report (n : Network) (found : SearchResult Float) : List (Except Overflow String) :=
  if found.paths.isEmpty then
    [.ok ("No itinerary found (" ++ toString found.explored ++ " states explored)\n")]
  else
    found.paths.zipIdx.map fun (path, i) => path.itinerary .words n (i + 1)

/-- The journeys that the arguments ask for. -/
def answer (zones : ZoneDatabase) (args : List String) (files : Files) :
    Except Failure (List (Except Overflow String)) := do
  let asked ← parse args
  let n := (← manager files (← network zones files)).network
  match resolve? n asked.start, resolve? n asked.goal with
  | some start, some goal =>
    let query : Query := ⟨start, goal, asked.time.seconds, { arriveBy := asked.arriveBy }⟩
    let found ← (search .words n query {}).mapError .ofSearch
    return report n found
  | _, _ => throw .unknownPlace

/-- What is left when a run ends in a failure after some output. -/
def Failure.outcome (failure : Failure) (output : String) : Outcome :=
  ⟨failure.code, output, failure.message?.elim "" (· ++ "\n")⟩

/-- What is left when texts are printed one after the other. -/
def printed (output : String) : List (Except Overflow String) → Outcome
  | [] => ⟨0, output, ""⟩
  | .ok text :: rest => printed (output ++ text) rest
  | .error _ :: _ => Failure.overflow.outcome output

/-- What a run with these arguments and files leaves. -/
def run (zones : ZoneDatabase) (args : List String) (files : Files) : Outcome :=
  match answer zones args files with
  | .ok texts => printed "" texts
  | .error failure => failure.outcome ""

end JourneyPlanner.CommandLine
