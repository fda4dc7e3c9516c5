import JourneyPlanner.Json.Record
import JourneyPlanner.Live.Polling

/-!
# Updaters

An updater is described by a record: what it updates, how often, and where its source is. A
description is built in a fixed order of checks: the type, the header, the source and its
addresses, and last whether the header can be sent.
-/

namespace JourneyPlanner

open JourneyPlanner.Json

/-- Why updaters cannot be set up. -/
inductive UpdaterError where
  | unreadable
  | malformed
  | unknownType (name : String)
  | unknownSource (name : String)
  | missingField (name : String)
  | invalidHeader (text : String)
  deriving DecidableEq, Repr

/-- The message for an error. -/
def UpdaterError.message : UpdaterError → String
  | .unreadable => "failed to read updater config"
  | .malformed => "invalid updater config JSON"
  | .unknownType name => "unknown updater type: " ++ name
  | .unknownSource name => "unknown environmental source type: " ++ name
  | .missingField name => "missing mandatory '" ++ name ++ "' configuration"
  | .invalidHeader text => "invalid header: " ++ text

/-- A header sent with every request. -/
structure Header where
  name : String
  value : String
  deriving DecidableEq, Repr

namespace Header

/-- The characters of a header's name. -/
def isToken (c : Char) : Bool := c.isAlphanum || "!#$%&'*+-.^_`|~".toList.contains c

/-- The longest name of a header. -/
def maxNameLength : Nat := 65535

/-- Whether a character may stand in a header's value. -/
def isPrintable (c : Char) : Bool := c == '\t' || (decide (32 ≤ c.toNat) && c.toNat != 127)

/-- The text that keeps a header from being sent: its name comes before its value. -/
def fault? (h : Header) : Option String :=
  if h.name.isEmpty || decide (maxNameLength < h.name.length) || !h.name.toList.all isToken then
    some h.name
  else if !h.value.toList.all isPrintable then some h.value
  else none

/-- Accepts a header that can be sent, and the lack of one. -/
def check : Option Header → Except UpdaterError Unit
  | none => .ok ()
  | some h =>
    match h.fault? with
    | some text => .error (.invalidHeader text)
    | none => .ok ()

end Header

/-- The description of an updater. -/
structure UpdaterDescription where
  type : String
  frequency : Int
  source : Option String
  url : Option String
  headerName : Option String
  headerValue : Option String
  positions : Option String
  levels : Option String
  deriving DecidableEq, Repr

/-- An updater ready to poll. -/
inductive Updater where
  | air (poller : Poller AirStation)
  | noise (poller : Poller NoiseStation)

namespace Updater

/-- The name of an updater. -/
def name : Updater → String
  | air p => p.name
  | noise p => p.name

/-- The seconds between two polls. -/
def frequency : Updater → Int
  | air p => p.frequency
  | noise p => p.frequency

/-- The updater and the writer after so many ticks at most. -/
def run (u : Updater) (found : Surroundings) (ticks : Nat) (w : Writer Network) :
    Updater × Writer Network :=
  match u with
  | air p => (p.run found ticks w).map .air id
  | noise p => (p.run found ticks w).map .noise id

end Updater

namespace UpdaterDescription

/-- The only type of updater. -/
def environmental : String := "environmental-updater"

/-- The type, and the address that tells updaters of one type apart. -/
def name (d : UpdaterDescription) : String :=
  match d.url.or d.levels with
  | some address => d.type ++ ":" ++ address
  | none => d.type

/-- The header of a description; a value without a name is none. -/
def header (d : UpdaterDescription) : Except UpdaterError (Option Header) :=
  match d.headerName, d.headerValue with
  | some name, some value => .ok (some ⟨name, value⟩)
  | some _, none => .error (.missingField "headerValue")
  | none, _ => .ok none

/-- A field that the source needs. -/
def needed (name : String) : Option String → Except UpdaterError String
  | some text => .ok text
  | none => .error (.missingField name)

/-- The updater that a description gives. -/
def build (d : UpdaterDescription) : Except UpdaterError Updater := do
  if d.type ≠ environmental then throw (.unknownType d.type)
  let header ← d.header
  match d.source.getD "" with
  | "openaq" =>
    let url ← needed "url" d.url
    Header.check header
    return .air { name := d.name, source := airSource url none, frequency := d.frequency }
  | "medio-ambiente-madrid" =>
    let positions ← needed "urlStationsPosition" d.positions
    let levels ← needed "urlStationsData" d.levels
    Header.check header
    return .noise
      { name := d.name, source := noiseSource positions levels none, frequency := d.frequency }
  | other => throw (.unknownSource other)

end UpdaterDescription

/-- The description of an updater, of which only the type must be given. -/
def asUpdater : Reader UpdaterDescription := fun v => do
  let r ← Record.read? ["type", "frequencySec", "sourceType", "url", "headerName", "headerValue",
    "urlStationsPosition", "urlStationsData"] v
  return {
    type := ← r.required "type" asText
    frequency := ← r.withDefault "frequencySec" (asInt Int64.minValue.toInt Int64.maxValue.toInt) 0
    source := ← r.nullable "sourceType" asText
    url := ← r.nullable "url" asText
    headerName := ← r.nullable "headerName" asText
    headerValue := ← r.nullable "headerValue" asText
    positions := ← r.nullable "urlStationsPosition" asText
    levels := ← r.nullable "urlStationsData" asText }

/-- The descriptions that a text lists. -/
def UpdaterDescription.listOfText (text : String) : Except UpdaterError (List UpdaterDescription) :=
  match (parse? (Text.utf8Octets text)).bind (asList asUpdater) with
  | some descriptions => .ok descriptions
  | none => .error .malformed

/-- The descriptions that a file lists, none when there is no file; its content must be UTF-8. -/
def UpdaterDescription.listOfFile (content : Option ByteArray) :
    Except UpdaterError (List UpdaterDescription) :=
  match content.bind String.fromUTF8? with
  | some text => listOfText text
  | none => .error .unreadable

end JourneyPlanner
