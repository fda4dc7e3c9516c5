import JourneyPlanner.Monitoring.AirReport
import JourneyPlanner.Monitoring.NoiseReport
import JourneyPlanner.Time.Zone

/-!
# Sources of stations

A source reads stations from the files at its addresses. An update either reads everything and
replaces the stations, or leaves them as they were.
-/

namespace JourneyPlanner

/-- Where a file is: on the web, or under a path. -/
inductive Address where
  | remote (url : String)
  | file (path : String)
  deriving DecidableEq, Repr

/-- The address that a text gives; a path may follow `file://`. -/
def Address.ofText (text : String) : Address :=
  if text.startsWith "http://" || text.startsWith "https://" then .remote text
  else .file ((text.dropPrefix? "file://").elim text (·.toString))

/-- What an update finds: the time, the zone of Madrid, and the content of files. -/
structure Surroundings where
  now : Instant
  madrid : Zone
  content : Address → Option ByteArray

/-- The octets at the address that a text gives. -/
def Surroundings.fetch? (s : Surroundings) (text : String) : Option (List Char) :=
  (s.content (Address.ofText text)).map Text.octetsOf

/-- The way to read stations, and the stations read last. -/
structure Source (S : Type) where
  read? : Surroundings → Option (List S)
  stations : List S

namespace Source

variable {S : Type}

/-- A source that has read nothing yet. -/
def start (read? : Surroundings → Option (List S)) : Source S := ⟨read?, []⟩

/-- The source after an attempt to read, and whether it succeeded. -/
def update (s : Source S) (found : Surroundings) : Source S × Bool :=
  match s.read? found with
  | some stations => ({ s with stations := stations }, true)
  | none => (s, false)

end Source

/-- How old a measurement may be, in seconds, when no cut-off is given. -/
def maxMeasurementAge : Int := 86400

/-- The cut-off that goes with a time. -/
def Instant.measurementCutOff (now : Instant) : Instant :=
  { now with seconds := now.seconds - maxMeasurementAge }

/-- Stations of air quality from one report, with a cut-off for its measurements. -/
def airSource (url : String) (cutOff : Option Instant) : Source AirStation :=
  .start fun found => do
    let report ← found.fetch? url
    AirStation.ofReport? (cutOff.getD found.now.measurementCutOff) report

/-- The hour that clocks in a zone show. -/
def Zone.hourAt (z : Zone) (instant : Int) : Nat :=
  ((instant + z.aheadAt instant).fmod 86400 / 3600).toNat

/-- Stations of noise from a table of positions and one of levels; the hour of the clock in Madrid
decides which levels count. -/
def noiseSource (positions levels : String) (hour : Option Nat) : Source NoiseStation :=
  .start fun found => do
    let places ← found.fetch? positions
    let values ← found.fetch? levels
    let hour := hour.getD (found.madrid.hourAt found.now.seconds)
    NoiseStation.ofReport? (.ofHour hour) places values

end JourneyPlanner
