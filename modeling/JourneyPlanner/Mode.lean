/-!
# Modes of travel

Ways of moving along an edge, and sets of them. A set is its membership test; it is listed in the
order of the modes.
-/

namespace JourneyPlanner

/-- A way of moving; `legSwitch` marks getting on and off a vehicle. -/
inductive Mode where
  | walk
  | bicycle
  | car
  | tram
  | subway
  | rail
  | bus
  | ferry
  | cableCar
  | gondola
  | funicular
  | legSwitch
  deriving DecidableEq, Repr

namespace Mode

/-- Every mode, in order. -/
def all : List Mode :=
  [walk, bicycle, car, tram, subway, rail, bus, ferry, cableCar, gondola, funicular, legSwitch]

theorem mem_all (m : Mode) : m ∈ all := by cases m <;> decide

/-- Whether a transit vehicle serves the mode. -/
def isTransit : Mode → Bool
  | tram | subway | rail | bus | ferry | cableCar | gondola | funicular => true
  | walk | bicycle | car | legSwitch => false

/-- The mode of a route type of the feed. -/
def ofRouteType? : Nat → Option Mode
  | 0 => some tram
  | 1 => some subway
  | 2 => some rail
  | 3 => some bus
  | 4 => some ferry
  | 5 => some cableCar
  | 6 => some gondola
  | 7 => some funicular
  | _ => none

/-- The name of a mode in messages. -/
def name : Mode → String
  | walk => "Walk"
  | bicycle => "Bicycle"
  | car => "Car"
  | tram => "Tram"
  | subway => "Subway"
  | rail => "Rail"
  | bus => "Bus"
  | ferry => "Ferry"
  | cableCar => "CableCar"
  | gondola => "Gondola"
  | funicular => "Funicular"
  | legSwitch => "LegSwitch"

/-- The word for a mode in descriptions. -/
def word : Mode → String
  | walk => "WALK"
  | bicycle => "BICYCLE"
  | car => "CAR"
  | tram => "TRAM"
  | subway => "SUBWAY"
  | rail => "RAIL"
  | bus => "BUS"
  | ferry => "FERRY"
  | cableCar => "CABLE_CAR"
  | gondola => "GONDOLA"
  | funicular => "FUNICULAR"
  | legSwitch => "LEG_SWITCH"

/-- Every mode under its word. -/
def words : List (String × Mode) := all.map fun m => (m.word, m)

end Mode

/-- A set of modes. -/
structure ModeSet where
  contains : Mode → Bool

namespace ModeSet

@[ext] theorem ext {s t : ModeSet} (h : ∀ m, s.contains m = t.contains m) : s = t := by
  cases s
  cases t
  congr
  exact funext h

/-- No mode. -/
def empty : ModeSet := ⟨fun _ => false⟩

/-- The set with one mode more. -/
def insert (s : ModeSet) (m : Mode) : ModeSet := ⟨fun x => x == m || s.contains x⟩

/-- The set without one mode. -/
def erase (s : ModeSet) (m : Mode) : ModeSet := ⟨fun x => x != m && s.contains x⟩

/-- The modes of a list. -/
def ofList (ms : List Mode) : ModeSet := ⟨fun m => ms.contains m⟩

/-- The modes of the set, in order. -/
def toList (s : ModeSet) : List Mode := Mode.all.filter s.contains

/-- Walking and every transit mode. -/
def walkAndTransit : ModeSet := ⟨fun m => m == .walk || m.isTransit⟩

/-- Whether there is no mode. -/
def isEmpty (s : ModeSet) : Bool := s.toList.isEmpty

/-- Whether there is a transit mode. -/
def hasTransit (s : ModeSet) : Bool := s.toList.any Mode.isTransit

/-- The names between braces. -/
def render (s : ModeSet) : String :=
  "\x7b" ++ ", ".intercalate (s.toList.map Mode.name) ++ "\x7d"

@[simp] theorem mem_toList {s : ModeSet} {m : Mode} : m ∈ s.toList ↔ s.contains m = true := by
  simp [toList, Mode.mem_all]

@[simp] theorem contains_insert (s : ModeSet) (m x : Mode) :
    (s.insert m).contains x = (x == m || s.contains x) := rfl

@[simp] theorem contains_erase (s : ModeSet) (m x : Mode) :
    (s.erase m).contains x = (x != m && s.contains x) := rfl

theorem ofList_toList (s : ModeSet) : ofList s.toList = s := by
  ext m
  cases h : s.contains m <;> simp [ofList, h]

end ModeSet

end JourneyPlanner
