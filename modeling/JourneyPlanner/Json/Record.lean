import JourneyPlanner.Json.Parser

/-!
# Reading values of a known shape

A reader takes a value as one thing and refuses all else; nothing is converted. A record is an
object, or an array of its fields in their order. Fields that it does not know are skipped, and a
field that it knows may not come twice.
-/

namespace JourneyPlanner.Json

/-- Takes a value as an `α`, or refuses it. -/
abbrev Reader (α : Type) := Value → Option α

/-- A string whose text can be decoded. -/
def asText : Reader String
  | .string pieces => text? pieces
  | _ => none

/-- A boolean. -/
def asBool : Reader Bool
  | .bool b => some b
  | _ => none

/-- A number of any form that a double can hold. -/
def asFloat : Reader Float
  | .number n => float? n
  | _ => none

/-- An integer between two bounds. -/
def asInt (low high : Int) : Reader Int
  | .number n => match int? n with
    | some i => if low ≤ i ∧ i ≤ high then some i else none
    | none => none
  | _ => none

/-- A natural number below a bound. -/
def asNat (bound : Nat) : Reader Nat := fun v =>
  (asInt 0 ((bound : Int) - 1) v).map Int.toNat

/-- An array of things of one kind. -/
def asList {α : Type} (item : Reader α) : Reader (List α)
  | .array vs => vs.mapM item
  | _ => none

/-- An array of exactly `n` things of one kind. -/
def asVector {α : Type} (n : Nat) (item : Reader α) : Reader (List α) := fun v =>
  match asList item v with
  | some as => if as.length = n then some as else none
  | none => none

/-- Null, or a value. -/
def asOption {α : Type} (item : Reader α) : Reader (Option α)
  | .null => some none
  | v => (item v).map some

/-- One of several words, given as a string or as the only key of an object with a null. -/
def asWord {α : Type} (words : List (String × α)) : Reader α
  | .string pieces => (text? pieces).bind fun word => words.lookup word
  | .object [(key, .null)] => (text? key).bind fun word => words.lookup word
  | _ => none

/-- The known fields that were given, and whether they were given by position. -/
structure Record where
  byPosition : Bool
  fields : List (String × Value)

/-- The known fields of an object with decodable keys; each at most once. -/
def namedFields? (names : List String) :
    List (List Piece × Value) → Option (List (String × Value))
  | [] => some []
  | (key, v) :: rest =>
    match text? key, namedFields? names rest with
    | some name, some found =>
      if name ∈ names then
        if (found.lookup name).isSome then none else some ((name, v) :: found)
      else some found
    | _, _ => none

/-- A record with fields of these names, in this order. -/
def Record.read? (names : List String) : Value → Option Record
  | .object fs => (namedFields? names fs).map fun fields => ⟨false, fields⟩
  | .array vs => if vs.length ≤ names.length then some ⟨true, names.zip vs⟩ else none
  | _ => none

/-- A field that must be given. -/
def Record.required {α : Type} (r : Record) (name : String) (reader : Reader α) : Option α :=
  (r.fields.lookup name).bind reader

/-- A field that may be left out. -/
def Record.withDefault {α : Type} (r : Record) (name : String) (reader : Reader α)
    (default : α) : Option α :=
  match r.fields.lookup name with
  | some v => reader v
  | none => some default

/-- A field that may be null, and that an object may leave out. -/
def Record.nullable {α : Type} (r : Record) (name : String) (reader : Reader α) :
    Option (Option α) :=
  match r.fields.lookup name with
  | some v => asOption reader v
  | none => if r.byPosition then none else some none

end JourneyPlanner.Json
