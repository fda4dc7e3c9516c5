import JourneyPlanner.Text.Blank

/-!
# Identifiers

Stops, trips and routes are named by texts of the feed. An identifier carries the proof that its
text is well formed, and the first fault of a text that is not decides the message.
-/

namespace JourneyPlanner

open JourneyPlanner.Text

/-- What an identifier names. -/
inductive Identifier.Kind where
  | stop
  | trip
  | route
  deriving DecidableEq, Repr

/-- Why a text is no identifier. -/
inductive Identifier.Fault where
  | empty
  | tooLong
  | control
  | padded
  deriving DecidableEq, Repr

/-- The longest identifier, in octets of UTF-8. -/
def Identifier.maxSize : Nat := 255

/-- The first fault of a text: its size comes before its characters. -/
def Identifier.fault? (text : String) : Option Identifier.Fault :=
  if text.isEmpty then some .empty
  else if text.utf8ByteSize > maxSize then some .tooLong
  else if text.toList.any isControl then some .control
  else if trim text.toList ≠ text.toList then some .padded
  else none

/-- A well-formed name of a stop, trip or route. -/
structure Identifier (kind : Identifier.Kind) where
  text : String
  wellFormed : Identifier.fault? text = none
  deriving DecidableEq

namespace Identifier

variable {kind : Kind}

@[ext] theorem ext {a b : Identifier kind} (h : a.text = b.text) : a = b := by
  cases a
  cases b
  cases h
  rfl

/-- A text that was refused as an identifier. -/
structure Invalid where
  kind : Kind
  fault : Fault
  deriving DecidableEq, Repr

/-- The word for a kind in messages. -/
def Kind.word : Kind → String
  | .stop => "stop"
  | .trip => "trip"
  | .route => "route"

/-- What is wrong with the text. -/
def Fault.reason : Fault → String
  | .empty => "must not be empty"
  | .tooLong => "must be at most 255 bytes"
  | .control => "must not contain control characters"
  | .padded => "must not have leading or trailing whitespace"

/-- The message for a refused text. -/
def Invalid.message (e : Invalid) : String :=
  "invalid " ++ e.kind.word ++ " id: " ++ e.fault.reason

/-- The identifier with this text. -/
def parse (kind : Kind) (text : String) : Except Invalid (Identifier kind) :=
  match h : fault? text with
  | none => .ok ⟨text, h⟩
  | some fault => .error ⟨kind, fault⟩

theorem parse_text (i : Identifier kind) : parse kind i.text = .ok i := by
  unfold parse
  split
  · rfl
  · rename_i h
    simp [i.wellFormed] at h

/-- The name of the kind's own type, as inspection shows it. -/
def Kind.typeName : Kind → String
  | .stop => "StopId"
  | .trip => "TripId"
  | .route => "RouteId"

/-- The form that inspection shows. -/
def inspect (i : Identifier kind) : String := kind.typeName ++ "(" ++ i.text ++ ")"

end Identifier

/-- The name of a stop or station. -/
abbrev StopId := Identifier .stop

/-- The name of a trip; all runs of a frequency pattern share one. -/
abbrev TripId := Identifier .trip

/-- The name of a route. -/
abbrev RouteId := Identifier .route

/-- A trip and the route it belongs to. -/
structure Trip where
  id : TripId
  route : RouteId
  deriving DecidableEq

/-- The number of a service, which runs on some dates and not on others. -/
abbrev ServiceId := Nat

/-- The text of a service number in messages. -/
def ServiceId.render (service : ServiceId) : String := "service#" ++ toString service

end JourneyPlanner
