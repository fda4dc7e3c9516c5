/-!
# Delimited records

Tables are written one record a line, with a delimiter between fields. Lines end at a line feed, a
carriage return or both, and empty lines are no records. A format may let a field stand between
quotes; inside them delimiters and line ends belong to the field, and a quote is written twice.
Quotes count only at the start of a field, and what follows the closing quote is taken as it is.
-/

namespace JourneyPlanner.Text.Delimited

/-- The delimiter of a format, and its quote when it has one. -/
structure Format where
  delimiter : Char
  quote : Option Char

/-- Where a reader stands. -/
inductive Place where
  | lineStart
  | fieldStart
  | plain
  | quoted
  /-- A quote inside quotes: the first of two, or the closing one. -/
  | afterQuote
  deriving DecidableEq, Repr

/-- What has been read: the field and the record under way, and the records before them, each
with its latest part first. -/
structure Progress where
  place : Place
  field : List Char
  record : List (List Char)
  records : List (List (List Char))

/-- Whether a character ends a line. -/
def isLineEnd (c : Char) : Bool := c == '\n' || c == '\r'

namespace Progress

/-- Nothing read. -/
def empty : Progress := ⟨.lineStart, [], [], []⟩

/-- Adds a character to the field. -/
def extend (p : Progress) (place : Place) (c : Char) : Progress :=
  { p with place := place, field := c :: p.field }

/-- Ends the field. -/
def endField (p : Progress) : Progress :=
  { p with place := .fieldStart, field := [], record := p.field.reverse :: p.record }

/-- Ends the field and the record. -/
def endRecord (p : Progress) : Progress :=
  let record := (p.field.reverse :: p.record).reverse
  ⟨.lineStart, [], [], record :: p.records⟩

/-- Reads a character outside quotes. -/
def readPlain (f : Format) (p : Progress) (c : Char) : Progress :=
  if c = f.delimiter then p.endField else if isLineEnd c then p.endRecord else p.extend .plain c

/-- Reads the first character of a field. -/
def readFirst (f : Format) (p : Progress) (c : Char) : Progress :=
  if f.quote = some c then { p with place := .quoted } else p.readPlain f c

/-- Reads a character. -/
def read (f : Format) (p : Progress) (c : Char) : Progress :=
  match p.place with
  | .lineStart => if isLineEnd c then p else p.readFirst f c
  | .fieldStart => p.readFirst f c
  | .plain => p.readPlain f c
  | .quoted => if f.quote = some c then { p with place := .afterQuote } else p.extend .quoted c
  | .afterQuote => if f.quote = some c then p.extend .quoted c else p.readPlain f c

/-- The records, when no character is left: a record under way ends here. -/
def finish (p : Progress) : List (List (List Char)) :=
  match p.place with
  | .lineStart => p.records.reverse
  | _ => p.endRecord.records.reverse

end Progress

/-- The octets without the mark of UTF-8 at their start. -/
def withoutMark : List Char → List Char
  | '\xef' :: '\xbb' :: '\xbf' :: rest => rest
  | octets => octets

/-- The records of a table, each a list of fields. -/
def records (f : Format) (octets : List Char) : List (List (List Char)) :=
  ((withoutMark octets).foldl (Progress.read f) Progress.empty).finish

end JourneyPlanner.Text.Delimited
