/-!
# Octets and UTF-8

Files are sequences of octets. An octet is shown as the character of the same number, so that
readers of octets can be written with character patterns.
-/

namespace JourneyPlanner.Text

/-- The octets of a file, each as the character of the same number. -/
def octetsOf (content : ByteArray) : List Char :=
  content.toList.map fun b => Char.ofNat b.toNat

/-- The octets of the UTF-8 form of a text. -/
def utf8Octets (s : String) : List Char := octetsOf s.toUTF8

/-- The text whose UTF-8 form the octets are, when there is one. -/
def ofUtf8? (octets : List Char) : Option String :=
  String.fromUTF8? ⟨(octets.map fun c => c.toNat.toUInt8).toArray⟩

end JourneyPlanner.Text
