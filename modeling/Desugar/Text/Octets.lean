import Desugar.Text.Utf8

/-!
# Octets

Programs that work on bytes and not on characters see a text as octets: a string in which every
character stands for one byte and is below 256.  ASCII text is the same in both forms.
-/

namespace Desugar.Octets

/-- The octets of some bytes. -/
def ofBytes (bytes : ByteArray) : String :=
  String.ofList (bytes.toList.map fun byte => Char.ofNat byte.toNat)

/-- The bytes that octets stand for. -/
def toBytes (octets : String) : ByteArray :=
  ⟨(octets.toList.map fun c => c.toNat.toUInt8).toArray⟩

/-- The octets of the UTF-8 encoding of a text. -/
def encode (text : String) : String :=
  ofBytes text.toUTF8

/-- The text that octets encode.  What is not UTF-8 is replaced. -/
def decode (octets : String) : String :=
  Text.decodeLossy (toBytes octets)

end Desugar.Octets
