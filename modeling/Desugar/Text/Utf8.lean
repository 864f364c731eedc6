/-!
# Reading bytes as UTF-8

`decodeLossy` reads any bytes as text.  Each longest run of bytes that starts a character and does
not end it, and each byte that starts none, becomes one replacement character.
-/

namespace Desugar.Text

/-- The character that stands for bytes that are none. -/
def replacement : Char := '�'

/-- How many bytes follow the first byte of a character, and the range of the second byte. -/
def followers (first : UInt8) : Option (Nat × UInt8 × UInt8) :=
  if 0xC2 ≤ first && first ≤ 0xDF then some (1, 0x80, 0xBF)
  else if first = 0xE0 then some (2, 0xA0, 0xBF)
  else if first = 0xED then some (2, 0x80, 0x9F)
  else if 0xE1 ≤ first && first ≤ 0xEF then some (2, 0x80, 0xBF)
  else if first = 0xF0 then some (3, 0x90, 0xBF)
  else if 0xF1 ≤ first && first ≤ 0xF3 then some (3, 0x80, 0xBF)
  else if first = 0xF4 then some (3, 0x80, 0x8F)
  else none

/-- The bits that the first byte of a character with this many followers contributes. -/
def leadBits (first : UInt8) (count : Nat) : Nat :=
  match count with
  | 1 => first.toNat % 32
  | 2 => first.toNat % 16
  | _ => first.toNat % 8

/-- A character that is being read: how many bytes are missing, the range of the next one, and the
code point so far. -/
structure PartialChar where
  missing : Nat
  low : UInt8
  high : UInt8
  code : Nat

/-- Starts reading a character. -/
def startChar (byte : UInt8) : List Char × Option PartialChar :=
  if byte < 0x80 then
    ([Char.ofNat byte.toNat], none)
  else
    match followers byte with
    | some (count, low, high) => ([], some ⟨count, low, high, leadBits byte count⟩)
    | none => ([replacement], none)

/-- The characters that one more byte completes, and what is left to complete. -/
def decodeByte (pending : Option PartialChar) (byte : UInt8) : List Char × Option PartialChar :=
  match pending with
  | none => startChar byte
  | some reading =>
    if reading.low ≤ byte && byte ≤ reading.high then
      let code := reading.code * 64 + byte.toNat % 64
      if reading.missing = 1 then
        ([Char.ofNat code], none)
      else
        ([], some ⟨reading.missing - 1, 0x80, 0xBF, code⟩)
    else
      let (chars, pending) := startChar byte
      (replacement :: chars, pending)

/-- The characters of the bytes, after those that `pending` has read. -/
def decodeFrom (pending : Option PartialChar) : List UInt8 → List Char
  | [] => if pending.isSome then [replacement] else []
  | byte :: bytes =>
    let (chars, pending) := decodeByte pending byte
    chars ++ decodeFrom pending bytes

/-- Any bytes as text. -/
def decodeLossy (bytes : ByteArray) : String :=
  String.ofList (decodeFrom none bytes.toList)

end Desugar.Text
