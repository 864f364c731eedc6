/-!
# Places in a text

A `Span` is a range of byte offsets into the UTF-8 encoding of a text.  A `Location` is what a
person reads: a line and a column, both counted from one, the column in characters.

`Location.ofOffset` turns an offset into a location.  Offsets past the end count as the end, and so
do offsets that fall inside the encoding of a character.
-/

namespace Desugar

/-- A range of byte offsets: from `start` up to, and without, `stop`. -/
structure Span where
  start : Nat
  stop : Nat
  deriving DecidableEq, Repr

/-- A line and a column of a text, both counted from one. -/
structure Location where
  line : Nat
  column : Nat
  deriving DecidableEq, Repr

namespace Text

/-- The characters whose encodings fill exactly the first `offset` bytes, if there are such: `none`
when the offset falls inside a character or past the end. -/
def charsBefore? : List Char → Nat → Option (List Char)
  | _, 0 => some []
  | [], _ + 1 => none
  | c :: cs, offset + 1 =>
    if c.utf8Size ≤ offset + 1 then
      (charsBefore? cs (offset + 1 - c.utf8Size)).map (c :: ·)
    else
      none

/-- The characters before a byte offset, and the whole text where the offset is no character
boundary of it. -/
def charsBefore (source : String) (offset : Nat) : List Char :=
  (charsBefore? source.toList (min offset source.utf8ByteSize)).getD source.toList

end Text

namespace Location

/-- The location just after a run of characters that starts a text. -/
def after (cs : List Char) : Location where
  line := cs.count '\n' + 1
  column := (cs.reverse.takeWhile (· ≠ '\n')).length + 1

/-- The location of a byte offset in a text. -/
def ofOffset (source : String) (offset : Nat) : Location :=
  after (Text.charsBefore source offset)

/-- The location as it is shown, `line:column`. -/
def text (location : Location) : String :=
  Nat.repr location.line ++ ":" ++ Nat.repr location.column

end Location

end Desugar
