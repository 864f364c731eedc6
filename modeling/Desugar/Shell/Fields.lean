import Desugar.Shell.Pattern

/-!
# Fields

How an expanded word becomes arguments.  What comes from an expansion outside quotes is split at the
separators: blanks among them only divide, while any other separator ends a field, even an empty
one.
-/

namespace Desugar.Shell

/-- A piece of an expanded word. -/
inductive Piece where
  | char (mark : Mark)
  /-- A character that may be a separator. -/
  | splittable (c : Char)
  /-- Quotes, which make a field even where nothing is in them. -/
  | hold
  /-- The end of a field that is kept only if it is not empty. -/
  | gap
  /-- The end of a field. -/
  | cut
  deriving DecidableEq, Repr

namespace Piece

/-- The pieces of a text that stays whole. -/
def ofText (text : String) (quoted : Bool) : List Piece :=
  (if quoted then [.hold] else []) ++ (marksOf text quoted).map .char

/-- The pieces of a text that may be split. -/
def ofSplittable (text : String) : List Piece :=
  text.toList.map .splittable

/-- The marks of pieces where nothing is split. -/
def wholeMarks (pieces : List Piece) : List Mark :=
  pieces.filterMap fun piece => match piece with
    | .char mark => some mark
    | .splittable c => some ⟨c, false⟩
    | .hold | .gap | .cut => none

end Piece

/-- Blanks among the separators, which only divide. -/
def isBlankSeparator (c : Char) : Bool :=
  c = ' ' || c = '\t' || c = '\n'

namespace Fields

/-- What the last separator was. -/
inductive After where
  /-- No separator, or one that more characters followed. -/
  | content
  /-- A blank, which one other separator may follow without another field. -/
  | blank
  /-- A separator that is no blank. -/
  | separator
  deriving DecidableEq, Repr

/-- The fields of pieces after the start of a field.  The start is backwards. -/
def splitFrom (separators : List Char) (start : Option (List Mark)) (after : After) :
    List Piece → List (List Mark)
  | [] => (start.map List.reverse).toList
  | piece :: pieces =>
    let extend (mark : Mark) : List (List Mark) :=
      splitFrom separators (some (mark :: start.getD [])) .content pieces
    match piece with
    | .char mark => extend mark
    | .hold => splitFrom separators (some (start.getD [])) .content pieces
    | .gap =>
      match start with
      | some marks => marks.reverse :: splitFrom separators none .blank pieces
      | none => splitFrom separators none after pieces
    | .cut => (start.getD []).reverse :: splitFrom separators none .content pieces
    | .splittable c =>
      if !separators.contains c then
        extend ⟨c, false⟩
      else if isBlankSeparator c then
        match start with
        | some marks => marks.reverse :: splitFrom separators none .blank pieces
        | none => splitFrom separators none after pieces
      else
        match start, after with
        | none, .blank => splitFrom separators none .separator pieces
        | _, _ => (start.getD []).reverse :: splitFrom separators none .separator pieces

/-- The fields of pieces. -/
def split (separators : List Char) (pieces : List Piece) : List (List Mark) :=
  splitFrom separators none .content pieces

/-- Takes blanks among the separators off the end, unless they are quoted. -/
def trimEnd (separators : List Char) (marks : List Mark) : List Mark :=
  (marks.reverse.dropWhile fun mark =>
    !mark.quoted && separators.contains mark.char && isBlankSeparator mark.char).reverse

/-- Whether a mark separates fields. -/
def separates (separators : List Char) (mark : Mark) : Bool :=
  !mark.quoted && separators.contains mark.char

/-- Takes off the end of a field: blanks, and among them at most one other separator. -/
def skipSeparator (separators : List Char) (marks : List Mark) : List Mark :=
  let isBlank (mark : Mark) : Bool := separates separators mark && isBlankSeparator mark.char
  match marks.dropWhile isBlank with
  | mark :: rest => if separates separators mark then rest.dropWhile isBlank else mark :: rest
  | [] => []

/-- The values of so many variables that a line is read into.  The last one takes all that is left,
but a separator that ends the line after its first field does not count. -/
def assignLine (separators : List Char) : (count : Nat) → List Mark → List String
  | 0, _ => []
  | 1, marks =>
    let marks := trimEnd separators marks
    let first := marks.takeWhile fun mark => !separates separators mark
    let rest := marks.drop first.length
    [fieldText (if (skipSeparator separators rest).isEmpty then first else marks)]
  | count + 2, marks =>
    let first := marks.takeWhile fun mark => !separates separators mark
    fieldText first ::
      assignLine separators (count + 1) (skipSeparator separators (marks.drop first.length))

/-- The values of variables that a line is read into. -/
def ofLine (separators : List Char) (count : Nat) (marks : List Mark) : List String :=
  assignLine separators count
    (marks.dropWhile fun mark => separates separators mark && isBlankSeparator mark.char)

end Fields

end Desugar.Shell
