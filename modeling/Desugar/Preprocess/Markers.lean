import Desugar.Text.Blank

/-!
# Marked regions

A source file can hold directives for a preprocessor between two marker lines.  Everywhere else a
line that starts with `#` is a comment.  `Markers.filter` drops the comments and the markers
themselves, and keeps every other line as it stands.
-/

namespace Desugar

/-- The two lines that enclose a region for the preprocessor. -/
structure Markers where
  start : String
  stop : String
  deriving DecidableEq, Repr

namespace Text

/-- The lines of a text, each with the line feed that ends it.  The last one may have none. -/
def lines : List Char → List (List Char)
  | [] => []
  | c :: cs =>
    if c = '\n' then
      [c] :: lines cs
    else
      match lines cs with
      | [] => [[c]]
      | line :: others => (c :: line) :: others

end Text

namespace Markers

/-- The lines that are kept, where `inside` says whether a region is open at the first of them.
Blanks around a line do not count, and the start marker is looked for first. -/
def keep (markers : Markers) (inside : Bool) : List (List Char) → List (List Char)
  | [] => []
  | line :: others =>
    let content := Text.trim (String.ofList line)
    if content = markers.start then
      markers.keep true others
    else if content = markers.stop then
      markers.keep false others
    else if !inside && content.toList.head? = some '#' then
      markers.keep inside others
    else
      line :: markers.keep inside others

/-- The text without its markers and without the comments outside marked regions. -/
def filter (markers : Markers) (text : String) : String :=
  String.ofList (markers.keep false (Text.lines text.toList)).flatten

end Markers

end Desugar
