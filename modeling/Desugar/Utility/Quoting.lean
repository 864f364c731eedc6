import Desugar.Text.Octets

/-!
# File names in messages

Programs put a file's name into a message so that a shell would read it back as one word.  Some do
that always (`quotedName`), some only where the name needs it (`shownName`).  Texts that are no
names of files are put between plain quotes (`quote`).
-/

namespace Desugar.Utility

/-- Whether a character is shown as it is. -/
def isShown (c : Char) : Bool :=
  ' ' ≤ c && c ≤ '~'

/-- The escape for a character that is not shown as it is. -/
def escapeOf (c : Char) : String :=
  match c with
  | '\x07' => "\\a"
  | '\x08' => "\\b"
  | '\t' => "\\t"
  | '\n' => "\\n"
  | '\x0b' => "\\v"
  | '\x0c' => "\\f"
  | '\r' => "\\r"
  | c =>
    let digits := Nat.toDigits 8 c.toNat
    "\\" ++ String.ofList (List.replicate (3 - digits.length) '0' ++ digits)

/-- A text between quotes, with backslashes in front of what would end it. -/
def quote (text : String) : String :=
  let written (c : Char) : String :=
    if c = '\'' || c = '\\' then String.ofList ['\\', c]
    else if isShown c then String.singleton c
    else escapeOf c
  "'" ++ String.join (text.toList.map written) ++ "'"

/-- The signs that mean something to a shell wherever they stand. -/
def shellSigns : List Char :=
  "!\"$&()*;<=>[^\x60|?\\".toList

/-- Whether a shell would not read a name as it is.  A colon would be taken for the end of the name
in a message. -/
def needsQuotes (name : List Char) : Bool :=
  name.isEmpty || name = ['\x7b'] || name = ['\x7d'] ||
    name.head? = some '#' || name.head? = some '~' ||
    name.any fun c => !isShown c || c = ' ' || c = '\'' || c = ':' || shellSigns.contains c

/-- The rest of a name after its opening quote.  What cannot be shown stands between quotes of its
own. -/
def quotedRest : (escaping : Bool) → List Char → String
  | _, [] => "'"
  | escaping, c :: cs =>
    if isShown c then
      (if escaping then "''" else "") ++ (if c = '\'' then "'\\''" else String.singleton c) ++
        quotedRest false cs
    else
      (if escaping then "" else "'$'") ++ escapeOf c ++ quotedRest true cs

/-- A name between quotes.  A single quote in it is kept inside double ones where nothing else in
the name stands against that. -/
def quotedName (name : String) : String :=
  let cs := name.toList
  let isPlain := cs.all (fun c => isShown c && !shellSigns.contains c) &&
    !cs.tail.any fun c => c = '#' || c = '~'
  if cs.contains '\'' && isPlain then "\"" ++ name ++ "\"" else "'" ++ quotedRest false cs

/-- A name, between quotes where it needs them. -/
def shownName (name : String) : String :=
  if needsQuotes name.toList then quotedName name else name

end Desugar.Utility
