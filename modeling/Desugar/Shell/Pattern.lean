/-!
# Patterns

Patterns for texts: `*` matches any characters, `?` any one, and brackets one of a set.  Characters
remember whether they were quoted, because a quoted character matches only itself.
-/

namespace Desugar.Shell

/-- A character of a field, and whether it was quoted. -/
structure Mark where
  char : Char
  quoted : Bool
  deriving DecidableEq, Repr

/-- The text of a field. -/
def fieldText (marks : List Mark) : String :=
  String.ofList (marks.map Mark.char)

/-- A text of which every character is quoted, or none. -/
def marksOf (text : String) (quoted : Bool) : List Mark :=
  text.toList.map fun c => ⟨c, quoted⟩

/-- The classes of characters that a set can name. -/
def charClass? (name : String) : Option (Char → Bool) :=
  match name with
  | "alnum" => some Char.isAlphanum
  | "alpha" => some Char.isAlpha
  | "blank" => some fun c => c = ' ' || c = '\t'
  | "cntrl" => some fun c => c.toNat < 32 || c.toNat = 127
  | "digit" => some Char.isDigit
  | "graph" => some fun c => 33 ≤ c.toNat && c.toNat < 127
  | "lower" => some Char.isLower
  | "print" => some fun c => 32 ≤ c.toNat && c.toNat < 127
  | "punct" => some fun c => 33 ≤ c.toNat && c.toNat < 127 && !c.isAlphanum
  | "space" => some fun c => c = ' ' || (9 ≤ c.toNat && c.toNat < 14)
  | "upper" => some Char.isUpper
  | "xdigit" => some fun c => c.isDigit || ('a' ≤ c && c ≤ 'f') || ('A' ≤ c && c ≤ 'F')
  | _ => none

/-- A member of a set of characters. -/
inductive SetItem where
  /-- The characters from one to another. -/
  | range (first last : Char)
  /-- The characters of a class. -/
  | named (name : String)
  deriving DecidableEq, Repr

def SetItem.contains (c : Char) : SetItem → Bool
  | .range first last => first ≤ c && c ≤ last
  | .named name =>
    match charClass? name with
    | some isIn => isIn c
    | none => false

/-- A step of a pattern. -/
inductive PatternItem where
  | star
  | any
  | set (negated : Bool) (items : List SetItem)
  | char (c : Char)
  deriving DecidableEq, Repr

namespace PatternItem

/-- The class that the marks after `[:` name, and the marks after it. -/
def classAhead? (marks : List Mark) : Option (String × List Mark) :=
  let name := (marks.takeWhile fun mark => mark.char.isLower).map Mark.char
  match marks.drop name.length with
  | ⟨':', _⟩ :: ⟨']', _⟩ :: rest =>
    let name := String.ofList name
    if (charClass? name).isSome then some (name, rest) else none
  | _ => none

/-- The items of a set up to its closing bracket, and the marks after it. -/
def setItems? (isFirst : Bool) : (bound : Nat) → List Mark → Option (List SetItem × List Mark)
  | 0, _ => none
  | _, [] => none
  | bound + 1, mark :: marks =>
    let single : Option (List SetItem × List Mark) :=
      match marks with
      | ⟨'-', false⟩ :: last :: rest =>
        if last = ⟨']', false⟩ then
          (setItems? false bound marks).map fun (items, rest) =>
            (.range mark.char mark.char :: items, rest)
        else
          (setItems? false bound rest).map fun (items, rest) =>
            (.range mark.char last.char :: items, rest)
      | _ =>
        (setItems? false bound marks).map fun (items, rest) =>
          (.range mark.char mark.char :: items, rest)
    if mark = ⟨']', false⟩ && !isFirst then
      some ([], marks)
    else
      match mark, marks with
      | ⟨'[', false⟩, ⟨':', _⟩ :: after =>
        match classAhead? after with
        | some (name, rest) =>
          (setItems? false bound rest).map fun (items, rest) => (.named name :: items, rest)
        | none => single
      | _, _ => single

/-- The set after an opening bracket, and the marks after it. -/
def set? (marks : List Mark) : Option (PatternItem × List Mark) :=
  let (negated, inner) := match marks with
    | ⟨'!', false⟩ :: inner => (true, inner)
    | inner => (false, inner)
  (setItems? true (inner.length + 1) inner).map fun (items, rest) => (.set negated items, rest)

/-- The steps of a pattern.  In the result of an expansion a backslash quotes. -/
def parse : (bound : Nat) → List Mark → List PatternItem
  | 0, _ => []
  | _, [] => []
  | bound + 1, mark :: marks =>
    if mark.quoted then
      .char mark.char :: parse bound marks
    else
      match mark.char with
      | '*' => .star :: parse bound marks
      | '?' => .any :: parse bound marks
      | '\\' =>
        match marks with
        | next :: rest => .char next.char :: parse bound rest
        | [] => [.char '\\']
      | '[' =>
        match set? marks with
        | some (item, rest) => item :: parse bound rest
        | none => .char '[' :: parse bound marks
      | c => .char c :: parse bound marks

/-- Whether the step matches one character. -/
def matchesChar (c : Char) : PatternItem → Bool
  | .star => false
  | .any => true
  | .set negated items => items.any (·.contains c) != negated
  | .char other => c = other

/-- Whether any text but the pattern's own can match it. -/
def isWild : PatternItem → Bool
  | .char _ => false
  | _ => true

end PatternItem

/-- A pattern for texts. -/
abbrev Pattern := List PatternItem

namespace Pattern

/-- The pattern that marks spell. -/
def ofMarks (marks : List Mark) : Pattern :=
  PatternItem.parse (marks.length + 1) marks

/-- The text and all that is left of it when characters are taken off its start. -/
def suffixes : List Char → List (List Char)
  | [] => [[]]
  | c :: cs => (c :: cs) :: suffixes cs

/-- Whether a pattern matches a whole text. -/
def matchesText : Pattern → List Char → Bool
  | [], cs => cs.isEmpty
  | .star :: items, cs => (suffixes cs).any (matchesText items)
  | item :: items, cs =>
    match cs with
    | [] => false
    | c :: cs => item.matchesChar c && matchesText items cs

/-- What is left of a text when a match of the pattern is taken off its start. -/
def dropStart (pattern : Pattern) (longest : Bool) (cs : List Char) : List Char :=
  let lengths := (List.range (cs.length + 1)).filter fun length =>
    pattern.matchesText (cs.take length)
  match if longest then lengths.getLast? else lengths.head? with
  | some length => cs.drop length
  | none => cs

/-- What is left of a text when a match of the pattern is taken off its end. -/
def dropEnd (pattern : Pattern) (longest : Bool) (cs : List Char) : List Char :=
  let lengths := (List.range (cs.length + 1)).filter fun length =>
    pattern.matchesText (cs.drop length)
  match if longest then lengths.head? else lengths.getLast? with
  | some length => cs.take length
  | none => cs

end Pattern

end Desugar.Shell
