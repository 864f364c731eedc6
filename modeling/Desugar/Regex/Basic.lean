import Desugar.Shell.Pattern

/-!
# Regular expressions

Regular expressions with groups, and what they match in a text.  `Regex.ends` gives all ways to
match from a position on, in the order in which they are preferred; of the matches that start first,
the longest counts.
-/

namespace Desugar

open Shell (SetItem)

/-- A regular expression. -/
inductive Regex where
  | empty
  | any
  | char (c : Char)
  | set (negated : Bool) (items : List SetItem)
  /-- The start of the text, or of a line. -/
  | start
  /-- The end of the text, or of a line. -/
  | finish
  /-- Between a character of a word and one that is none, or not there. -/
  | boundary (inside : Bool)
  /-- In front of a word. -/
  | wordStart
  /-- After a word. -/
  | wordEnd
  | group (index : Nat) (inner : Regex)
  /-- The text that a group matched. -/
  | backReference (index : Nat)
  | sequence (first second : Regex)
  | either (first second : Regex)
  | repeated (inner : Regex) (least : Nat) (most : Option Nat)
  deriving Repr, DecidableEq

namespace Regex

/-- A position in a text. -/
structure Spot where
  index : Nat
  /-- The character in front of the position. -/
  before : Option Char
  rest : List Char
  deriving DecidableEq, Repr

/-- What the groups matched: for each, where it starts and ends. -/
abbrev Groups := List (Nat × Nat × Nat)

/-- How a text is looked at. -/
structure Manner where
  /-- Capital letters count as small ones. -/
  ignoreCase : Bool := false
  /-- Line ends in the text count as ends for `start` and `finish`. -/
  byLine : Bool := false
  deriving DecidableEq, Repr

/-- A way to match. -/
abbrev Outcome := Spot × Groups

def isWordChar (c : Char) : Bool :=
  c.isAlphanum || c = '_'

namespace Spot

/-- The position after the next character. -/
def advance (spot : Spot) : Spot :=
  match spot.rest with
  | [] => spot
  | c :: rest => ⟨spot.index + 1, some c, rest⟩

def afterWord (spot : Spot) : Bool :=
  spot.before.any isWordChar

def beforeWord (spot : Spot) : Bool :=
  spot.rest.head?.any isWordChar

/-- The positions of a text. -/
def all (spot : Spot) : (count : Nat) → List Spot
  | 0 => [spot]
  | count + 1 => spot :: all spot.advance count

end Spot

/-- The position after a character that `isIn` holds of. -/
def step (isIn : Char → Bool) (groups : Groups) (spot : Spot) : List Outcome :=
  match spot.rest with
  | c :: _ => if isIn c then [(spot.advance, groups)] else []
  | [] => []

/-- Leaves of the ways that end at the same position only the first. -/
def firstEnds : List Outcome → List Nat → List Outcome
  | [], _ => []
  | outcome :: outcomes, seen =>
    if seen.contains outcome.1.index then firstEnds outcomes seen
    else outcome :: firstEnds outcomes (outcome.1.index :: seen)

/-- All ways to match something again and again.  A repetition that matches nothing is the last. -/
def repetitions (once : Groups → Spot → List Outcome) (exact : Bool) :
    (bound : Nat) → (least : Nat) → (most : Option Nat) → Groups → Spot → List Outcome
  | 0, _, _, _, _ => []
  | bound + 1, least, most, groups, spot =>
    let stop := if least = 0 then [(spot, groups)] else []
    if most = some 0 then
      stop
    else
      let more := (once groups spot).flatMap fun (next, groups) =>
        if next.index = spot.index then
          if least ≤ 1 then [(next, groups)] else
            repetitions once exact bound (least - 1) (most.map (· - 1)) groups next
        else
          repetitions once exact bound (least - 1) (most.map (· - 1)) groups next
      if exact then more ++ stop else firstEnds (more ++ stop) []

/-- Whether an expression refers back to what a group matched. -/
def refersBack : Regex → Bool
  | .backReference _ => true
  | .group _ inner | .repeated inner _ _ => inner.refersBack
  | .sequence first second | .either first second => first.refersBack || second.refersBack
  | _ => false

/-- The position after a text, if that is what follows. -/
def skipText? (same : Char → Char → Bool) (spot : Spot) : List Char → Option Spot
  | [] => some spot
  | c :: cs =>
    match spot.rest with
    | d :: _ => if same c d then skipText? same spot.advance cs else none
    | [] => none

/-- All ways to match from a position in a text on, those that are preferred first. -/
def ends (manner : Manner) (exact : Bool) (text : List Char) :
    Regex → Groups → Spot → List Outcome
  | .empty, groups, spot => [(spot, groups)]
  | .any, groups, spot => step (fun _ => true) groups spot
  | .char c, groups, spot =>
    step (fun d => c = d || (manner.ignoreCase && c.toLower = d.toLower)) groups spot
  | .set negated items, groups, spot =>
    step
      (fun d =>
        let isIn (d : Char) : Bool := items.any (·.contains d)
        (isIn d || (manner.ignoreCase && (isIn d.toLower || isIn d.toUpper))) != negated)
      groups spot
  | .start, groups, spot =>
    if spot.before.isNone || (manner.byLine && spot.before = some '\n') then [(spot, groups)]
    else []
  | .finish, groups, spot =>
    if spot.rest.isEmpty || (manner.byLine && spot.rest.head? = some '\n') then [(spot, groups)]
    else []
  | .boundary inside, groups, spot =>
    if (spot.afterWord = spot.beforeWord) = inside then [(spot, groups)] else []
  | .wordStart, groups, spot =>
    if !spot.afterWord && spot.beforeWord then [(spot, groups)] else []
  | .wordEnd, groups, spot =>
    if spot.afterWord && !spot.beforeWord then [(spot, groups)] else []
  | .group index inner, groups, spot =>
    (ends manner exact text inner groups spot).map fun (next, groups) =>
      (next, (index, spot.index, next.index) :: groups.filter (·.1 ≠ index))
  | .backReference index, groups, spot =>
    match groups.lookup index with
    | none => []
    | some (first, last) =>
      let same (c d : Char) : Bool :=
        c = d || (manner.ignoreCase && c.toLower = d.toLower)
      match skipText? same spot ((text.drop first).take (last - first)) with
      | some next => [(next, groups)]
      | none => []
  | .sequence first second, groups, spot =>
    let outcomes := (ends manner exact text first groups spot).flatMap fun (next, groups) =>
      ends manner exact text second groups next
    if exact then outcomes else firstEnds outcomes []
  | .either first second, groups, spot =>
    let outcomes :=
      ends manner exact text first groups spot ++ ends manner exact text second groups spot
    if exact then outcomes else firstEnds outcomes []
  | .repeated inner least most, groups, spot =>
    repetitions (ends manner exact text inner) exact (spot.rest.length + least + 2) least most
      groups spot

/-- A match in a text. -/
structure Match where
  first : Nat
  last : Nat
  groups : Groups
  deriving DecidableEq, Repr

/-- The one of some ways to match that goes farthest. -/
def farthest : List Outcome → Option Outcome
  | [] => none
  | outcome :: outcomes =>
    match farthest outcomes with
    | some other => if other.1.index > outcome.1.index then some other else some outcome
    | none => some outcome

/-- The longest match from a position on. -/
def matchAt? (regex : Regex) (manner : Manner) (text : List Char) (spot : Spot) : Option Match :=
  (farthest (regex.ends manner regex.refersBack text [] spot)).map fun (next, groups) =>
    ⟨spot.index, next.index, groups⟩

/-- The first match from a position on. -/
def searchFrom? (regex : Regex) (manner : Manner) (text : List Char) (spot : Spot) : Option Match :=
  (spot.all spot.rest.length).findSome? (regex.matchAt? manner text)

/-- The position of a text that a match can start from. -/
def spotAt (text : List Char) (index : Nat) : Spot :=
  ⟨index, if index = 0 then none else text[index - 1]?, text.drop index⟩

/-- The first match in a text. -/
def search? (regex : Regex) (manner : Manner) (text : List Char) : Option Match :=
  regex.searchFrom? manner text (spotAt text 0)

/-- What a group matched, or for zero the whole match. -/
def Match.group (text : List Char) (found : Match) (index : Nat) : List Char :=
  if index = 0 then
    (text.drop found.first).take (found.last - found.first)
  else
    match found.groups.lookup index with
    | some (first, last) => (text.drop first).take (last - first)
    | none => []

end Regex

end Desugar
