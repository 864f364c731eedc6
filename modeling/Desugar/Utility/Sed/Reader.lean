import Desugar.Regex.Reader
import Desugar.Shell.Format
import Desugar.Utility.Sed.Script

/-!
# Reading editing scripts
-/

namespace Desugar.Utility.Sed

open Shell (isOctalDigit)

/-- A mistake in a script, and how many characters were read. -/
structure Mistake where
  position : Nat
  message : String

/-- A position in a script. -/
structure Cursor where
  rest : List Char
  position : Nat := 0
  script : Script := {}
  /-- The groups that are open, by the numbers of their instructions. -/
  groups : List Nat := []

abbrev Reader := StateT Cursor (Except Mistake)

namespace Reader

def fail {α : Type} (message : String) : Reader α := do
  throw ⟨(← get).position, message⟩

/-- Reports a mistake that is noticed only at the end. -/
def failAtEnd {α : Type} (message : String) : Reader α :=
  throw ⟨0, message⟩

def peek : Reader (Option Char) := do
  return (← get).rest.head?

/-- Takes the next character.  The end counts as one that was read. -/
def next : Reader (Option Char) := do
  let cursor ← get
  match cursor.rest with
  | c :: rest =>
    set { cursor with rest := rest, position := cursor.position + 1 }
    return some c
  | [] => return none

/-- Takes characters that `isIn` holds of. -/
def takeWhile (isIn : Char → Bool) : Reader (List Char) := do
  let cursor ← get
  let cs := cursor.rest.takeWhile isIn
  set { cursor with
    rest := cursor.rest.drop cs.length, position := cursor.position + cs.length }
  return cs

def isSpace (c : Char) : Bool :=
  c = ' ' || (9 ≤ c.toNat && c.toNat < 14)

/-- Skips blanks on a line. -/
def skipBlanks : Reader Unit := do
  let _ ← takeWhile fun c => isSpace c && c ≠ '\n'

def number : Reader Nat := do
  return Text.ofDigits (← takeWhile Char.isDigit)

/-- The characters of a bracket expression after its opening bracket, with its end, and how many
they are in the script.  Escapes for control characters are replaced. -/
def bracketRest : (bound : Nat) → List Char → Option (List Char × Nat)
  | 0, _ => none
  | _, [] => none
  | _, ']' :: _ => some ([']'], 1)
  | _, '\n' :: _ => none
  | bound + 1, '[' :: ':' :: cs => do
    -- The first closing bracket ends the class, and the bracket goes on after it.
    let (text, length) ← bracketRest bound cs
    let (more, moreLength) ← bracketRest bound (cs.drop length)
    return ('[' :: ':' :: text ++ more, length + moreLength + 2)
  | bound + 1, '\\' :: 'n' :: cs =>
    (bracketRest bound cs).map fun (text, length) => ('\n' :: text, length + 2)
  | bound + 1, '\\' :: 't' :: cs =>
    (bracketRest bound cs).map fun (text, length) => ('\t' :: text, length + 2)
  | bound + 1, c :: cs =>
    (bracketRest bound cs).map fun (text, length) => (c :: text, length + 1)

/-- The characters of a bracket expression, where a closing bracket at its start does not end
it. -/
def bracketChars (cs : List Char) : Option (List Char × Nat) :=
  let start := match cs with
    | '^' :: ']' :: _ => 2
    | '^' :: _ => 1
    | ']' :: _ => 1
    | _ => 0
  (bracketRest (cs.length + 1) (cs.drop start)).map fun (text, length) =>
    (cs.take start ++ text, length + start)

/-- What an escape in a delimited text becomes. -/
def delimitedEscape (delimiter : Char) (isRegex : Bool) (c : Char) : List Char :=
  if c = '\n' then ['\n']
  else if isRegex && c = 'n' then ['\n']
  else if c = delimiter && !(!isRegex && c = '&') then [c]
  else ['\\', c]

/-- The characters up to a delimiter, which is taken.  A delimiter with a backslash in front stands
for itself, and in a regular expression one inside brackets does. -/
def delimited (delimiter : Char) (isRegex : Bool) : (bound : Nat) → Reader (Option (List Char))
  | 0 => return none
  | bound + 1 => do
    match ← next with
    | none | some '\n' => return none
    | some '\\' =>
      if delimiter = '\\' then
        return some []
      match ← next with
      | none => return none
      | some c =>
        let rest ← delimited delimiter isRegex bound
        return rest.map (delimitedEscape delimiter isRegex c ++ ·)
    | some c =>
      if c = delimiter then
        return some []
      else if c = '[' && isRegex then
        match bracketChars (← get).rest with
        | none =>
          let _ ← takeWhile fun _ => true
          return none
        | some (text, length) =>
          modify fun cursor => { cursor with
            rest := cursor.rest.drop length, position := cursor.position + length }
          return (← delimited delimiter isRegex bound).map ('[' :: text ++ ·)
      else
        return (← delimited delimiter isRegex bound).map (c :: ·)

/-- A regular expression with the escapes replaced that only scripts have. -/
def plainRegex : (bound : Nat) → List Char → List Char
  | 0, cs => cs
  | _, [] => []
  | bound + 1, '[' :: cs =>
    match bracketChars cs with
    | some (text, length) => '[' :: text ++ plainRegex bound (cs.drop length)
    | none => '[' :: cs
  | bound + 1, '\\' :: c :: cs =>
    match [('t', '\t'), ('f', '\x0c'), ('v', '\x0b'), ('a', '\x07'), ('r', '\r')].lookup c with
    | some char => char :: plainRegex bound cs
    | none => '\\' :: c :: plainRegex bound cs
  | bound + 1, c :: cs => c :: plainRegex bound cs

/-- The expression of a text. -/
def expression (extended : Bool) (manner : Regex.Manner) (cs : List Char) : Reader Expression := do
  if cs.isEmpty then
    return ⟨none, manner⟩
  let cs := plainRegex (cs.length + 1) cs
  match Regex.parse { extended := extended } (String.ofList cs) with
  | .ok regex => return ⟨some regex, manner⟩
  | .error problem => fail problem.message

/-- The flags after the expression of an address. -/
def addressManner (manner : Regex.Manner) : (bound : Nat) → Reader Regex.Manner
  | 0 => return manner
  | bound + 1 => do
    match ← peek with
    | some 'I' =>
      let _ ← next
      addressManner { manner with ignoreCase := true } bound
    | some 'M' =>
      let _ ← next
      addressManner { manner with byLine := true } bound
    | _ => return manner

/-- The address at the position, if there is one. -/
def address? (extended : Bool) : Reader (Option Address) := do
  match ← peek with
  | some '$' =>
    let _ ← next
    return some .last
  | some c =>
    if c.isDigit then
      let first ← number
      if (← peek) = some '~' then
        let _ ← next
        return some (.step first (← number))
      else
        return some (.line first)
    else if c = '/' || c = '\\' then
      let _ ← next
      let delimiter ← if c = '\\' then next else pure (some '/')
      match delimiter with
      | none => fail "unexpected \x60,'"
      | some delimiter =>
        match ← delimited delimiter true ((← get).rest.length + 1) with
        | none => fail "unterminated address regex"
        | some cs =>
          let manner ← addressManner {} 8
          return some (.matching (← expression extended manner cs))
    else
      return none
  | none => return none

/-- Reports an address that is no line.  This is noticed at the command after it. -/
def failAtZero {α : Type} : Reader α := do
  skipBlanks
  let _ ← next
  fail "invalid usage of line address 0"

/-- The lines that the next command is for. -/
def selection (extended : Bool) : Reader Selection := do
  match ← address? extended with
  | none => return .all
  | some first =>
    skipBlanks
    if (← peek) = some ',' then
      let _ ← next
      skipBlanks
      match ← peek with
      | some '+' =>
        let _ ← next
        return .range first (.plus (← number))
      | some '~' =>
        let _ ← next
        return .range first (.multiple (← number))
      | _ =>
        match ← address? extended with
        | none => fail "unexpected \x60,'"
        | some stop =>
          match first, stop with
          | .line 0, .matching expression => return .fromStart expression
          | .line 0, _ => failAtZero
          | _, _ => return .range first (.address stop)
    else
      match first with
      | .line 0 => failAtZero
      | _ => return .one first

/-- The parts of a replacement. -/
def replacementParts : (bound : Nat) → List Char → List ReplacementPart
  | 0, _ => []
  | _, [] => []
  | bound + 1, '&' :: cs => .group 0 :: replacementParts bound cs
  | bound + 1, '\\' :: c :: cs =>
    match c with
    | 'U' => .case .upper :: replacementParts bound cs
    | 'L' => .case .lower :: replacementParts bound cs
    | 'E' => .case .keep :: replacementParts bound cs
    | 'u' => .case .nextUpper :: replacementParts bound cs
    | 'l' => .case .nextLower :: replacementParts bound cs
    | _ =>
      if c.isDigit then
        .group (c.toNat - '0'.toNat) :: replacementParts bound cs
      else
        let plain := match c with
          | 'n' => '\n'
          | 't' => '\t'
          | 'f' => '\x0c'
          | 'v' => '\x0b'
          | 'a' => '\x07'
          | 'r' => '\r'
          | c => c
        .text [plain] :: replacementParts bound cs
  | bound + 1, c :: cs => .text [c] :: replacementParts bound cs

/-- The largest group that an expression has. -/
def groupCount : Regex → Nat
  | .group index inner => max index (groupCount inner)
  | .repeated inner _ _ => groupCount inner
  | .sequence first second | .either first second => max (groupCount first) (groupCount second)
  | _ => 0

/-- The rest of a line, up to its end, which is taken. -/
def restOfLine : Reader String := do
  let cs ← takeWhile (· ≠ '\n')
  let _ ← next
  return String.ofList cs

/-- The flags of a substitution. -/
def substitutionFlags (substitution : Substitution) (manner : Regex.Manner) :
    (bound : Nat) → Reader (Substitution × Regex.Manner)
  | 0 => return (substitution, manner)
  | bound + 1 => do
    if (← peek) = some '\x7d' || (← peek) = some '#' then
      return (substitution, manner)
    match ← next with
    | none | some '\n' | some ';' => return (substitution, manner)
    | some 'g' =>
      if substitution.all then
        fail "multiple \x60g' options to \x60s' command"
      substitutionFlags { substitution with all := true } manner bound
    | some 'p' =>
      if substitution.print then
        fail "multiple \x60p' options to \x60s' command"
      substitutionFlags { substitution with print := true } manner bound
    | some 'i' | some 'I' =>
      substitutionFlags substitution { manner with ignoreCase := true } bound
    | some 'm' | some 'M' =>
      substitutionFlags substitution { manner with byLine := true } bound
    | some 'w' =>
      skipBlanks
      let path ← restOfLine
      if path = "" then
        fail "missing filename in r/R/w/W commands"
      return ({ substitution with file := some path }, manner)
    | some c =>
      if c.isDigit then
        let first := Text.ofDigits (c :: (← takeWhile Char.isDigit))
        if first = 0 then
          fail "number option to \x60s' command may not be zero"
        substitutionFlags { substitution with first := first } manner bound
      else if isSpace c then
        substitutionFlags substitution manner bound
      else
        fail "unknown option to \x60s'"

def substitution (extended : Bool) : Reader Substitution := do
  let unterminated {α : Type} : Reader α := fail "unterminated \x60s' command"
  match ← next with
  | none => unterminated
  | some delimiter =>
    let bound := (← get).rest.length + 1
    match ← delimited delimiter true bound with
    | none => unterminated
    | some pattern =>
      match ← delimited delimiter false bound with
      | none => unterminated
      | some text =>
        let parts := replacementParts (text.length + 1) text
        let empty : Substitution := { expression := ⟨none, {}⟩, replacement := parts }
        let (substitution, manner) ← substitutionFlags empty {} bound
        let expression ← expression extended manner pattern
        let used := parts.foldl (fun most part => match part with
          | .group index => max most index
          | _ => most) 0
        if expression.regex.any fun regex => groupCount regex < used then
          fail ("invalid reference \\" ++ Nat.repr used ++ " on \x60s' command's RHS")
        return { substitution with expression := expression }

/-- The characters of a list for `y`. -/
def mappedChars : List Char → List Char
  | '\\' :: 'n' :: cs => '\n' :: mappedChars cs
  | '\\' :: 't' :: cs => '\t' :: mappedChars cs
  | '\\' :: '\\' :: cs => '\\' :: mappedChars cs
  | c :: cs => c :: mappedChars cs
  | [] => []

/-- The characters that a command puts in the place of others. -/
def charMap : Reader (List (Char × Char)) := do
  let unterminated {α : Type} : Reader α := fail "unterminated \x60y' command"
  match ← next with
  | none => unterminated
  | some delimiter =>
    let bound := (← get).rest.length + 1
    match ← delimited delimiter false bound with
    | none => unterminated
    | some source =>
      match ← delimited delimiter false bound with
      | none => unterminated
      | some target =>
        let source := mappedChars source
        let target := mappedChars target
        if source.length ≠ target.length then
          fail "strings for \x60y' command are different lengths"
        return source.zip target

/-- The lines of a text for `a`, `i` and `c`.  A backslash goes on with the text on the next
line. -/
def textLines : (bound : Nat) → Reader (List Char)
  | 0 => return []
  | bound + 1 => do
    match ← next with
    | none => return []
    | some '\n' => return []
    | some '\\' =>
      match ← next with
      | none => return []
      | some c => return c :: (← textLines bound)
    | some c => return c :: (← textLines bound)

/-- Skips blanks in front of a line end, if there is one. -/
def skipToLineEnd : Reader Unit := do
  let cs := (← get).rest
  let blanks := cs.takeWhile fun c => isSpace c && c ≠ '\n'
  if (cs.drop blanks.length).head? = some '\n' then
    skipBlanks
    let _ ← next

/-- The text of `a`, `i` and `c`. -/
def text : Reader String := do
  skipBlanks
  match ← peek with
  | none | some '\n' => fail "expected \\ after \x60a', \x60c' or \x60i'"
  | some '\\' =>
    let _ ← next
    skipToLineEnd
    if (← get).rest.isEmpty then
      return ""
  | some _ => pure ()
  return String.ofList (← textLines ((← get).rest.length + 1)) ++ "\n"

/-- Takes what may follow a command. -/
def endOfCommand : Reader Unit := do
  skipBlanks
  match ← peek with
  | none | some '\x7d' | some '#' => return
  | some c =>
    let _ ← next
    unless c = '\n' || c = ';' do
      fail "extra characters after command"

/-- A label, up to a blank or a semicolon. -/
def label : Reader String := do
  skipBlanks
  let cs ← takeWhile fun c => !isSpace c && c ≠ ';'
  return String.ofList cs

/-- A path, up to the end of the line. -/
def path : Reader String := do
  skipBlanks
  let path ← restOfLine
  if path = "" then
    fail "missing filename in r/R/w/W commands"
  return path

/-- Adds an instruction. -/
def put (selection : Selection) (negated : Bool) (action : Action) : Reader Unit :=
  modify fun cursor => { cursor with
    script := { cursor.script with
      instructions := cursor.script.instructions.push ⟨selection, negated, action⟩ } }

/-- Closes the innermost group. -/
def closeGroup : Reader Unit := do
  let cursor ← get
  match cursor.groups with
  | [] => fail "unexpected \x60\x7d'"
  | index :: groups =>
    let instructions := cursor.script.instructions
    set { cursor with
      groups := groups
      script := { cursor.script with
        instructions := instructions.modify index fun instruction =>
          { instruction with action := .group instructions.size } } }

/-- The exit status after `q` and `Q`. -/
def quitStatus (selection : Selection) : Reader Nat := do
  match selection with
  | .range _ _ | .fromStart _ => fail "command only uses one address"
  | _ => pure ()
  skipBlanks
  number

/-- The commands without operands. -/
def plainActions : List (Char × Action) :=
  [('p', .print), ('P', .printFirst), ('d', .delete), ('D', .deleteFirst), ('n', .next),
   ('N', .appendNext), ('h', .hold), ('H', .holdAppend), ('g', .get), ('G', .getAppend),
   ('x', .exchange), ('=', .lineNumber), ('F', .fileName), ('z', .zap)]

/-- Skips exclamation marks, and says whether there was one. -/
def negation : Reader Bool := do
  let marks ← takeWhile fun c => c = '!' || (isSpace c && c ≠ '\n')
  return marks.contains '!'

/-- Reads a command after its addresses. -/
def command (extended : Bool) (selection : Selection) (negated : Bool) : Reader Unit := do
  let add (action : Action) : Reader Unit := put selection negated action
  match ← next with
  | none => fail "missing command"
  | some c =>
    match plainActions.lookup c with
    | some action =>
      add action
      endOfCommand
    | none =>
      match c with
      | '\x7b' =>
        modify fun cursor => { cursor with
          groups := cursor.script.instructions.size :: cursor.groups }
        add (.group 0)
      | '\x7d' =>
        match selection with
        | .all => pure ()
        | _ => fail "\x7d doesn't want any addresses"
        closeGroup
        endOfCommand
      | ':' =>
        match selection with
        | .all => pure ()
        | _ => fail ": doesn't want any addresses"
        let name ← label
        if name = "" then
          fail "\":\" lacks a label"
        modify fun cursor => { cursor with
          script := { cursor.script with
            labels := (name, cursor.script.instructions.size) :: cursor.script.labels } }
        endOfCommand
      | 's' => add (.substitute (← substitution extended))
      | 'y' =>
        add (.mapChars (← charMap))
        endOfCommand
      | 'a' => add (.append (← text))
      | 'i' => add (.insert (← text))
      | 'c' => add (.change (← text))
      | 'l' =>
        skipBlanks
        let _ ← number
        add .list
        endOfCommand
      | 'r' => add (.readFile (← path))
      | 'w' => add (.writeFile (← path))
      | 'W' => add (.writeFirst (← path))
      | 'b' =>
        add (.branch (← label))
        endOfCommand
      | 't' =>
        add (.branchIfReplaced (← label))
        endOfCommand
      | 'T' =>
        add (.branchUnlessReplaced (← label))
        endOfCommand
      | 'q' =>
        add (.quit (← quitStatus selection) false)
        endOfCommand
      | 'Q' =>
        add (.quit (← quitStatus selection) true)
        endOfCommand
      | '\n' | ';' => fail "missing command"
      | c => fail ("unknown command: \x60" ++ String.singleton c ++ "'")

/-- Reads the commands of a script. -/
def commands (extended : Bool) : (bound : Nat) → Reader Unit
  | 0 => return
  | bound + 1 => do
    let _ ← takeWhile fun c => isSpace c || c = ';'
    match ← peek with
    | none => return
    | some '#' =>
      let _ ← restOfLine
      commands extended bound
    | some _ =>
      let selection ← selection extended
      skipBlanks
      let negated ← negation
      command extended selection negated
      commands extended bound

/-- Reads a part of a script after others. -/
def part (extended : Bool) (text : String) (script : Script) (groups : List Nat) :
    Except Mistake (Script × List Nat) := do
  let start : Cursor := { rest := text.toList, script := script, groups := groups }
  let (_, cursor) ← (commands extended (text.length + 1)).run start
  return (cursor.script, cursor.groups)

end Reader

end Desugar.Utility.Sed
