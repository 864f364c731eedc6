import Desugar.Utility.Sed.Script

/-!
# Running editing scripts

What a script makes of lines.  A line is read into the pattern space, the instructions change that
and other things, and at the end of the cycle the pattern space is written out.
-/

namespace Desugar.Utility.Sed

/-- A line of the input. -/
structure Line where
  text : List Char
  /-- Whether the line has an end. -/
  ended : Bool
  file : String

/-- What is written at the end of a cycle. -/
inductive Appended where
  | text (content : String)
  | file (path : String)

/-- How an editor runs. -/
structure Setup where
  script : Script
  /-- Whether lines are written only on demand. -/
  quiet : Bool
  /-- What ends a line. -/
  delimiter : Char := '\n'
  /-- The content of a file. -/
  contentOf : String → Option String

/-- An editor at work. -/
structure Editor where
  input : List Line
  number : Nat := 0
  pattern : List Char := []
  hold : List Char := []
  ended : Bool := true
  file : String := "-"
  /-- The output, in parts and backwards. -/
  output : List String := []
  /-- Whether the last line that was written still lacks its end. -/
  unended : Bool := false
  appended : List Appended := []
  /-- The ranges that lines are in, by instructions, with the number of the last line if it is
  known. -/
  ranges : List (Nat × Option Nat) := []
  replaced : Bool := false
  lastRegex : Option Regex := none
  /-- What was written to files. -/
  files : List (String × String) := []
  status : Nat := 0
  /-- An expression was empty, and none was used before. -/
  noRegex : Bool := false

namespace Editor

/-- Writes text as it is, after the end of an unended line. -/
def write (text : String) (editor : Editor) : Editor :=
  { editor with
    output := text :: (if editor.unended then "\n" :: editor.output else editor.output)
    unended := false }

/-- Writes a line. -/
def writeLine (setup : Setup) (text : List Char) (ended : Bool) (editor : Editor) : Editor :=
  let editor := editor.write (String.ofList text)
  if ended then
    { editor with output := String.singleton setup.delimiter :: editor.output }
  else
    { editor with unended := true }

/-- Adds to what is written to a file. -/
def writeTo (setup : Setup) (path : String) (text : List Char) (editor : Editor) : Editor :=
  if path = "/dev/stdout" then
    editor.writeLine setup text true
  else
    let old := (editor.files.lookup path).getD ""
    { editor with
      files := (path, old ++ String.ofList text ++ "\n") :: editor.files.filter (·.1 ≠ path) }

/-- Writes what was to follow the line. -/
def writeAppended (setup : Setup) (editor : Editor) : Editor :=
  let editor' := editor.appended.foldl
    (fun editor item => match item with
      | .text content => editor.write content
      | .file path =>
        match editor.files.lookup path <|> setup.contentOf path with
        | some content => if content = "" then editor else editor.write content
        | none => editor)
    editor
  { editor' with appended := [] }

/-- Reads the next line.  `join` says what becomes of the pattern space. -/
def read? (setup : Setup) (join : List Char → List Char → List Char) (editor : Editor) :
    Option Editor :=
  match editor.input with
  | [] => none
  | line :: input =>
    let editor := editor.writeAppended setup
    some { editor with
      input := input
      number := editor.number + 1
      pattern := join editor.pattern line.text
      ended := line.ended
      file := line.file
      replaced := false }

/-- What an expression matches, from a position on.  An empty one is the last that was used. -/
def find (expression : Expression) (start : Nat) (editor : Editor) :
    Option Regex.Match × Editor :=
  match expression.regex <|> editor.lastRegex with
  | none => (none, { editor with noRegex := true })
  | some regex =>
    (regex.searchFrom? expression.manner editor.pattern (Regex.spotAt editor.pattern start),
      { editor with lastRegex := some regex })

/-- Whether the line is at an address. -/
def isAt (address : Address) (editor : Editor) : Bool × Editor :=
  match address with
  | .line number => (editor.number = number, editor)
  | .last => (editor.input.isEmpty, editor)
  | .step first size =>
    (if size = 0 then editor.number = first
      else editor.number ≥ first && (editor.number - first) % size = 0, editor)
  | .matching expression =>
    let (found, editor) := editor.find expression 0
    (found.isSome, editor)

/-- Whether the line is selected, and whether the selection goes on after it. -/
def isSelected (index : Nat) (selection : Selection) (editor : Editor) : Bool × Bool × Editor :=
  let close (editor : Editor) : Editor :=
    { editor with ranges := editor.ranges.filter (·.1 ≠ index) }
  let enter (last : Option Nat) (editor : Editor) : Editor :=
    { editor with ranges := (index, last) :: editor.ranges }
  match selection with
  | .all => (true, false, editor)
  | .one address =>
    let (isHere, editor) := editor.isAt address
    (isHere, false, editor)
  | .fromStart expression =>
    if editor.ranges.any (·.1 = index) then
      (false, false, editor)
    else
      let (isEnd, editor) := editor.isAt (.matching expression)
      if isEnd then (true, false, enter none editor) else (true, true, editor)
  | .range first last =>
    match editor.ranges.lookup index with
    | some (some number) =>
      if editor.number ≥ number then
        (editor.number = number, false, close editor)
      else
        (true, true, editor)
    | some none =>
      match last with
      | .address address =>
        let (isEnd, editor) := editor.isAt address
        (true, !isEnd, if isEnd then close editor else editor)
      | _ => (true, false, close editor)
    | none =>
      let (isHere, editor) := editor.isAt first
      if !isHere then
        (false, false, editor)
      else
        let upTo (number : Nat) : Bool × Bool × Editor :=
          if number ≤ editor.number then (true, false, editor)
          else (true, true, enter (some number) editor)
        match last with
        | .address (.line number) => upTo number
        | .plus count => upTo (editor.number + count)
        | .multiple size =>
          upTo (if size = 0 then editor.number else editor.number + size - editor.number % size)
        | .address .last =>
          if editor.input.isEmpty then (true, false, editor) else (true, true, enter none editor)
        | .address _ => (true, true, enter none editor)

/-- A text in which letters are changed as replacements ask for, and the changes that go on. -/
def changeCase (lasting once : CaseChange) : List Char → List Char × CaseChange
  | [] => ([], once)
  | c :: cs =>
    let lasted := match lasting with
      | .upper => c.toUpper
      | .lower => c.toLower
      | _ => c
    let changed := match once with
      | .nextUpper => c.toUpper
      | .nextLower => c.toLower
      | _ => lasted
    let (rest, once) := changeCase lasting .keep cs
    (changed :: rest, once)

/-- The text of a replacement for a match. -/
def replacementText (text : List Char) (found : Regex.Match) :
    (lasting once : CaseChange) → List ReplacementPart → List Char
  | _, _, [] => []
  | lasting, once, .text content :: parts =>
    let (shown, once) := changeCase lasting once content
    shown ++ replacementText text found lasting once parts
  | lasting, once, .group index :: parts =>
    let (shown, once) := changeCase lasting once (found.group text index)
    shown ++ replacementText text found lasting once parts
  | lasting, once, .case change :: parts =>
    match change with
    | .nextUpper | .nextLower => replacementText text found lasting change parts
    | .keep => replacementText text found .keep .keep parts
    | _ => replacementText text found change once parts

/-- The pattern space from a position on with matches replaced, and whether there was one.  `last`
is where the match before it ended, and `count` how many there were. -/
def replaceFrom (substitution : Substitution) (regex : Regex) (text : List Char) :
    (bound : Nat) → (position count : Nat) → (last : Option Nat) → List Char × Bool
  | 0, position, _, _ => (text.drop position, false)
  | bound + 1, position, count, last =>
    let manner := substitution.expression.manner
    match regex.searchFrom? manner text (Regex.spotAt text position) with
    | none => (text.drop position, false)
    | some found =>
      let before := (text.drop position).take (found.first - position)
      let isEmpty := found.first = found.last
      if isEmpty && last = some found.first then
        match text[found.first]? with
        | none => (text.drop position, false)
        | some c =>
          let (rest, replaced) :=
            replaceFrom substitution regex text bound (found.first + 1) count none
          (before ++ c :: rest, replaced)
      else
        let count := count + 1
        let shown :=
          if count < substitution.first then found.group text 0
          else replacementText text found .keep .keep substitution.replacement
        let replaced := count ≥ substitution.first
        if replaced && !substitution.all then
          (before ++ shown ++ text.drop found.last, true)
        else if isEmpty then
          match text[found.first]? with
          | none => (before ++ shown, replaced)
          | some c =>
            let (rest, more) :=
              replaceFrom substitution regex text bound (found.first + 1) count
                none
            (before ++ shown ++ c :: rest, replaced || more)
        else
          let (rest, more) :=
            replaceFrom substitution regex text bound found.last count (some found.last)
          (before ++ shown ++ rest, replaced || more)

/-- Carries out a substitution. -/
def substitute (setup : Setup) (substitution : Substitution) (editor : Editor) : Editor :=
  match substitution.expression.regex <|> editor.lastRegex with
  | none => { editor with noRegex := true }
  | some regex =>
    let text := editor.pattern
    let (result, replaced) := replaceFrom substitution regex text (text.length + 2) 0 0 none
    let editor := { editor with lastRegex := some regex }
    if replaced then
      let editor := { editor with pattern := result, replaced := true }
      let editor :=
        if substitution.print then editor.writeLine setup result editor.ended else editor
      match substitution.file with
      | some path => editor.writeTo setup path result
      | none => editor
    else
      editor

/-- A text with its characters made visible, in lines of a width. -/
def visibleChars (text : List Char) : List String :=
  text.map fun c =>
    match [('\\', "\\\\"), ('\x07', "\\a"), ('\x08', "\\b"), ('\x0c', "\\f"), ('\n', "\\n"),
        ('\r', "\\r"), ('\t', "\\t"), ('\x0b', "\\v")].lookup c with
    | some shown => shown
    | none =>
      if 32 ≤ c.toNat && c.toNat < 127 then
        String.singleton c
      else
        let digits := Nat.toDigits 8 c.toNat
        "\\" ++ String.ofList (List.replicate (3 - digits.length) '0' ++ digits)

/-- Visible characters in lines that end in a backslash where they go on. -/
def wrap (width : Nat) (column : Nat) : List String → String
  | [] => "$"
  | shown :: rest =>
    if column + shown.length > width then "\\\n" ++ shown ++ wrap width shown.length rest
    else shown ++ wrap width (column + shown.length) rest

/-- The first line of the pattern space. -/
def firstLine (editor : Editor) : List Char :=
  editor.pattern.takeWhile (· ≠ '\n')

end Editor

/-- What follows an instruction. -/
inductive Control where
  /-- The instruction of a number. -/
  | goOn (index : Nat)
  /-- The end of the cycle, where the pattern space may be written out. -/
  | endCycle (writes : Bool)
  /-- Another cycle with what is left of the pattern space. -/
  | restart
  /-- The end of the script. -/
  | quit (writes : Bool)

namespace Setup

open Editor

/-- The instruction at a label.  No label is the end of the script. -/
def target (setup : Setup) (label : String) : Nat :=
  if label = "" then setup.script.instructions.size
  else (setup.script.labels.lookup label).getD setup.script.instructions.size

/-- Carries out an action. -/
def perform (setup : Setup) (index : Nat) (goesOn : Bool) (action : Action)
    (editor : Editor) : Control × Editor :=
  let next := Control.goOn (index + 1)
  let isLast := editor.input.isEmpty
  match action with
  | .group _ | .closeGroup | .label => (next, editor)
  | .substitute substitution => (next, editor.substitute setup substitution)
  | .mapChars pairs =>
    (next, { editor with pattern := editor.pattern.map fun c => (pairs.lookup c).getD c })
  | .print => (next, editor.writeLine setup editor.pattern editor.ended)
  | .printFirst => (next, editor.writeLine setup editor.firstLine true)
  | .delete => (.endCycle false, editor)
  | .deleteFirst =>
    if editor.pattern.contains '\n' then
      (.restart, { editor with pattern := editor.pattern.drop (editor.firstLine.length + 1) })
    else
      (.endCycle false, editor)
  | .next =>
    if isLast then
      (.quit true, editor)
    else
      let editor := if setup.quiet then editor
        else editor.writeLine setup editor.pattern editor.ended
      (next, (editor.read? setup fun _ line => line).getD editor)
  | .appendNext =>
    if isLast then
      (.quit true, editor)
    else
      (next, (editor.read? setup fun old line => old ++ '\n' :: line).getD editor)
  | .hold => (next, { editor with hold := editor.pattern })
  | .holdAppend => (next, { editor with hold := editor.hold ++ '\n' :: editor.pattern })
  | .get => (next, { editor with pattern := editor.hold })
  | .getAppend => (next, { editor with pattern := editor.pattern ++ '\n' :: editor.hold })
  | .exchange => (next, { editor with pattern := editor.hold, hold := editor.pattern })
  | .append text => (next, { editor with appended := editor.appended ++ [.text text] })
  | .insert text => (next, editor.write text)
  | .change text => (.endCycle false, if goesOn then editor else editor.write text)
  | .lineNumber => (next, editor.write (Nat.repr editor.number ++ "\n"))
  | .list => (next, editor.write (wrap 69 0 (visibleChars editor.pattern) ++ "\n"))
  | .readFile path => (next, { editor with appended := editor.appended ++ [.file path] })
  | .writeFile path => (next, editor.writeTo setup path editor.pattern)
  | .writeFirst path => (next, editor.writeTo setup path editor.firstLine)
  | .branch label => (.goOn (setup.target label), editor)
  | .branchIfReplaced label =>
    if editor.replaced then (.goOn (setup.target label), { editor with replaced := false })
    else (next, editor)
  | .branchUnlessReplaced label =>
    if editor.replaced then (next, { editor with replaced := false })
    else (.goOn (setup.target label), editor)
  | .quit status silently => (.quit (!silently), { editor with status := status })
  | .fileName => (next, editor.write (editor.file ++ "\n"))
  | .zap => (next, { editor with pattern := [] })

/-- The end of a cycle. -/
def finishCycle (setup : Setup) (writes : Bool) (editor : Editor) : Editor :=
  let editor := if writes && !setup.quiet then
      editor.writeLine setup editor.pattern editor.ended
    else
      editor
  editor.writeAppended setup

/-- Carries out instructions from one on, cycle after cycle, up to the end of the input. -/
def runFrom (setup : Setup) : (bound : Nat) → (index : Nat) → Editor → Editor
  | 0, _, editor => editor
  | bound + 1, index, editor =>
    let (control, editor) : Control × Editor :=
      match setup.script.instructions[index]? with
      | none => (.endCycle true, editor)
      | some instruction =>
        let (isSelected, goesOn, editor) := editor.isSelected index instruction.selection
        if isSelected != instruction.negated then
          setup.perform index goesOn instruction.action editor
        else
          match instruction.action with
          | .group stop => (.goOn stop, editor)
          | _ => (.goOn (index + 1), editor)
    if editor.noRegex then
      editor
    else
      match control with
      | .goOn index => runFrom setup bound index editor
      | .restart => runFrom setup bound 0 (editor.writeAppended setup)
      | .quit writes =>
        let editor := if writes then setup.finishCycle true editor else editor
        { editor with input := [] }
      | .endCycle writes =>
        let editor := setup.finishCycle writes editor
        match editor.read? setup fun _ line => line with
        | some editor => runFrom setup bound 0 editor
        | none => editor

/-- How many instructions may be carried out. -/
def bound : Nat := 1000000

/-- Runs a script on lines. -/
def run (setup : Setup) (editor : Editor) : Editor :=
  match editor.read? setup fun _ line => line with
  | some editor => setup.runFrom bound 0 editor
  | none => editor

end Setup

/-- What an editor has written. -/
def Editor.written (editor : Editor) : String :=
  String.join editor.output.reverse

end Desugar.Utility.Sed
