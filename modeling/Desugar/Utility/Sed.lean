import Desugar.Utility.Basic
import Desugar.Utility.Sed.Reader
import Desugar.Utility.Sed.Run

/-!
# The stream editor

The program around editing scripts: it puts the script together, reads the files and writes the
results, to the output or back to the files.
-/

namespace Desugar.Utility

open Shell Sh

namespace Sed

/-- The lines of a text, with where they come from. -/
def inputLines (delimiter : Char) (file text : String) : List Line :=
  let parts := text.splitOn (String.singleton delimiter)
  let whole := parts.dropLast.map fun part => (⟨part.toList, true, file⟩ : Line)
  match parts.getLast? with
  | some "" | none => whole
  | some part => whole ++ [⟨part.toList, false, file⟩]

/-- The files that a script writes to. -/
def writtenFiles (script : Script) : List String :=
  script.instructions.toList.filterMap fun instruction => match instruction.action with
    | .writeFile path | .writeFirst path => some path
    | .substitute substitution => substitution.file
    | _ => none

/-- The first label of a script that a branch goes to and that is not there. -/
def missingLabel? (script : Script) : Option String :=
  script.instructions.toList.findSome? fun instruction =>
    match instruction.action with
    | .branch label | .branchIfReplaced label | .branchUnlessReplaced label =>
      if label = "" || (script.labels.lookup label).isSome then none else some label
    | _ => none

/-- The script that parts make up, or what is wrong with it.  A part from a file has its path. -/
def assemble (extended : Bool) (parts : List (Option String × String)) :
    Except (String × Nat) Script := do
  let mut script : Script := {}
  let mut groups : List Nat := []
  let mut number := 0
  for (path?, text) in parts do
    if path?.isNone then
      number := number + 1
    match Reader.part extended text script groups with
    | .ok (next, open') =>
      script := next
      groups := open'
    | .error mistake =>
      let place := match path? with
        | none => "-e expression #" ++ Nat.repr number ++ ", char " ++ Nat.repr mistake.position
        | some path =>
          let line := (text.toList.take mistake.position).count '\n' + 1
          "file " ++ path ++ " line " ++ Nat.repr line
      throw (place ++ ": " ++ mistake.message, 1)
  unless groups.isEmpty do
    throw ("-e expression #1, char 0: unmatched \x60\x7b'", 1)
  match missingLabel? script with
  | some label => throw ("can't find label for jump to \x60" ++ label ++ "'", 4)
  | none => return script

/-- Writes what a script wrote to files. -/
def writeFiles (files : List (String × String)) : Sh Unit := do
  for (path, content) in files do
    match ← openWrite .write path with
    | .ok number =>
      let _ ← emitTo number (Octets.toBytes content)
    | .error error => complain "sed" ("couldn't open file " ++ path ++ ": " ++ error.reason)

/-- The parts of the script that options give, in order. -/
def optionParts : List (Char × String) → Sh (Except String (List (Option String × String)))
  | [] => return .ok []
  | (letter, value) :: options => do
    match ← optionParts options with
    | .error message => return .error message
    | .ok parts =>
      if letter = 'e' then
        return .ok ((none, value) :: parts)
      else if letter = 'f' then
        match ← (if value = "-" then readAll 0 else readFile value) with
        | .ok text => return .ok ((some value, text) :: parts)
        | .error error => return .error ("couldn't open file " ++ value ++ ": " ++ error.reason)
      else
        return .ok parts

/-- Runs an editor on all files as one text. -/
def editStream (setup : Setup) (separate : Bool) (files : List (String × String)) :
    Sh Nat := do
  let written := writtenFiles setup.script
  let start : Editor := { input := [], files := written.map fun path => (path, "") }
  let texts := files.map fun (file, text) => inputLines setup.delimiter file text
  let finish (editor : Editor) : Sh Nat := do
    say editor.written
    writeFiles (editor.files.filter fun entry => entry.1 ≠ "/dev/stdout")
    if editor.noRegex then
      complain "sed" "-e expression #1, char 0: no previous regular expression"
      return 1
    return editor.status
  if separate then
    finish (texts.foldl
      (fun editor lines =>
        setup.run { editor with input := lines, number := 0, ranges := [] }) start)
  else
    finish (setup.run { start with input := texts.flatten })

/-- Runs an editor on a file and puts the result in its place.  The old content may be kept under
another name. -/
def editInPlace (setup : Setup) (ending path text : String) : Sh Nat := do
  let lines := inputLines setup.delimiter path text
  let start : Editor := { input := lines }
  let editor := setup.run start
  unless ending = "" do
    let backup := if ending.toList.contains '*' then
        String.join ((ending.toList.map fun c => if c = '*' then path else String.singleton c))
      else
        path ++ ending
    let _ ← change fun tree cwd => tree.write cwd (pathOf backup) (Octets.toBytes text)
  let _ ← change fun tree cwd =>
    tree.write cwd (pathOf path) (Octets.toBytes editor.written)
  writeFiles editor.files
  return editor.status

end Sed

open Sed in
def sed : Program := withOptions "sed" 1
    { flags := "nErsuz", valued := "efl", attached := "i",
      long := [("quiet", 'n'), ("silent", 'n'), ("expression", 'e'), ("file", 'f'),
        ("regexp-extended", 'E'), ("in-place", 'i'), ("separate", 's'), ("null-data", 'z'),
        ("posix", 'u'), ("unbuffered", 'u'), ("line-length", 'l'), ("debug", 'u')] }
    fun args => do
  let given := args.has 'e' || args.has 'f'
  match ← optionParts args.options, given, args.operands with
  | .error message, _, _ =>
    complain "sed" message
    return 1
  | .ok _, false, [] =>
    Sh.complain
      "Usage: sed [OPTION]... \x7bscript-only-if-no-other-script\x7d [input-file]..."
    return 1
  | .ok parts, _, operands =>
    let parts := if given then parts else [(none, operands.head?.getD "")]
    let operands := if given then operands else operands.tail
    match assemble (args.has 'E' || args.has 'r') parts with
    | .error (message, status) =>
      complain "sed" message
      return status
    | .ok script =>
      let state ← get
      let contentOf (path : String) : Option String :=
        ((state.world.tree.read state.world.cwd (pathOf path)).toOption).map Octets.ofBytes
      let first := (parts.head?.map Prod.snd).getD ""
      let setup : Setup := {
        script := script
        quiet := args.has 'n' || first = "#n" || first.startsWith "#n\n"
        delimiter := if args.has 'z' then '\x00' else '\n'
        contentOf := contentOf }
      let mut files := []
      let mut status := 0
      for operand in (if operands.isEmpty then ["-"] else operands) do
        let isPlain ← look fun tree cwd => tree.isFileAt cwd (pathOf operand)
        let result ← if operand = "-" then readAll 0 else readFile operand
        match result with
        | .ok text =>
          if args.has 'i' && !isPlain then
            complain "sed" ("couldn't edit " ++ operand ++ ": not a regular file")
            status := 4
          else
            files := files ++ [(operand, text)]
        | .error .isDirectory =>
          if args.has 'i' then
            complain "sed" ("couldn't edit " ++ operand ++ ": not a regular file")
          else
            complain "sed" ("read error on " ++ operand ++ ": Is a directory")
          status := 4
        | .error error =>
          complain "sed" ("can't read " ++ operand ++ ": " ++ error.reason)
          status := 2
      if args.has 'i' then
        for (path, text) in files do
          let result ← editInPlace setup ((args.value? 'i').getD "") path text
          status := max status result
        return status
      else
        let result ← editStream setup (args.has 's') files
        return if result = 0 then status else result

end Desugar.Utility
