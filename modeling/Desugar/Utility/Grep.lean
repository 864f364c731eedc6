import Desugar.Regex.Reader
import Desugar.Utility.Basic

/-!
# Searching

The lines of files that patterns match.
-/

namespace Desugar.Utility

open Shell Sh

namespace Grep

/-- What is searched for. -/
structure Query where
  patterns : List Regex
  manner : Regex.Manner
  /-- Only whole words, or whole lines, count. -/
  words : Bool
  lines : Bool

/-- The regular expression that matches a text and nothing else. -/
def literal : List Char → Regex
  | [] => .empty
  | c :: cs => .sequence (.char c) (literal cs)

/-- Whether a match counts. -/
def Query.accepts (query : Query) (start stop : Regex.Spot) : Bool :=
  (!query.lines || (start.before.isNone && stop.rest.isEmpty)) &&
    (!query.words || (!start.before.any Regex.isWordChar && !stop.beforeWord))

/-- The longest match at a position that counts. -/
def Query.matchAt? (query : Query) (text : List Char) (spot : Regex.Spot) : Option (Nat × Nat) :=
  let outcomes := query.patterns.flatMap fun pattern =>
    (pattern.ends query.manner pattern.refersBack text [] spot).filter fun outcome =>
      query.accepts spot outcome.1
  (Regex.farthest outcomes).map fun outcome => (spot.index, outcome.1.index)

/-- The first match from a position on. -/
def Query.find? (query : Query) (text : List Char) (index : Nat) : Option (Nat × Nat) :=
  let spot := Regex.spotAt text index
  (spot.all spot.rest.length).findSome? (query.matchAt? text)

/-- The texts of all matches in a line.  Empty ones do not count. -/
def Query.found (query : Query) (text : List Char) : (bound : Nat) → (index : Nat) → List String
  | 0, _ => []
  | bound + 1, index =>
    match query.find? text index with
    | none => []
    | some (first, last) =>
      if first = last then
        if first < text.length then query.found text bound (first + 1) else []
      else
        String.ofList ((text.drop first).take (last - first)) :: query.found text bound last

/-- A line with its number, and whether it is one that was searched for. -/
structure Row where
  number : Nat
  text : String
  isMatch : Bool

/-- The rows around those that were found. -/
def withContext (rows : List Row) (before after : Nat) : List Row :=
  let found := (rows.filter Row.isMatch).map Row.number
  rows.filter fun row =>
    found.any fun number => number ≤ row.number + before && row.number ≤ number + after

/-- The rows up to so many that were found, with all that follow those. -/
def upTo (limit : Nat) : List Row → List Row
  | [] => []
  | row :: rows =>
    if row.isMatch then
      match limit with
      | 0 => []
      | limit + 1 => row :: upTo limit rows
    else
      row :: upTo limit rows

/-- The files in a directory and below it. -/
def filesBelow : (bound : Nat) → String → Sh (List String)
  | 0, _ => return []
  | bound + 1, path => do
    match ← look fun tree cwd => tree.list cwd (pathOf path) with
    | .error _ => return [path]
    | .ok names =>
      let mut files := []
      for name in (names.map Octets.encode).mergeSort (fun a b => decide (a ≤ b)) do
        files := files ++ (← filesBelow bound (path ++ "/" ++ name))
      return files

/-- What is shown of a file, where `name` is in front of lines, and whether anything was found. -/
def report (args : Arguments) (query : Query) (name : Option String) (shownName text : String)
    (isFirst : Bool) : Sh Bool := do
  let matchesLine (line : String) : Bool :=
    (query.find? line.toList 0).isSome != args.has 'v'
  let rows := (linesOf text).zipIdx.map fun (line, index) =>
    (⟨index + 1, line, matchesLine line⟩ : Row)
  let rows := match (args.value? 'm').bind nat? with
    | some limit => upTo limit rows
    | none => rows
  let count := (rows.filter Row.isMatch).length
  let front (mark : String) : String := match name with
    | some name => name ++ mark
    | none => ""
  if args.has 'q' then
    return count > 0
  else if args.has 'l' || args.has 'L' then
    if (count > 0) == args.has 'l' then
      say (shownName ++ "\n")
    return (count > 0) == args.has 'l'
  else if args.has 'c' then
    say (front ":" ++ Nat.repr count ++ "\n")
    return count > 0
  else
    let number (row : Row) (mark : String) : String :=
      if args.has 'n' then Nat.repr row.number ++ mark else ""
    if args.has 'o' then
      for row in rows do
        if row.isMatch && !args.has 'v' then
          for part in query.found row.text.toList (row.text.length + 1) 0 do
            say (front ":" ++ number row ":" ++ part ++ "\n")
    else
      let size (letter : Char) : Nat :=
        ((args.value? letter <|> args.value? 'C').bind nat?).getD 0
      let shown := withContext rows (size 'B') (size 'A')
      let hasContext := args.has 'A' || args.has 'B' || args.has 'C'
      let mut last : Option Nat := if isFirst then none else some 0
      for row in shown do
        let isApart := last.any fun number => number = 0 || number + 1 < row.number
        if hasContext && isApart then
          say "--\n"
        let mark := if row.isMatch then ":" else "-"
        say (front mark ++ number row mark ++ row.text ++ "\n")
        last := some row.number
    return count > 0

/-- How the patterns are written. -/
def dialectOf (args : Arguments) : Regex.Dialect :=
  { extended := args.has 'E' || args.has 'P', lenient := true, refusesBareClass := true }

/-- The patterns that a text spells, one a line. -/
def patternsOf (args : Arguments) (text : String) : Except Regex.Problem (List Regex) :=
  (text.splitOn "\n").mapM fun line =>
    if args.has 'F' then .ok (literal line.toList)
    else Regex.parse (dialectOf args) line

/-- The sign at the start of an extended expression that repeats nothing. -/
def straySign? (args : Arguments) (text : String) : Option Char :=
  if args.has 'E' && !args.has 'F' then
    text.toList.head?.filter fun c => c = '*' || c = '+' || c = '?'
  else
    none

end Grep

open Grep in
def grepWith (args : Arguments) : Sh Nat := do
  let mut texts := args.values 'e'
  for path in args.values 'f' do
    match ← readFile path with
    | .ok text => texts := texts ++ [if text = "" then "" else "\n".intercalate (linesOf text)]
    | .error error =>
      complain "grep" (path ++ ": " ++ error.reason)
      return 2
  let isGiven := args.has 'e' || args.has 'f'
  if !isGiven && args.operands.isEmpty then
    Sh.complain "Usage: grep [OPTION]... PATTERNS [FILE]..."
    Sh.complain (tryHelp "grep")
    return 2
  let text := if isGiven then "\n".intercalate texts else args.operands.head?.getD ""
  let operands := if isGiven then args.operands else args.operands.tail
  match straySign? args text with
  | some sign =>
    complain "grep" ("warning: " ++ String.singleton sign ++ " at start of expression")
  | none => pure ()
  match patternsOf args text with
  | .error problem =>
    complain "grep" problem.message
    return 2
  | .ok patterns =>
    let query : Query := {
      patterns := patterns
      manner := { ignoreCase := args.has 'i' || args.has 'y' }
      words := args.has 'w'
      lines := args.has 'x' }
    let isRecursive := args.has 'r' || args.has 'R'
    let operands :=
      if !operands.isEmpty then operands else if isRecursive then ["."] else ["-"]
    let mut found := false
    let mut failed := false
    let mut isFirst := true
    let named := (operands.length > 1 || isRecursive || args.has 'H') && !args.has 'h'
    for operand in operands do
      let files ← if isRecursive && operand ≠ "-" &&
          (← look fun tree cwd => tree.isDirectoryAt cwd (pathOf operand)) then
        filesBelow 100 operand
      else
        pure [operand]
      for file in files do
        let file := if args.operands.length < 2 && isRecursive && file.startsWith "./" then
            (file.drop 2).toString
          else
            file
        let result ← if file = "-" then readAll 0 else readFile file
        match result with
        | .ok text =>
          let shown := if file = "-" then "(standard input)" else file
          let isFound ← report args query (if named then some shown else none) shown text isFirst
          if isFound then
            found := true
            isFirst := false
        | .error error =>
          failed := true
          unless args.has 's' do
            complain "grep" (file ++ ": " ++ error.reason)
    return if failed && !(args.has 'q' && found) then 2 else if found then 0 else 1

def grepOptions : OptionSpec where
  flags := "EFGPivclLnoqshHwxyrRaIUzT"
  valued := "efmABCD"
  long := [("extended-regexp", 'E'), ("fixed-strings", 'F'), ("ignore-case", 'i'),
    ("invert-match", 'v'), ("count", 'c'), ("line-number", 'n'), ("quiet", 'q'), ("silent", 'q'),
    ("only-matching", 'o'), ("files-with-matches", 'l'), ("word-regexp", 'w'), ("line-regexp", 'x'),
    ("regexp", 'e'), ("file", 'f'), ("max-count", 'm'), ("recursive", 'r'), ("no-filename", 'h'),
    ("with-filename", 'H'), ("no-messages", 's'), ("color", 'T'), ("text", 'a')]

/-- Refuses a call of `grep` whose options make no sense. -/
def refuseGrep (message : String) : Sh Nat := do
  complain "grep" message
  Sh.complain "Usage: grep [OPTION]... PATTERNS [FILE]..."
  Sh.complain (tryHelp "grep")
  return 2

def grep : Program := fun args => do
  let spelled := args.map fun argument =>
    match argument.toList with
    | '-' :: d :: ds =>
      if (d :: ds).all Char.isDigit then "-C" ++ String.ofList (d :: ds) else argument
    | _ => argument
  match grepOptions.parse none spelled with
  | .ok args => grepWith args
  | .error (.unknown letter) =>
    refuseGrep ("invalid option -- " ++ quote (String.singleton letter))
  | .error (.unknownLong long) => refuseGrep ("unrecognized option " ++ quote ("--" ++ long))
  | .error (.valueMissing letter) =>
    refuseGrep ("option requires an argument -- " ++ quote (String.singleton letter))

end Desugar.Utility
