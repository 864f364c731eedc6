import Desugar.Shell.Builtins
import Desugar.Utility.Files

/-!
# Programs that run others

Programs that start other programs: with another environment, for arguments from the input, or for
files that are found.
-/

namespace Desugar.Utility

open Shell Sh

/-- A program that runs other programs, through the function that it is given. -/
abbrev Wrapper := (call : List String → Sh Nat) → Program

/-- Runs a program for another one, which complains where there is none. -/
def start (name : String) (call : List String → Sh Nat) (quoted : Bool) (words : List String) :
    Sh Nat := do
  let result ← attempt (call words)
  match result with
  | .error (.failed status) =>
    let program := words.head?.getD ""
    let shown := if quoted then quote program else program
    complain name (shown ++ ": " ++
      (if status = 127 then SystemError.noEntry.reason else SystemError.permissionDenied.reason))
    return status
  | .error (.exited status) => return status
  | .error (.killed signal) => return 128 + signal
  | _ => ExceptT.mk (pure result)

/-! ## The environment -/

/-- The exported variables, as texts. -/
def environment : Sh (List String) := do
  return (← get).vars.filterMap fun (name, entry) =>
    if entry.exported then entry.value.map fun value => name ++ "=" ++ value else none

/-- Exports variables and runs what follows them. -/
def envWith (call : List String → Sh Nat) : List String → Sh Nat
  | [] => do
    say (unlines (← environment))
    return 0
  | "-i" :: args | "-" :: args => do
    modify fun state => { state with
      vars := state.vars.map fun (name, entry) => (name, { entry with exported := false }) }
    envWith call args
  | "-u" :: name :: args => do
    setVariable name none
    envWith call args
  | "--" :: args => envWith call args
  | argument :: args => do
    let (name, value?) := Builtin.splitAssignment argument
    match value? with
    | some value =>
      setVariable name (some { value := some value, exported := true })
      envWith call args
    | none => start "env" call true (argument :: args)

def env : Wrapper := fun call args => do
  let vars := (← get).vars
  andFinally (envWith call args) (modify fun state => { state with vars := vars })

def printenv : Program := fun args => do
  match args with
  | [] =>
    say (unlines (← environment))
    return 0
  | names =>
    forAll (fun name => do
      match (← findVar? name).filter Variable.exported with
      | some entry =>
        say (entry.value.getD "" ++ "\n")
        return 0
      | none => return 1) names

/-- A program that runs what follows an argument of its own. -/
def skipping (name : String) (count : Nat) : Wrapper := fun call args => do
  let isOption (argument : String) : Bool := argument.startsWith "-"
  match (args.dropWhile isOption).drop count with
  | [] => refuse name "missing operand" 125
  | words => start name call true words

/-! ## Arguments from the input -/

/-- The words of an input, where quotes and backslashes keep blanks. -/
def inputWords : (bound : Nat) → (word : Option (List Char)) → List Char → List String
  | 0, _, _ => []
  | _, word, [] => (word.map fun cs => String.ofList cs.reverse).toList
  | bound + 1, word, c :: cs =>
    if c = ' ' || c = '\t' || c = '\n' then
      (word.map fun cs => String.ofList cs.reverse).toList ++ inputWords bound none cs
    else if c = '\'' || c = '"' then
      let inner := cs.takeWhile (· ≠ c)
      inputWords bound (some (inner.reverse ++ word.getD [])) (cs.drop (inner.length + 1))
    else if c = '\\' then
      match cs with
      | d :: rest => inputWords bound (some (d :: word.getD [])) rest
      | [] => inputWords bound word []
    else
      inputWords bound (some (c :: word.getD [])) cs

/-- Lists of so many elements. -/
def inGroups {α : Type} (size : Nat) : (bound : Nat) → List α → List (List α)
  | 0, _ => []
  | _, [] => []
  | bound + 1, items => items.take size :: inGroups size bound (items.drop size)

/-- The options of `xargs`, and the words of its command. -/
def xargsOptions : Arguments → List String → Arguments
  | args, [] => args
  | args, argument :: rest =>
    match argument.toList with
    | ['-', letter] =>
      if "0rtpx".toList.contains letter then
        xargsOptions { args with options := args.options ++ [(letter, "")] } rest
      else
        match rest with
        | value :: rest =>
          xargsOptions { args with options := args.options ++ [(letter, value)] } rest
        | [] => args
    | '-' :: letter :: more =>
      if argument = "--" then
        { args with operands := rest }
      else if argument = "--no-run-if-empty" then
        xargsOptions { args with options := args.options ++ [('r', "")] } rest
      else if argument = "--null" then
        xargsOptions { args with options := args.options ++ [('0', "")] } rest
      else
        xargsOptions { args with options := args.options ++ [(letter, String.ofList more)] } rest
    | _ => { args with operands := argument :: rest }
termination_by _ args => args.length

/-- A text with every occurrence of another replaced. -/
def replaceAll (text old new : String) : String :=
  if old = "" then text else new.intercalate (text.splitOn old)

def xargs : Wrapper := fun call args => do
  let args := xargsOptions {} args
  let command := if args.operands.isEmpty then ["echo"] else args.operands
  match ← readAll 0 with
  | .error error =>
    complain "xargs" ("read error: " ++ error.reason)
    return 1
  | .ok text =>
    let items :=
      if args.has '0' then (text.splitOn "\x00").filter (· ≠ "")
      else match args.value? 'd' with
        | some delimiter =>
          let delimiter := if delimiter = "\\n" then "\n" else delimiter
          let parts := text.splitOn delimiter
          if parts.getLast? = some "" then parts.dropLast else parts
        | none =>
          if args.has 'I' then
            ((linesOf text).map fun line =>
              String.ofList (line.toList.dropWhile fun c => c = ' ' || c = '\t')).filter (· ≠ "")
          else
            inputWords (text.length + 1) none text.toList
    let calls : List (List String) :=
      match args.value? 'I' with
      | some mark => items.map fun item => command.map fun word => replaceAll word mark item
      | none =>
        match (args.value? 'n' <|> args.value? 'L').bind nat? with
        | some size =>
          if items.isEmpty then (if args.has 'r' then [] else [command])
          else (inGroups (max size 1) items.length items).map fun group => command ++ group
        | none => if items.isEmpty && args.has 'r' then [] else [command ++ items]
    let mut status := 0
    let input ← openStream (.device .null)
    for words in calls do
      if args.has 't' then
        Sh.complain (" ".intercalate words)
      let result ← andFinally
        (do
          let old ← streamNumber? 0
          connect 0 (some input)
          let result ← start "xargs" call false words
          connect 0 old
          pure result)
        (pure ())
      if result = 126 || result = 127 then
        return result
      else if result = 255 then
        complain "xargs" (words.head?.getD "" ++ ": exited with status 255; aborting")
        return 124
      else if result ≠ 0 then
        status := 123
    return status

/-! ## Files that are found -/

/-- A condition on a file, or something that is done with it. -/
inductive FindTest where
  | named (pattern : Pattern) (ignoreCase : Bool)
  | atPath (pattern : Pattern)
  | ofType (letter : Char)
  | empty
  | always (result : Bool)
  | prune
  | print (ending : String)
  | delete
  | execute (words : List String)
  /-- A program that is run once, for all files. -/
  | gather (words : List String)
  | not (test : FindTest)
  | both (first second : FindTest)
  | either (first second : FindTest)

namespace FindTest

/-- Whether a test does something, so that files are not printed as well. -/
def acts : FindTest → Bool
  | .print _ | .delete | .execute _ | .gather _ => true
  | .not test => test.acts
  | .both first second | .either first second => first.acts || second.acts
  | _ => false

/-- The words of a command up to its end, and what follows it. -/
def commandWords : List String → Option (List String × Bool × List String)
  | [] => none
  | ";" :: rest => some ([], false, rest)
  | "\x7b\x7d" :: "+" :: rest => some ([], true, rest)
  | word :: rest => (commandWords rest).map fun (words, all, rest) => (word :: words, all, rest)

mutual

/-- Tests of which one has to hold. -/
def disjunction (words : List String) : (bound : Nat) → Except String (FindTest × List String)
  | 0 => .error "invalid expression"
  | bound + 1 => do
    let (first, rest) ← conjunction words bound
    match rest with
    | "-o" :: rest | "-or" :: rest =>
      let (second, rest) ← disjunction rest bound
      return (.either first second, rest)
    | _ => return (first, rest)
termination_by structural bound => bound

/-- Tests that all have to hold. -/
def conjunction (words : List String) : (bound : Nat) → Except String (FindTest × List String)
  | 0 => .error "invalid expression"
  | bound + 1 => do
    let (first, rest) ← primary words bound
    match rest with
    | [] | "-o" :: _ | "-or" :: _ | ")" :: _ => return (first, rest)
    | "-a" :: rest | "-and" :: rest | rest =>
      let (second, rest) ← conjunction rest bound
      return (.both first second, rest)
termination_by structural bound => bound

/-- A single test, or tests in parentheses. -/
def primary (words : List String) : (bound : Nat) → Except String (FindTest × List String)
  | 0 => .error "invalid expression"
  | bound + 1 => do
    let patternOf (text : String) : Pattern := Pattern.ofMarks (marksOf text false)
    match words with
    | [] => .error "invalid expression"
    | "!" :: rest | "-not" :: rest =>
      let (test, rest) ← primary rest bound
      return (.not test, rest)
    | "(" :: rest =>
      let (test, rest) ← disjunction rest bound
      match rest with
      | ")" :: rest => return (test, rest)
      | _ =>
        .error "invalid expression; I was expecting to find a ')' somewhere but did not see one."
    | "-name" :: text :: rest => return (.named (patternOf text) false, rest)
    | "-iname" :: text :: rest =>
      return (.named (patternOf (text.map Char.toLower)) true, rest)
    | "-path" :: text :: rest | "-wholename" :: text :: rest =>
      return (.atPath (patternOf text), rest)
    | "-type" :: text :: rest => return (.ofType (text.toList.headD 'f'), rest)
    | "-maxdepth" :: _ :: rest | "-mindepth" :: _ :: rest => return (.always true, rest)
    | "-depth" :: rest | "-true" :: rest => return (.always true, rest)
    | "-false" :: rest => return (.always false, rest)
    | "-empty" :: rest => return (.empty, rest)
    | "-prune" :: rest => return (.prune, rest)
    | "-print" :: rest => return (.print "\n", rest)
    | "-print0" :: rest => return (.print "\x00", rest)
    | "-delete" :: rest => return (.delete, rest)
    | "-exec" :: rest =>
      match commandWords rest with
      | some (words, true, rest) => return (.gather words, rest)
      | some (words, false, rest) => return (.execute words, rest)
      | none => .error "missing argument to \x60-exec'"
    | word :: [] =>
      if ["-name", "-iname", "-path", "-type", "-maxdepth", "-mindepth"].contains word then
        .error ("missing argument to \x60" ++ word ++ "'")
      else
        .error ("unknown predicate \x60" ++ word ++ "'")
    | word :: _ => .error ("unknown predicate \x60" ++ word ++ "'")
termination_by structural bound => bound

end

/-- Tests a file, and does what the test says.  The result is whether the test holds, whether
nothing below the file is looked at, and the files that were gathered. -/
def apply (call : List String → Sh Nat) (path : String) : FindTest → Sh (Bool × Bool × List String)
  | .named pattern ignoreCase => do
    let name := baseName path
    let name := if ignoreCase then name.map Char.toLower else name
    return (pattern.matchesText name.toList, false, [])
  | .atPath pattern => return (pattern.matchesText path.toList, false, [])
  | .ofType letter => do
    let place := (← look fun tree cwd => (tree.resolve cwd (pathOf path)).toOption)
    let node? ← look fun tree _ => place.bind tree.node?
    let holds := match letter, node? with
      | 'f', some (.file _) | 'd', some .directory | 'c', some (.device _) => true
      | _, _ => false
    return (holds, false, [])
  | .empty => do
    let place := (← look fun tree cwd => (tree.resolve cwd (pathOf path)).toOption)
    let holds ← look fun tree _ => match place, place.bind tree.node? with
      | _, some (.file content) => content.isEmpty
      | some place, some .directory => (tree.childNames place).isEmpty
      | _, _ => false
    return (holds, false, [])
  | .always result => return (result, false, [])
  | .prune => return (true, true, [])
  | .print ending => do
    say (path ++ ending)
    return (true, false, [])
  | .delete => do
    let isDirectory ← look fun tree cwd => tree.isDirectoryAt cwd (pathOf path)
    let result ← if isDirectory then
        change fun tree cwd => tree.removeDirectory cwd (pathOf path)
      else
        change fun tree cwd => tree.removeFile cwd (pathOf path)
    match result with
    | .ok () => return (true, false, [])
    | .error error =>
      complain "find" ("cannot delete " ++ quote path ++ ": " ++ error.reason)
      return (false, false, [])
  | .execute words => do
    let status ← start "find" call true (words.map fun word => replaceAll word "\x7b\x7d" path)
    return (status = 0, false, [])
  | .gather _ => return (true, false, [path])
  | .not test => do
    let (holds, pruned, gathered) ← test.apply call path
    return (!holds, pruned, gathered)
  | .both first second => do
    let (holds, pruned, gathered) ← first.apply call path
    if holds then
      let (holds, pruned', gathered') ← second.apply call path
      return (holds, pruned || pruned', gathered ++ gathered')
    else
      return (false, pruned, gathered)
  | .either first second => do
    let (holds, pruned, gathered) ← first.apply call path
    if holds then
      return (true, pruned, gathered)
    else
      let (holds, pruned', gathered') ← second.apply call path
      return (holds, pruned || pruned', gathered ++ gathered')

/-- The program that is run once for all files. -/
def gathering? : FindTest → Option (List String)
  | .gather words => some words
  | .not test => test.gathering?
  | .both first second | .either first second => first.gathering? <|> second.gathering?
  | _ => none

end FindTest

/-- The depth that an option of `find` gives. -/
def findDepth? (option : String) : List String → Option Nat
  | word :: value :: rest =>
    if word = option then nat? value else findDepth? option (value :: rest)
  | _ => none

/-- Tests a file and those below it, these first if so wanted.  The files that were gathered are
given. -/
def findBelow (call : List String → Sh Nat) (test : FindTest) (depthFirst : Bool)
    (least : Nat) (most : Option Nat) : (bound : Nat) → (depth : Nat) → String → Sh (List String)
  | 0, _, _ => return []
  | bound + 1, depth, path => do
    let visit : Sh (Bool × List String) := do
      if depth < least then
        return (false, [])
      else
        let (_, pruned, gathered) ← test.apply call path
        return (pruned, gathered)
    let below : Sh (List String) := do
      if most.any (· ≤ depth) then
        return []
      else
        match ← look fun tree cwd => tree.list cwd (pathOf path) with
        | .error _ => return []
        | .ok names =>
          let mut gathered := []
          for name in (names.map Octets.encode).mergeSort (fun a b => decide (a ≤ b)) do
            let inner := if path.endsWith "/" then path ++ name else path ++ "/" ++ name
            gathered := gathered ++
              (← findBelow call test depthFirst least most bound (depth + 1) inner)
          return gathered
    if depthFirst then
      let inner ← below
      let (_, gathered) ← visit
      return inner ++ gathered
    else
      let (pruned, gathered) ← visit
      if pruned then return gathered else return gathered ++ (← below)

def find : Wrapper := fun call args => do
  let isPath (word : String) : Bool := !(word.startsWith "-" || word = "(" || word = "!")
  let paths := args.takeWhile isPath
  let words := args.drop paths.length
  let test : Except String FindTest :=
    if words.isEmpty then
      .ok (.print "\n")
    else
      match FindTest.disjunction words (8 * (words.length + 2)) with
      | .ok (test, []) => .ok (if test.acts then test else .both test (.print "\n"))
      | .ok (_, word :: _) => .error ("paths must precede expression: \x60" ++ word ++ "'")
      | .error message => .error message
  match test with
  | .error message =>
    complain "find" message
    return 1
  | .ok test =>
    let depthFirst := words.contains "-depth" || words.contains "-delete"
    let mut status := 0
    let mut gathered := []
    for path in (if paths.isEmpty then ["."] else paths) do
      if ← look fun tree cwd => tree.pathExists cwd (pathOf path) then
        gathered := gathered ++ (← findBelow call test depthFirst
          ((findDepth? "-mindepth" words).getD 0) (findDepth? "-maxdepth" words) 200 0 path)
      else
        complain "find" (quote path ++ ": No such file or directory")
        status := 1
    match test.gathering? with
    | some command =>
      unless gathered.isEmpty do
        let result ← start "find" call true (command ++ gathered)
        if result ≠ 0 then
          status := 1
    | none => pure ()
    return status

/-- The programs that run others, by their names. -/
def wrappers : List (String × Wrapper) :=
  [("env", env), ("xargs", xargs), ("find", find), ("nice", skipping "nice" 0),
   ("nohup", skipping "nohup" 0), ("timeout", skipping "timeout" 1)]

end Desugar.Utility
