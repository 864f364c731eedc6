import Desugar.Shell.Cursor
import Desugar.Shell.Fields
import Desugar.Shell.Format
import Desugar.Shell.Options
import Desugar.Shell.Test

/-!
# Commands of the shell

The commands that work on the shell itself, or that it has for speed.  Those that run other commands
are with the interpreter.
-/

namespace Desugar.Shell.Builtin

open Sh

/-- The number that an argument spells. -/
def number (text : String) : Sh Nat := do
  match Text.natOfDigits? text.toList with
  | some value => if value < 2147483648 then return value else fail ("Illegal number: " ++ text)
  | none => fail ("Illegal number: " ++ text)

/-- Writes what a command shows.  An output that takes nothing is an error. -/
def sayOrFail (name octets : String) : Sh Nat := do
  match ← emit 1 octets with
  | .ok () => return 0
  | .error _ =>
    if octets = "" then
      return 0
    else
      warn (name ++ ": I/O error")
      return 1

def echo : Program := fun args => sayOrFail "echo" (echoText args)

/-- Refuses options, and takes off the mark that ends them. -/
def noOptions (args : List String) : Sh (List String) := do
  match args with
  | "--" :: args => return args
  | argument :: _ =>
    match argument.toList with
    | '-' :: letter :: _ => fail ("Illegal option -" ++ String.singleton letter)
    | _ => return args
  | [] => return []

def printf : Program := fun args => do
  match ← noOptions args with
  | [] => fail "usage: printf format [arg ...]"
  | format :: args =>
    let result := Format.apply format args
    let status ← sayOrFail "printf" result.output
    for complaint in result.complaints do
      warn complaint
    match result.mistake with
    | some message => fail message
    | none => return if result.complaints.isEmpty then status else 1

/-- The result of a condition as a status. -/
def test : Program := fun args => do
  let state ← get
  match Test.evaluate ⟨state.world.tree, state.world.cwd, state.executables⟩ args with
  | .ok result => return if result then 0 else 1
  | .error message => fail message

/-- A condition whose last argument is the bracket that closes it.  Only the start of that argument
counts. -/
def bracket : Program := fun args => do
  if args.getLast?.any (·.startsWith "]") then
    test args.dropLast
  else
    fail "missing ]"

/-! ## The working directory -/

/-- Goes to a directory, if there is one. -/
def enter (path : String) : Sh Bool := do
  match ← look fun tree cwd => tree.resolve cwd (pathOf path) with
  | .ok place =>
    if ← look fun tree _ => tree.isDirectory place then
      let old := (← value? "PWD").getD (placeText (← get).world.cwd)
      modify fun state => { state with world := { state.world with cwd := place } }
      assign "OLDPWD" old
      assign "PWD" (placeText place)
      return true
    else
      return false
  | .error _ => return false

def cd : Program := fun args => do
  let args := match args with
    | "-P" :: args | "-L" :: args | "--" :: args => args
    | args => args
  match args with
  | [] =>
    let home := (← value? "HOME").getD ""
    if home = "" then
      return 0
    else if ← enter home then
      return 0
    else
      fail ("can't cd to " ++ home)
  | "" :: _ => return 0
  | "-" :: _ =>
    let old := (← value? "OLDPWD").getD ""
    if ← enter old then
      say (old ++ "\n")
      return 0
    else
      fail ("can't cd to " ++ old)
  | target :: _ => if ← enter target then return 0 else fail ("can't cd to " ++ target)

def pwd : Program := fun _ => do
  sayOrFail "pwd" (placeText (← get).world.cwd ++ "\n")

/-! ## The flow of a script -/

def exit : Program := fun args => do
  match args with
  | [] => throw (.exited (← get).status)
  | code :: _ => throw (.exited ((← number code) % 256))

def return' : Program := fun args => do
  match args with
  | [] => throw (.returning (← get).status)
  | code :: _ => throw (.returning (← number code))

/-- Ends loops, or rounds of loops. -/
def leaveLoop (leave : Nat → Halt) : Program := fun args => do
  let levels ← match args with
    | [] => pure 1
    | text :: _ => number text
  if levels = 0 then
    fail ("Illegal number: " ++ args.head?.getD "")
  let depth := (← get).loopDepth
  if depth = 0 then return 0 else throw (leave (min levels depth))

def shift : Program := fun args => do
  let count ← match args with
    | [] => pure 1
    | text :: _ => number text
  if count ≤ (← get).params.length then
    modify fun state => { state with params := state.params.drop count }
    return 0
  else
    fail "can't shift that many"

/-! ## Variables -/

/-- A text in single quotes, so that a script can read it. -/
def quoteText (text : String) : String :=
  "'" ++ "'\"'\"'".intercalate (text.splitOn "'") ++ "'"

/-- The variables in order of their names. -/
def sortedVars : Sh (List (String × Variable)) := do
  return (← get).vars.mergeSort (fun a b => decide (a.1 ≤ b.1))

/-- A variable as a script sets it. -/
def showVar (name : String) (entry : Variable) : String :=
  match entry.value with
  | some value => name ++ "=" ++ quoteText value
  | none => name

/-- Sets options and parameters. -/
def set' : Program := fun args => do
  if args.isEmpty then
    for (name, entry) in ← sortedVars do
      if entry.value.isSome then
        say (showVar name entry ++ "\n")
    return 0
  let (_, ended, params) ← Options.parse false args
  if ended || !params.isEmpty then
    modify fun state => { state with params := params }
  return 0

/-- The name and, if there is one, the value of an assignment in an argument. -/
def splitAssignment (argument : String) : String × Option String :=
  let name := argument.toList.takeWhile (· ≠ '=')
  match argument.toList.drop name.length with
  | _ :: value => (String.ofList name, some (String.ofList value))
  | [] => (String.ofList name, none)

/-- Refuses what is no name. -/
def checkName (name : String) : Sh Unit := do
  unless isName name do
    fail (name ++ ": bad variable name")

/-- Marks variables, and sets those that have a value. -/
def markVars (word : String) (hasMark : Variable → Bool) (mark : Variable → Variable) :
    Program := fun args => do
  match args with
  | [] | "-p" :: _ =>
    for (name, entry) in ← sortedVars do
      if hasMark entry then
        say (word ++ " " ++ showVar name entry ++ "\n")
    return 0
  | _ =>
    for argument in (if args.head? = some "--" then args.tail else args) do
      let (name, value?) := splitAssignment argument
      checkName name
      match value? with
      | some value => assign name value
      | none => pure ()
      setVariable name (some (mark ((← findVar? name).getD {})))
    return 0

def export' : Program :=
  markVars "export" Variable.exported fun entry => { entry with exported := true }

def readonly : Program :=
  markVars "readonly" Variable.readOnly fun entry => { entry with readOnly := true }

/-- Keeps the variable of a name, to be given back when the function ends. -/
def keepVar (name : String) : Sh Unit := do
  let state ← get
  match state.locals with
  | [] => return
  | kept :: outer =>
    unless (kept.lookup name).isSome do
      set { state with locals := ((name, state.vars.lookup name) :: kept) :: outer }

def local' : Program := fun args => do
  if (← get).locals.isEmpty then
    fail "not in a function"
  for argument in args do
    let (name, value?) := splitAssignment argument
    if argument = "-" then
      pure ()
    else
      checkName name
      keepVar name
      match value? with
      | some value => assign name value
      | none => pure ()
  return 0

def unset : Program := fun args => do
  let (ofFunctions, names) := match args with
    | "-f" :: names => (true, names)
    | "-v" :: names | "--" :: names => (false, names)
    | names => (false, names)
  for name in names do
    if ofFunctions then
      modify fun state => { state with functions := state.functions.filter (·.1 ≠ name) }
    else
      checkName name
      if ((← findVar? name).getD {}).readOnly then
        fail (name ++ ": is read only")
      setVariable name none
  return 0

/-! ## Input -/

/-- A line as `read` takes it: its characters, how many octets it takes, and whether it has an end.
Without `raw`, a backslash quotes a character and joins lines. -/
def lineMarks (raw : Bool) : List Char → List Mark × Nat × Bool
  | [] => ([], 0, false)
  | '\n' :: _ => ([], 1, true)
  | '\\' :: c :: cs =>
    if raw then
      let (marks, taken, ended) := lineMarks raw (c :: cs)
      (⟨'\\', false⟩ :: marks, taken + 1, ended)
    else
      let (marks, taken, ended) := lineMarks raw cs
      (if c = '\n' then marks else ⟨c, true⟩ :: marks, taken + 2, ended)
  | c :: cs =>
    let (marks, taken, ended) := lineMarks raw cs
    (⟨c, false⟩ :: marks, taken + 1, ended)

/-- The options of `read`, and the names after them. -/
def readOptions : List String → Sh (Bool × List String)
  | "-r" :: args => do return (true, (← readOptions args).2)
  | "-p" :: prompt :: args => do
    let _ ← emit 2 prompt
    readOptions args
  | "--" :: args => return (false, args)
  | argument :: args => do
    match argument.toList with
    | '-' :: letter :: _ => fail ("Illegal option -" ++ String.singleton letter)
    | _ => return (false, argument :: args)
  | [] => return (false, [])

def read : Program := fun args => do
  let (raw, names) ← readOptions args
  if names.isEmpty then
    fail "arg count"
  match ← unread 0 with
  | .error _ =>
    for name in names do
      checkName name
      assign name ""
    return 1
  | .ok (bytes, number, after) =>
    let (marks, taken, ended) := lineMarks raw (Octets.ofBytes bytes).toList
    advance number taken after
    let values := Fields.ofLine (← separators) names.length
      (marks.filter (·.char ≠ '\x00'))
    for (name, value) in names.zip values do
      checkName name
      assign name value
    return if ended then 0 else 1

/-! ## Options of scripts -/

/-- What `getopts` has found: the status, the number of the next argument, how far it has come in
the one before that, the letter and the value. -/
structure OptionStep where
  status : Nat
  index : Nat
  offset : Nat := 0
  letter : String := "?"
  value : Option String := none
  complaint : Option String := none

/-- The next option in parameters.  A colon after a letter in `spec` says that it has a value, and
one at the start that nothing is complained about. -/
def nextOption (spec : List Char) (params : List String) (index offset : Nat) : OptionStep :=
  let silent := spec.head? = some ':'
  let isStart := offset = 0
  let current := (params[if isStart then index - 1 else index - 2]?.getD "").toList
  let next := if isStart then index + 1 else index
  if isStart && (current.head? ≠ some '-' || current.length < 2) then
    { status := 1, index := index }
  else if isStart && current = ['-', '-'] then
    { status := 1, index := next }
  else
    match current.drop (max offset 1) with
    | [] => { status := 1, index := index }
    | letter :: more =>
      let name := String.singleton letter
      let after := if more.isEmpty then 0 else max offset 1 + 1
      let known := spec.dropWhile (· ≠ letter)
      if letter = ':' || known.isEmpty then
        { status := 0, index := next, offset := after
          value := if silent then some name else none
          complaint := if silent then none else some ("Illegal option -" ++ name) }
      else if known[1]? ≠ some ':' then
        { status := 0, index := next, offset := after, letter := name }
      else if !more.isEmpty then
        { status := 0, index := next, letter := name, value := some (String.ofList more) }
      else
        match params[next - 1]? with
        | some value => { status := 0, index := next + 1, letter := name, value := some value }
        | none =>
          { status := 0, index := next, letter := if silent then ":" else "?"
            value := if silent then some name else none
            complaint := if silent then none else some ("No arg for -" ++ name ++ " option") }

def getopts : Program := fun args => do
  match args with
  | spec :: name :: rest =>
    let state ← get
    let params := if rest.isEmpty then state.params else rest
    let index := ((← value? "OPTIND").bind fun text => Text.natOfDigits? text.toList).getD 1
    let step := nextOption spec.toList params index state.optionOffset
    match step.complaint with
    | some message => complain message
    | none => pure ()
    assign "OPTIND" (Nat.repr step.index)
    modify fun state => { state with optionOffset := step.offset }
    match step.value with
    | some value => assign "OPTARG" value
    | none => setVariable "OPTARG" none
    checkName name
    assign name step.letter
    return step.status
  | _ => fail "Usage: getopts optstring var [arg]"

/-! ## Signals -/

/-- Arranges what is done on signals. -/
def trap : Program := fun args => do
  let args := if args.head? = some "--" then args.tail else args
  match args with
  | [] =>
    for (signal, action) in (← get).traps.mergeSort (fun a b => decide (a.1 ≤ b.1)) do
      say ("trap -- " ++ quoteText action ++ " " ++ Signal.name signal ++ "\n")
    return 0
  | first :: more =>
    let (action?, signals) :=
      if more.isEmpty then (none, args)
      else if first = "-" then (none, more)
      else (some first, more)
    for text in signals do
      match Signal.ofText? text with
      | none =>
        complain ("trap: " ++ text ++ ": bad trap")
        return 1
      | some signal =>
        modify fun state =>
          let others := state.traps.filter (·.1 ≠ signal)
          { state with traps := match action? with
            | some action => (signal, action) :: others
            | none => others }
    return 0

/-- Sends a signal, which matters only if it is for the shell itself. -/
def signalTo (signal : Nat) (target : String) : Sh Nat := do
  let digits := if target.startsWith "-" then (target.drop 1).toString else target
  let process ← number digits
  let state ← get
  if process = state.process then
    match state.traps.lookup signal with
    | some action =>
      if signal ≠ 9 && action ≠ "" then
        modify fun state => { state with pending := state.pending ++ [signal] }
      if signal = 9 then
        throw (.killed signal)
      return 0
    | none => if Signal.isHarmless signal then return 0 else throw (.killed signal)
  else if some process = state.background then
    return 0
  else
    warn "No such process\n"
    return 1

def kill : Program := fun args => do
  let usage : Sh Nat := fail
    ("Usage: kill [-s sigspec | -signum | -sigspec] [pid | job]... or\nkill -l [exitstatus]")
  let send (name : String) (targets : List String) : Sh Nat := do
    match Signal.ofText? name with
    | none => fail ("invalid signal number or name: " ++ name)
    | some signal =>
      if targets.isEmpty then
        usage
      else
        let mut status := 0
        for target in targets do
          status := max status (← signalTo signal target)
        return status
  match args with
  | "-l" :: rest =>
    match rest with
    | [] =>
      say (String.join (Signal.names.map (· ++ "\n")))
      return 0
    | text :: _ =>
      let code ← number text
      say (Signal.name (if code > 128 then code - 128 else code) ++ "\n")
      return 0
  | "-s" :: name :: targets => send name targets
  | "--" :: targets => send "TERM" targets
  | argument :: targets =>
    match argument.toList with
    | '-' :: name =>
      if (Signal.ofText? (String.ofList name)).isSome then
        send (String.ofList name) targets
      else
        fail ("Illegal option -" ++ String.ofList (name.take 1))
    | _ => send "TERM" args
  | [] => usage

/-! ## The rest -/

/-- A number in octal digits, at least four of them. -/
def octal (value : Nat) : String :=
  let digits := Nat.toDigits 8 value
  String.ofList (List.replicate (4 - digits.length) '0' ++ digits)

/-- The permissions that a mask leaves, for the owner, the group and all others. -/
def permissions (mask : Nat) : String :=
  let letters (digit : Nat) : String :=
    String.ofList ((['r', 'w', 'x'].zip [4, 2, 1]).filterMap fun (letter, bit) =>
      if digit / bit % 2 = 0 then some letter else none)
  "u=" ++ letters (mask / 64) ++ ",g=" ++ letters (mask / 8) ++ ",o=" ++ letters mask

def umask : Program := fun args => do
  match args with
  | [] =>
    say (octal (← get).mask ++ "\n")
    return 0
  | "-S" :: _ =>
    say (permissions (← get).mask ++ "\n")
    return 0
  | text :: _ =>
    if text.toList.all isOctalDigit then
      let value := text.toList.foldl (fun value c => 8 * value + Text.digitValue c) 0
      modify fun state => { state with mask := value % 512 }
      return 0
    else if text.toList.head?.any Char.isDigit then
      fail ("Illegal number: " ++ text)
    else
      return 0

/-- Shows how long the shell and its commands have been running, which is no time. -/
def times : Program := fun _ => do
  let row := "0m0.000000s 0m0.000000s\n"
  say (row ++ row)
  return 0

/-- Goes on with a command that was stopped.  There is never one. -/
def resume : Program := fun _ => fail "No current job"

def wait : Program := fun args => do
  match args with
  | [] => return 0
  | text :: _ =>
    let process ← number text
    let state ← get
    return if some process = state.background then state.backgroundStatus else 127

/-- A command that does nothing. -/
def nothing (status : Nat) : Program := fun _ => return status

/-- The commands by their names. -/
def all : List (String × Program) :=
  [(":", nothing 0), ("true", nothing 0), ("false", nothing 1), ("echo", echo), ("printf", printf),
   ("test", test), ("[", bracket), ("cd", cd), ("chdir", cd), ("pwd", pwd), ("exit", exit),
   ("return", return'), ("break", leaveLoop .breaking), ("continue", leaveLoop .continuing),
   ("shift", shift), ("set", set'), ("export", export'), ("readonly", readonly),
   ("local", local'), ("unset", unset), ("read", read), ("getopts", getopts), ("trap", trap),
   ("kill", kill), ("umask", umask), ("wait", wait), ("times", times), ("hash", nothing 0),
   ("alias", nothing 0), ("unalias", nothing 0), ("ulimit", nothing 0), ("jobs", nothing 0),
   ("bg", resume), ("fg", resume)]

/-- The commands that run others. -/
def interpreted : List String :=
  [".", "command", "eval", "exec", "type"]

/-- Whether a name is that of a command of the shell. -/
def isBuiltin (name : String) : Bool :=
  (all.lookup name).isSome || interpreted.contains name

end Desugar.Shell.Builtin
