import Desugar.Shell.Script
import Desugar.Shell.Signal
import Desugar.Shell.Stream

/-!
# The state of a shell

What a shell knows while it runs a script, where its descriptors lead to, and how it can stop early.
All text that a shell handles is octets.
-/

namespace Desugar.Shell

/-- A variable.  One without a value may be exported or read only all the same. -/
structure Variable where
  value : Option String := none
  exported : Bool := false
  readOnly : Bool := false
  deriving DecidableEq, Repr

/-- A running shell. -/
structure State where
  world : World
  /-- All streams that were opened, by their numbers. -/
  streams : Array Stream := #[.device .stdin, .device .stdout, .device .stderr]
  /-- The open descriptors, each with the number of its stream. -/
  descriptors : List (Nat × Nat) := [(0, 0), (1, 1), (2, 2)]
  /-- The files that can be run. -/
  executables : List Place := []
  /-- The name in error messages, which is also parameter zero. -/
  name : String := "sh"
  params : List String := []
  vars : List (String × Variable) := []
  functions : List (String × Command) := []
  /-- The status of the last command. -/
  status : Nat := 0
  /-- The status of the last commands whose output was captured, if there were any. -/
  captureStatus : Option Nat := none
  /-- The letters of the options that are on. -/
  options : List Char := []
  /-- What is run on a signal. -/
  traps : List (Nat × String) := []
  /-- The signals that have come and are still to be dealt with. -/
  pending : List Nat := []
  /-- How many loops are around the command. -/
  loopDepth : Nat := 0
  /-- For each running function, the variables that it has to give back. -/
  locals : List (List (String × Option Variable)) := []
  /-- The texts of the script that are read like files. -/
  documents : List (Nat × Word) := []
  nextDocument : Nat := 0
  /-- The line in error messages. -/
  line : Nat := 0
  /-- The line that the reader of the script has come to. -/
  readingLine : Nat := 0
  /-- The command of the shell that is running, for error messages. -/
  commandName : Option String := none
  /-- The process number of the shell. -/
  process : Nat := 4711
  /-- The process number of the last command that nobody waited for. -/
  background : Option Nat := none
  /-- The status of that command. -/
  backgroundStatus : Nat := 0
  /-- How far `getopts` has come in an argument. -/
  optionOffset : Nat := 0
  /-- Permissions that new files do not get. -/
  mask : Nat := 18

/-- How a shell stops before the end of its script. -/
inductive Halt where
  | exited (status : Nat)
  /-- A mistake that was reported.  It ends the shell unless a command catches it. -/
  | failed (status : Nat)
  /-- A signal. -/
  | killed (signal : Nat)
  /-- The end of so many loops. -/
  | breaking (levels : Nat)
  /-- The next round of a loop, after the end of those inside it. -/
  | continuing (levels : Nat)
  /-- The end of a function or a script. -/
  | returning (status : Nat)
  deriving DecidableEq, Repr

/-- A computation of a shell. -/
abbrev Sh := ExceptT Halt (StateM State)

/-- A program with its arguments.  It gives the status that it ends with. -/
abbrev Program := List String → Sh Nat

namespace Sh

/-- The result of a computation, be it an early stop or not. -/
def attempt {α : Type} (action : Sh α) : Sh (Except Halt α) :=
  ExceptT.mk do return .ok (← action.run)

/-- A computation after which, however it ends, something is done. -/
def andFinally {α : Type} (action : Sh α) (after : Sh Unit) : Sh α := do
  let result ← attempt action
  after
  ExceptT.mk (pure result)

/-! ## Files -/

/-- Reads from the files. -/
def look {α : Type} (query : FileTree → Place → α) : Sh α := do
  let world := (← get).world
  return query world.tree world.cwd

/-- Changes the files, if that succeeds. -/
def change (update : FileTree → Place → Except SystemError FileTree) :
    Sh (Except SystemError Unit) := do
  let state ← get
  match update state.world.tree state.world.cwd with
  | .ok tree =>
    set { state with world := { state.world with tree := tree } }
    return .ok ()
  | .error error => return .error error

/-- The path that octets spell. -/
def pathOf (octets : String) : Path :=
  ⟨Octets.decode octets⟩

/-- The octets of a place, as an absolute path. -/
def placeText (place : Place) : String :=
  Octets.encode (Path.ofNames true place).text

/-! ## Descriptors -/

/-- The number of the stream that a descriptor leads to. -/
def streamNumber? (descriptor : Nat) : Sh (Option Nat) := do
  return (← get).descriptors.lookup descriptor

/-- Opens a stream. -/
def openStream (stream : Stream) : Sh Nat := do
  let number := (← get).streams.size
  modify fun state => { state with streams := state.streams.push stream }
  return number

/-- Lets a descriptor lead to a stream, or to nowhere. -/
def connect (descriptor : Nat) (number? : Option Nat) : Sh Unit :=
  modify fun state =>
    let others := state.descriptors.filter (·.1 ≠ descriptor)
    { state with descriptors := match number? with
      | some number => (descriptor, number) :: others
      | none => others }

/-- Writes bytes to a stream. -/
def emitTo (number : Nat) (bytes : ByteArray) : Sh (Except SystemError Unit) := do
  let state ← get
  match state.streams[number]? with
  | none => return .error .badDescriptor
  | some stream =>
    let overflows : Bool := match stream with
      | .pipe content _ => content.size > Stream.pipeLimit
      | _ => false
    if overflows then
      throw (.exited 141)
    else
      match stream.write state.world bytes with
      | .ok (world, stream) =>
        set { state with world := world, streams := state.streams.setIfInBounds number stream }
        return .ok ()
      | .error error => return .error error

/-- Writes octets to a descriptor. -/
def emit (descriptor : Nat) (octets : String) : Sh (Except SystemError Unit) := do
  match ← streamNumber? descriptor with
  | some number => emitTo number (Octets.toBytes octets)
  | none => return .error .badDescriptor

/-- Writes octets to the output of a command. -/
def say (octets : String) : Sh Unit := do
  let _ ← emit 1 octets

/-- Writes a line to the error output of a command. -/
def complain (message : String) : Sh Unit := do
  let _ ← emit 2 (message ++ "\n")

/-- All bytes of a descriptor that are not read yet. -/
def unread (descriptor : Nat) : Sh (Except SystemError (ByteArray × Nat × (Nat → Stream))) := do
  match ← streamNumber? descriptor with
  | none => return .error .badDescriptor
  | some number =>
    let state ← get
    match state.streams[number]? with
    | none => return .error .badDescriptor
    | some stream =>
      return (stream.unread state.world).map fun (bytes, after) => (bytes, number, after)

/-- Takes so many of the bytes that a stream has. -/
def advance (number count : Nat) (after : Nat → Stream) : Sh Unit :=
  modify fun state =>
    { state with streams := state.streams.setIfInBounds number (after count) }

/-- Reads all that is left of a descriptor. -/
def readAll (descriptor : Nat) : Sh (Except SystemError String) := do
  match ← unread descriptor with
  | .error error => return .error error
  | .ok (bytes, number, after) =>
    advance number bytes.size after
    return .ok (Octets.ofBytes bytes)

/-- Reads a line, without the character that ends it.  The flag says whether there was one. -/
def readLine (descriptor : Nat) (delimiter : Char) :
    Sh (Except SystemError (String × Bool)) := do
  match ← unread descriptor with
  | .error error => return .error error
  | .ok (bytes, number, after) =>
    let cs := (Octets.ofBytes bytes).toList
    let line := cs.takeWhile (· ≠ delimiter)
    let ended := line.length < cs.length
    advance number (line.length + (if ended then 1 else 0)) after
    return .ok (String.ofList line, ended)

/-! ## Errors -/

/-- A message in the name of the shell, about the current line. -/
def shellMessage (message : String) : Sh String := do
  let state ← get
  let command := match state.commandName with
    | some name => name ++ ": "
    | none => ""
  return state.name ++ ": " ++ Nat.repr state.line ++ ": " ++ command ++ message

/-- Complains in the name of the shell. -/
def warn (message : String) : Sh Unit := do
  complain (← shellMessage message)

/-- Reports a mistake, which ends the shell or the command that is running. -/
def fail {α : Type} (message : String) : Sh α := do
  warn message
  throw (.failed 2)

/-! ## Variables -/

/-- The variable of a name. -/
def findVar? (name : String) : Sh (Option Variable) := do
  return (← get).vars.lookup name

/-- The value of a variable. -/
def value? (name : String) : Sh (Option String) := do
  return (← findVar? name).bind Variable.value

/-- Puts a variable in the place of the one of its name. -/
def setVariable (name : String) (var? : Option Variable) : Sh Unit :=
  modify fun state =>
    let others := state.vars.filter (·.1 ≠ name)
    { state with vars := match var? with
      | some entry => (name, entry) :: others
      | none => others }

/-- Sets a variable, unless it is read only. -/
def assign (name value : String) : Sh Unit := do
  let old := (← findVar? name).getD {}
  if old.readOnly then
    fail (name ++ ": is read only")
  let exported := old.exported || (← get).options.contains 'a'
  setVariable name (some { old with value := some value, exported := exported })
  if name = "OPTIND" then
    modify fun state => { state with optionOffset := 0 }

/-- Whether an option is on. -/
def isOn (letter : Char) : Sh Bool := do
  return (← get).options.contains letter

/-- The separators of fields. -/
def separators : Sh (List Char) := do
  return ((← value? "IFS").getD " \t\n").toList

end Sh

end Desugar.Shell
