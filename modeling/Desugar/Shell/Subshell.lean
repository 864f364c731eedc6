import Desugar.Shell.Signal
import Desugar.Shell.State

/-!
# Shells inside a shell

Commands that run in a shell of their own, so that what they do to variables, options and open files
is gone when they are done, while the files that they change stay changed.  `inSubshell` starts from
the shell around it, `inNewShell` from nothing but the exported variables.
-/

namespace Desugar.Shell.Sh

/-- Runs an action with descriptors that are set back afterwards. -/
def keepingDescriptors {α : Type} (action : Sh α) : Sh α := do
  let saved := (← get).descriptors
  andFinally action (modify fun state => { state with descriptors := saved })

/-- Runs an action with variables of some names that are set back afterwards. -/
def keepingVars {α : Type} (names : List String) (action : Sh α) : Sh α := do
  let vars := (← get).vars
  let saved := names.map fun name => (name, vars.lookup name)
  andFinally action do
    for (name, var?) in saved do
      setVariable name var?

/-- The action of a trap, if it does anything. -/
def trapAction? (signal : Nat) : Sh (Option String) := do
  return ((← get).traps.lookup signal).filter (· ≠ "")

/-- The status that a shell ends with when its commands have ended, however they did.  What was
arranged for the end is run, and may change the status. -/
def finishShell (action : Sh Nat) (runText : String → Sh Nat) : Sh Nat := do
  let ending (result : Except Halt Nat) : Sh Nat := do
    match result with
    | .ok status => return status
    | .error (.exited status) | .error (.failed status) | .error (.returning status) =>
      return status
    | .error (.breaking _) | .error (.continuing _) => return 0
    | .error (.killed signal) => throw (.killed signal)
  let status ← ending (← attempt action)
  match ← trapAction? 0 with
  | none => return status
  | some text =>
    modify fun state => { state with
      traps := state.traps.filter (·.1 ≠ 0), status := status, commandName := none }
    match ← attempt (runText text) with
    | .ok _ => return status
    | .error halt => ending (.error halt)

/-- Runs an action in a copy of the shell, so that only what it does to files and streams is
left. -/
def inSubshell (action : Sh Nat) (runText : String → Sh Nat) : Sh Nat := do
  let saved ← get
  set { saved with traps := saved.traps.filter (·.2 = ""), pending := [] }
  let result ← attempt (finishShell action runText)
  let after ← get
  set { saved with
    world := { after.world with cwd := saved.world.cwd }
    streams := after.streams
    executables := after.executables
    nextDocument := after.nextDocument }
  ExceptT.mk (pure result)

/-- The variables that every shell starts with. -/
def initialVars (cwd : Place) : List (String × Variable) :=
  [("HOME", { value := some "/root", exported := true }),
   ("IFS", { value := some " \t\n" }),
   ("OPTIND", { value := some "1" }),
   ("PATH", {
      value := some "/usr/local/sbin:/usr/local/bin:/usr/sbin:/usr/bin:/sbin:/bin"
      exported := true }),
   ("PPID", { value := some "4710" }),
   ("PS1", { value := some "# " }),
   ("PS2", { value := some "> " }),
   ("PS4", { value := some "+ " }),
   ("PWD", { value := some (placeText cwd), exported := true })]

/-- Runs an action in a new shell, which knows only the exported variables of the one it is started
from. -/
def inNewShell (action : Sh Nat) (runText : String → Sh Nat) : Sh Nat := do
  let saved ← get
  let exported := saved.vars.filter fun entry => entry.2.exported && entry.2.value.isSome
  let initial := (initialVars saved.world.cwd).filter fun entry =>
    !entry.2.exported && (exported.lookup entry.1).isNone
  set ({
    world := saved.world
    streams := saved.streams
    descriptors := saved.descriptors
    executables := saved.executables
    vars := (exported.map fun (name, entry) => (name, { entry with readOnly := false })) ++ initial
    traps := saved.traps.filter (·.2 = "")
    process := saved.process + 1
    mask := saved.mask } : State)
  let result ← attempt (finishShell action runText)
  let after ← get
  set { saved with
    world := { after.world with cwd := saved.world.cwd }
    streams := after.streams
    executables := after.executables }
  ExceptT.mk (pure result)

/-- The status of a program that was waited for.  A shell says so when a signal ended it. -/
def waitFor (action : Sh Nat) : Sh Nat := do
  let result ← attempt action
  match result with
  | .error (.killed signal) =>
    let description := Signal.description signal
    if description ≠ "" then
      complain description
    return 128 + signal
  | _ => ExceptT.mk (pure result)

end Desugar.Shell.Sh
