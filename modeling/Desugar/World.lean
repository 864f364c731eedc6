import Desugar.Files.Calls

/-!
# The world of a run

What a command reads and changes: the files, the working directory, and what has been written to
standard output and standard error.

A `Job` is a computation on the world that can fail; what it did before it failed stays done.  Other
programs are known only through a `Launcher`, which says how a program ends and what it leaves
behind.
-/

namespace Desugar

/-- All that a command can read and change. -/
structure World where
  tree : FileTree
  /-- The working directory, from which relative paths are looked up. -/
  cwd : Place
  stdout : ByteArray
  stderr : ByteArray

/-- A computation on the world that can fail. -/
abbrev Job (ε α : Type) := ExceptT ε (StateM World) α

/-- How a program that was started came to its end. -/
inductive Ending where
  | exited (code : Nat)
  /-- It was ended by a signal. -/
  | killed
  deriving DecidableEq, Repr

/-- What starting a program with arguments does.  It may fail to start. -/
abbrev Launcher := (program : String) → (args : List String) → Job SystemError Ending

namespace World

/-- Writes text to standard output. -/
def print (text : String) : StateM World Unit :=
  modify fun world => { world with stdout := world.stdout ++ text.toUTF8 }

/-- Writes text to standard error. -/
def complain (text : String) : StateM World Unit :=
  modify fun world => { world with stderr := world.stderr ++ text.toUTF8 }

end World

namespace Job

/-- Reads from the files. -/
def look {α : Type} (query : FileTree → Place → Except SystemError α) : Job SystemError α := do
  let world ← get
  ExceptT.mk (pure (query world.tree world.cwd))

/-- Changes the files, if that succeeds. -/
def change (update : FileTree → Place → Except SystemError FileTree) : Job SystemError Unit := do
  let world ← get
  let tree ← ExceptT.mk (pure (update world.tree world.cwd))
  set { world with tree := tree }

/-- Writes a file.  What is written to a standard stream as a device goes to that stream. -/
def write (path : Path) (content : ByteArray) : Job SystemError Unit := do
  let world ← get
  change (FileTree.write · · path content)
  match (world.tree.resolve world.cwd path).toOption.bind world.tree.node? with
  | some (.device .stdout) => modify fun world => { world with stdout := world.stdout ++ content }
  | some (.device .stderr) => modify fun world => { world with stderr := world.stderr ++ content }
  | _ => pure ()

/-- Changes the files, and keeps the changes even if it fails in the end. -/
def changeAll (update : FileTree → Place → Except SystemError Unit × FileTree) :
    Job SystemError Unit := do
  let world ← get
  let (result, tree) := update world.tree world.cwd
  set { world with tree := tree }
  ExceptT.mk (pure result)

/-- The computation with its failures put in other words. -/
def orFail {ε δ α : Type} (job : Job ε α) (describe : ε → δ) : Job δ α :=
  ExceptT.mk do return (← job.run).mapError describe

/-- The result of a computation, be it a failure or not. -/
def attempt {ε δ α : Type} (job : Job ε α) : Job δ (Except ε α) :=
  ExceptT.mk do return .ok (← job.run)

end Job

end Desugar
