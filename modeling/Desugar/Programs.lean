import Desugar.Shell.Run

/-!
# The programs at hand

A launcher for the programs that are always at hand: the shell and its utilities.  Any other name is
not found, and a file of the tree cannot be run.
-/

namespace Desugar.Programs

/-- Refuses what no program can be started with: a null character, or too long a text. -/
def checkArguments (program : String) (args : List String) : Except SystemError Unit :=
  if (program :: args).any (·.toList.contains '\x00') then .error .nullInArgument
  else if !program.toList.contains '/' && FileTree.isLongName program then .error .nameTooLong
  else if (program :: args).any (·.utf8ByteSize ≥ 131072) then .error .argumentsTooLong
  else .ok ()

/-- The program that a name or a path means.  A name without a slash is looked for among the
installed programs; the directories `.` and `..` are found there and cannot be run. -/
def find (program : String) (tree : FileTree) (cwd : Place) : Except SystemError String :=
  if program.toList.contains '/' then
    match Utility.installedAt? program with
    | some name => .ok name
    | none => do
      let _ ← tree.resolve cwd ⟨program⟩
      .error .permissionDenied
  else if program = "." || program = ".." then
    .error .permissionDenied
  else if Utility.isInstalled program then
    .ok program
  else
    .error .noEntry

/-- How far a script may go before it is stopped. -/
def bound : Nat := 1000000

/-- Starts a program that is at hand. -/
def launch : Launcher := fun program args => do
  ExceptT.mk (pure (checkArguments program args))
  let name ← Job.look (find program)
  let world ← get
  let process : Shell.State := { world := world, vars := Shell.Sh.initialVars world.cwd }
  let run := Shell.Sh.runProgram name (args.map Octets.encode) bound
  let (result, process) := StateT.run (ExceptT.run run) process
  set { process.world with cwd := world.cwd }
  match result with
  | .ok code => return .exited code
  | .error (.killed _) => return .killed
  | .error _ => return .exited 0

end Desugar.Programs
