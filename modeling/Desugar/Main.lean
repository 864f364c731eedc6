import Desugar.CommandLine.Run
import Desugar.Programs

/-!
# The command line

The commands on real files.  A command works on a picture of the working directory; what it changed
is carried out on the files when it has ended, and what it wrote is printed.
-/

namespace Desugar.Snapshot

/-- What is at an entry of a directory and below it. -/
partial def ofEntry (place : Place) (entry : IO.FS.DirEntry) : IO (List (Place × Node)) := do
  let here := place ++ [entry.fileName]
  if ← entry.path.isDir then
    let below ← (← entry.path.readDir).toList.mapM (ofEntry here)
    return (here, .directory) :: below.flatten
  else
    return [(here, .file (← IO.FS.readBinFile entry.path))]

/-- The world with the working directory and what is in it. -/
def ofWorkingDirectory : IO World := do
  let directory ← IO.currentDir
  let cwd := (Path.mk directory.toString).names
  let above := (List.range cwd.length).map fun count => (cwd.take (count + 1), Node.directory)
  let entries ← (← directory.readDir).toList.mapM (ofEntry cwd)
  return ⟨⟨FileTree.devices ++ above ++ entries.flatten⟩, cwd, .empty, .empty⟩

/-- The path of a place. -/
def pathOf (place : Place) : String :=
  (Path.ofNames true place).text

/-- Removes what is gone, what lies deeper first. -/
def removeGone (old new : FileTree) : IO Unit := do
  let gone := old.nodes.filter fun entry => new.node? entry.1 ≠ some entry.2
  for (place, node) in gone.mergeSort (fun a b => decide (b.1.length ≤ a.1.length)) do
    match node with
    | .file _ => IO.FS.removeFile (pathOf place)
    | .directory => IO.FS.removeDir (pathOf place)
    | .device _ => pure ()

/-- Writes what is new, what lies deeper last. -/
def writeNew (old new : FileTree) : IO Unit := do
  let added := new.nodes.filter fun entry => old.node? entry.1 ≠ some entry.2
  for (place, node) in added.mergeSort (fun a b => decide (a.1.length ≤ b.1.length)) do
    match node with
    | .file content => IO.FS.writeBinFile (pathOf place) content
    | .directory => IO.FS.createDirAll (pathOf place)
    | .device _ => pure ()

end Desugar.Snapshot

open Desugar in
/-- Runs the command that the program is called as: the name with `-prep` preprocesses a project,
and any other name desugars a file. -/
def main (args : List String) : IO UInt32 := do
  let program := (← IO.appPath).toString
  let command :=
    if program.endsWith "-prep" then CommandLine.preprocessCommand else CommandLine.desugarCommand
  let world ← Snapshot.ofWorkingDirectory
  let (code, after) := StateT.run (command.execute Programs.launch args) world
  Snapshot.removeGone world.tree after.tree
  Snapshot.writeNew world.tree after.tree
  (← IO.getStdout).write after.stdout
  (← IO.getStderr).write after.stderr
  return code.toUInt32
