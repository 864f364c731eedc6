import Desugar.Settings.Basic
import Desugar.World

/-!
# Staging

The sources of a project are staged before the preprocessor sees them: those files of the project
directory that are selected by extension and not excluded by name are filtered into the staging
directory, which is emptied of files first.
-/

namespace Desugar

/-- Why a project could not be preprocessed. -/
inductive PreprocessError where
  | io (path : Path) (cause : SystemError)
  /-- A program could not be started. -/
  | spawn (program : String) (cause : SystemError)
  /-- A program ended with a code other than zero or, without a code, by a signal. -/
  | failed (program : String) (code : Option Nat)
  deriving DecidableEq, Repr

/-- The message for the user. -/
def PreprocessError.message : PreprocessError → String
  | .io path cause => path.text ++ ": IO error: " ++ cause.message
  | .spawn program cause => "failed to start '" ++ program ++ "': " ++ cause.message
  | .failed program (some code) => "'" ++ program ++ "' exited with status " ++ Nat.repr code
  | .failed program none => "'" ++ program ++ "' was terminated by a signal"

/-- Which files of a project are staged, and where. -/
structure Staging where
  /-- The staging directory, relative to the project. -/
  dir : Path
  extensions : List String
  exclude : List String
  markers : Markers
  deriving DecidableEq, Repr

namespace Staging

/-- The staging that settings ask for. -/
def ofSettings (settings : Settings) : Staging where
  dir := settings.dir
  extensions := settings.extensions
  exclude := settings.exclude
  markers := settings.markers

/-- Leaves out one more file. -/
def excluding (staging : Staging) (name : String) : Staging :=
  { staging with exclude := staging.exclude ++ [name] }

/-- The staging directory of a project. -/
def dirIn (staging : Staging) (root : Path) : Path :=
  root.join staging.dir

/-- Whether a file with this name is staged.  A name without an extension counts as one with an
empty extension. -/
def selects (staging : Staging) (name : String) : Bool :=
  staging.extensions.contains ((Path.extension? name).getD "") && !staging.exclude.contains name

/-- Takes away the files with the given names from a directory. -/
def removeFiles (dir : Path) : List String → Job PreprocessError Unit
  | [] => pure ()
  | name :: names => do
    let path := dir.child name
    Job.orFail (Job.change (FileTree.removeFile · · path)) (.io path)
    removeFiles dir names

/-- The names of the files directly inside a directory, in order. -/
def filesIn (dir : Path) : Job PreprocessError (List String) := do
  let names ← Job.orFail (Job.look (FileTree.list · · dir)) (.io dir)
  let world ← get
  let files := names.filter fun name => world.tree.isFileAt world.cwd (dir.child name)
  return files.mergeSort (fun a b => decide (a ≤ b))

/-- Makes sure that a directory exists and has no files directly inside it.  Directories inside it
stay. -/
def clear (dir : Path) : Job PreprocessError Unit := do
  let world ← get
  if world.tree.pathExists world.cwd dir then
    removeFiles dir (← filesIn dir)
  else
    Job.orFail (Job.changeAll (FileTree.createAll · · dir)) (.io dir)

/-- Filters one file of the project into the staging directory. -/
def stageFile (staging : Staging) (root : Path) (name : String) : Job PreprocessError Path := do
  let source := root.child name
  let text ← Job.orFail (Job.look (FileTree.readText · · source)) (.io source)
  let target := (staging.dirIn root).child name
  let content := (staging.markers.filter text).toUTF8
  Job.orFail (Job.write target content) (.io target)
  return target

/-- Filters files of the project into the staging directory, one after the other. -/
def stageFiles (staging : Staging) (root : Path) : List String → Job PreprocessError (List Path)
  | [] => pure []
  | name :: names => do
    let target ← staging.stageFile root name
    return target :: (← staging.stageFiles root names)

/-- Stages the project at `root` and gives the paths of the staged files, in order of their
names. -/
def stage (staging : Staging) (root : Path) : Job PreprocessError (List Path) := do
  clear (staging.dirIn root)
  let names ← filesIn root
  staging.stageFiles root (names.filter staging.selects)

end Staging

end Desugar
