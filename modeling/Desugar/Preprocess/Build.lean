import Desugar.Preprocess.Staging

/-!
# Preprocessing a project

A build stages the project, has a C preprocessor expand the main file, and gives the result its
name.  When an interpreter is named too, it runs the result, and the staging directory is removed
afterwards, whatever the interpreter did.
-/

namespace Desugar

/-- What to preprocess, and with which programs. -/
structure Build where
  settings : Settings
  /-- The project directory. -/
  root : Path
  /-- The name of the main file, without its extension. -/
  input : String
  /-- The name of the result, without its extension. -/
  output : String
  compiler : String
  interpreter : Option String
  /-- The arguments that the interpreter gets behind the result. -/
  args : List String

/-- The result of a build: the path of the script, and whether it was kept. -/
structure Outcome where
  script : Path
  kept : Bool
  deriving DecidableEq, Repr

namespace Build

/-- The staging of a build.  An earlier result among the sources is no source. -/
def staging (build : Build) : Staging :=
  ((Staging.ofSettings build.settings).excluding build.output).excluding (build.output ++ ".rb")

/-- The staging directory. -/
def dir (build : Build) : Path :=
  build.staging.dirIn build.root

/-- The staged main file. -/
def mainFile (build : Build) : Path :=
  build.dir.child (build.input ++ ".rb")

/-- What the preprocessor writes. -/
def expanded (build : Build) : Path :=
  build.dir.child ("_" ++ build.input ++ ".rb")

/-- The result. -/
def script (build : Build) : Path :=
  build.dir.child (build.output ++ ".rb")

/-- Runs a program, which must end well. -/
def runProgram (launch : Launcher) (program : String) (args : List String) :
    Job PreprocessError Unit := do
  match ← Job.orFail (launch program args) (.spawn program) with
  | .exited 0 => pure ()
  | .exited code => throw (.failed program (some code))
  | .killed => throw (.failed program none)

/-- Stages and preprocesses the project. -/
def preprocess (launch : Launcher) (build : Build) : Job PreprocessError Unit := do
  let _ ← build.staging.stage build.root
  runProgram launch build.compiler
    (build.settings.args ++ [build.mainFile.text, "-o", build.expanded.text])
  Job.orFail (Job.change (FileTree.rename · · build.expanded build.script)) (.io build.expanded)

/-- Runs the result and removes the staging directory.  A failure to remove it is reported before a
failure of the interpreter. -/
def interpret (launch : Launcher) (build : Build) (interpreter : String) :
    Job PreprocessError Unit := do
  let result ← Job.attempt (runProgram launch interpreter (build.script.text :: build.args))
  Job.orFail (Job.changeAll (FileTree.removeAll · · build.dir)) (.io build.dir)
  ExceptT.mk (pure result)

/-- Preprocesses the project and, if an interpreter is named, runs the result. -/
def run (launch : Launcher) (build : Build) : Job PreprocessError Outcome := do
  preprocess launch build
  match build.interpreter with
  | none => return ⟨build.script, true⟩
  | some interpreter =>
    interpret launch build interpreter
    return ⟨build.script, false⟩

end Build

end Desugar
