import Desugar.CommandLine.Grammar
import Desugar.Preprocess.Build
import Desugar.Settings.File
import Desugar.SourceFile

/-!
# The two commands

The first command desugars one file into another.  The second one preprocesses a project and perhaps
runs the result.

Both write what they have to say to the streams of the world and end with an exit code: zero when
all went well, one after an error, two when the command line is mistaken.
-/

namespace Desugar.CommandLine

/-- A command: its name, its arguments and the text that explains them. -/
structure Command where
  name : String
  grammar : Grammar
  usage : String
  help : String
  /-- What the command does with its arguments. -/
  run : Launcher → Arguments → Job String Unit

/-- The version that both commands show. -/
def version : String := "0.1.0"

/-- The lines of a help text. -/
def helpText (lines : List String) : String :=
  String.join (lines.map (· ++ "\n"))

/-- The error message that a failure is shown as. -/
def errorText (message : String) : String :=
  "Error: " ++ message

/-- Desugars the first argument into the second. -/
def runDesugar (arguments : Arguments) : Job String Unit :=
  match arguments.positional with
  | [input, output] =>
    Job.orFail (desugarFile ⟨input⟩ ⟨output⟩) fun error => errorText error.message
  | _ => pure ()

/-- The command that desugars a file. -/
def desugarCommand : Command where
  name := "lyra"
  grammar := ⟨[], 2, 0, false⟩
  usage := "lyra <input> <output>"
  help := helpText
    ["Translate a lyra file into Ruby", "",
     "Usage: lyra <input> <output>", "",
     "Arguments:",
     "  <input>   Path to the lyra source",
     "  <output>  Path to write the translation to (created or overwritten)", "",
     "Options:",
     "  -h, --help     Print help",
     "  -V, --version  Print version"]
  run := fun _ arguments => runDesugar arguments

/-- The settings that the options of a command line ask for. -/
def settingsOf (arguments : Arguments) : Job String Settings := do
  let world ← get
  let file := match arguments.value? "config" with
    | some path => Settings.fileLayer world.tree world.cwd ⟨path⟩
    | none => .absent
  match Settings.load file [] with
  | .ok settings =>
    return { settings with exclude := settings.exclude ++ arguments.valuesOf "exclude" }
  | .error error => throw ("Configuration error: " ++ error.message)

/-- Preprocesses a project, and shows the path of a result that is kept. -/
def runPreprocess (launch : Launcher) (arguments : Arguments) : Job String Unit :=
  match arguments.positional with
  | input :: output :: compiler :: interpreter => do
    let build : Build := {
      settings := ← settingsOf arguments
      root := ⟨(arguments.value? "root").getD "."⟩
      input := input
      output := output
      compiler := compiler
      interpreter := interpreter.head?
      args := arguments.trailing }
    let outcome ← Job.orFail (build.run launch) fun error => errorText error.message
    if outcome.kept then
      World.print (outcome.script.text ++ "\n")
  | _ => pure ()

/-- The command that preprocesses a project. -/
def preprocessCommand : Command where
  name := "lyra-prep"
  grammar :=
    ⟨[⟨"config", some 'c', false⟩, ⟨"root", none, false⟩, ⟨"exclude", some 'x', true⟩], 3, 1, true⟩
  usage := "lyra-prep [OPTIONS] <input> <output> <compiler> [interpreter] [-- <args>...]"
  help := helpText
    ["Run the C preprocessor over a lyra project", "",
     "Usage: lyra-prep [OPTIONS] <input> <output> <compiler> [interpreter] [-- <args>...]", "",
     "Arguments:",
     "  <input>        Main file name, without the .rb extension",
     "  <output>       Output file name, without the .rb extension",
     "  <compiler>     Preprocessor provider, e.g. gcc or clang",
     "  [interpreter]  Program that runs the result; the staging directory is removed afterwards",
     "  [args]...      Arguments passed to the interpreter", "",
     "Options:",
     "  -c, --config <config>    Configuration file layered over the defaults",
     "      --root <root>        Project directory [default: .]",
     "  -x, --exclude <exclude>  File name to leave out of staging (repeatable)",
     "  -h, --help               Print help",
     "  -V, --version            Print version"]
  run := runPreprocess

/-- Runs a command and gives its exit code. -/
def Command.execute (command : Command) (launch : Launcher) (arguments : List String) :
    StateM World Nat := do
  match command.grammar.parse arguments with
  | .version =>
    World.print (command.name ++ " " ++ version ++ "\n")
    return 0
  | .help =>
    World.print command.help
    return 0
  | .mistake =>
    World.complain ("Usage: " ++ command.usage ++ "\n")
    return 2
  | .run arguments =>
    match ← (command.run launch arguments).run with
    | .ok () => return 0
    | .error message =>
      World.complain (message ++ "\n")
      return 1

end Desugar.CommandLine
