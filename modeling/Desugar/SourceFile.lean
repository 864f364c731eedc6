import Desugar.Source
import Desugar.World

/-!
# Source files

Desugaring a file into another one.  The output is written in one go when the whole input is
understood, so a fault leaves it as it was.
-/

namespace Desugar

/-- Why a file could not be desugared. -/
inductive FileError where
  | io (path : Path) (cause : SystemError)
  /-- The input is at fault. -/
  | fault (path : Path) (cause : Diagnostic)
  deriving DecidableEq, Repr

/-- The message for the user. -/
def FileError.message : FileError → String
  | .io path cause => path.text ++ ": IO error: " ++ cause.message
  | .fault path cause => path.text ++ ": " ++ cause.message

/-- Reads a source file and writes its Ruby text to another file. -/
def desugarFile (input output : Path) : Job FileError Unit := do
  let source ← Job.orFail (Job.look (FileTree.readText · · input)) (.io input)
  let text ← ExceptT.mk (pure ((desugar source Parser.defaultLimit).mapError (.fault input)))
  Job.orFail (Job.write output text.toUTF8) (.io output)

end Desugar
