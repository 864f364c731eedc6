import Desugar.Parser
import Desugar.Token.Lexer

/-!
# From source text to Ruby text

`desugar` is the whole of the job on a text: tokenize, group by brackets, render what each scope
stands for.
-/

namespace Desugar

/-- The Ruby text of a source text whose scopes nest at most `limit` deep, or its first fault,
located. -/
def desugar (source : String) (limit : Nat) : Except Diagnostic String := do
  let tokens ← tokenize source
  let trees ← (Parser.start tokens limit).document.1.mapError (Diagnostic.locate source)
  return Form.renderAll (Tree.forms trees)

end Desugar
