import Desugar.Form.Basic
import Desugar.Text.Blank
import Desugar.Token.Basic

/-!
# Ruby text

The pieces of Ruby that sugar stands for: blocks with parameters, calls that step a value, lists
with commas, and the call that tries a name first as a method of its argument.
-/

namespace Desugar.Ruby

open Form

/-- Forms between an opening and a closing text. -/
def wrap (opening : String) (forms : List Form) (closing : String) : Form :=
  .group (.atom opening :: forms ++ [.atom closing])

/-- A block: its parameters between bars, then its body. -/
def lambda (params : List String) (body : List Form) : Form :=
  wrap ("\x7b|" ++ ", ".intercalate params ++ "|") body "\x7d"

/-- The parameter of a block that names none. -/
def it : String := "it"

/-- The renderings of the forms as the elements of a list: trimmed, the empty ones left out, and
separated by a comma and a blank. -/
def join (forms : List Form) : String :=
  ", ".intercalate ((forms.map fun form => Text.trim form.render).filter (· ≠ ""))

/-- The call that stands for a step operator. -/
def stepCall : Step → Form
  | .increment => .atom ".succ"
  | .decrement => .atom ".pred"

/-- Whether a text reads as a bare name: it starts with an ASCII letter or an underscore. -/
def isSymbol (text : String) : Bool :=
  match text.toList with
  | c :: _ => c.isAlpha || c = '_'
  | [] => false

/-- Calls `name` on the block's argument where the argument has such a method, and with the argument
as its parameter otherwise. -/
def dispatch (name : String) : String :=
  "it.respond_to?(:\"" ++ name ++ "\") ? it.send(:\"" ++ name ++ "\") : " ++ name ++ "(it)"

end Desugar.Ruby
