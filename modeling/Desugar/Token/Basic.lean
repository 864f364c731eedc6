import Desugar.Text.Location

/-!
# Tokens

The tokens of the dialect.  Brackets, the arrow and the two step operators have a fixed spelling;
the other tokens carry the text they were read from.
-/

namespace Desugar

/-- The three shapes of bracket. -/
inductive Bracket where
  | round
  | square
  | curly
  deriving DecidableEq, Repr

/-- The spelling of the bracket that closes. -/
def Bracket.closing : Bracket → String
  | .round => ")"
  | .square => "]"
  | .curly => "\x7d"

/-- The ways to open a scope. -/
inductive Delimiter where
  | paren
  | bracket
  | brace
  /-- A map literal, whose elements are keys and values in turn. -/
  | shortMap
  /-- An array literal. -/
  | shortArray
  deriving DecidableEq, Repr

namespace Delimiter

/-- The spelling of the opener. -/
def opening : Delimiter → String
  | .paren => "("
  | .bracket => "["
  | .brace => "\x7b"
  | .shortMap => "\\h\x7b"
  | .shortArray => "\\a["

/-- The bracket that closes the scope. -/
def closer : Delimiter → Bracket
  | .paren => .round
  | .bracket | .shortArray => .square
  | .brace | .shortMap => .curly

/-- The short literals separate their elements: in them a sign joins the number it touches. -/
def isShortLiteral : Delimiter → Bool
  | .shortMap | .shortArray => true
  | .paren | .bracket | .brace => false

end Delimiter

/-- The two operators that step the value before them. -/
inductive Step where
  | increment
  | decrement
  deriving DecidableEq, Repr

/-- The spelling of a step operator. -/
def Step.text : Step → String
  | .increment => "++"
  | .decrement => "--"

/-- A token of the dialect. -/
inductive Token where
  | opener (delimiter : Delimiter)
  | closer (bracket : Bracket)
  /-- The arrow between the parameters and the body of a lambda. -/
  | arrow
  | step (direction : Step)
  | operator (text : String)
  /-- A string literal, with its quotes; the closing one may be missing. -/
  | string (text : String)
  /-- A bound method reference such as `&:upcase`. -/
  | methodRef (text : String)
  /-- An identifier, a number or a symbol. -/
  | word (text : String)
  deriving DecidableEq, Repr

namespace Token

/-- The source text of a token. -/
def text : Token → String
  | .opener delimiter => delimiter.opening
  | .closer bracket => bracket.closing
  | .arrow => "->"
  | .step direction => direction.text
  | .operator text | .string text | .methodRef text | .word text => text

/-- The scope that a token opens. -/
def opens? : Token → Option Delimiter
  | .opener delimiter => some delimiter
  | _ => none

def isCloser : Token → Bool
  | .closer _ => true
  | _ => false

def isStep : Token → Bool
  | .step _ => true
  | _ => false

/-- The step that a token asks for behind an element: `--` goes down, all else up. -/
def toStep : Token → Step
  | .step direction => direction
  | _ => .increment

/-- Tokens that stand for something other than their own text. -/
def isSugar : Token → Bool
  | .opener .bracket => false
  | .opener _ | .step _ => true
  | _ => false

end Token

/-- A token and where it stands in its source. -/
structure Spanned where
  token : Token
  span : Span
  deriving DecidableEq, Repr

/-- The texts of the tokens, one after the other. -/
def Token.detokenize (tokens : List Token) : String :=
  String.join (tokens.map Token.text)

end Desugar
