import Desugar.Text.Blank
import Desugar.Token.Basic

/-!
# Lexemes

A source text is a sequence of lexemes.  Gaps and comments are dropped, every other lexeme is a
token.

Each class of lexemes is a regular language, and `Lexeme.reach` gives the length of the longest
lexeme of a class at the head of a text.  Where several classes match, the one that reaches farthest
is taken: `->` is an arrow and no minus, and `\h` with a brace opens a map.
-/

namespace Desugar

/-- The classes of lexemes. -/
inductive Lexeme where
  /-- A run of blanks and commas. -/
  | gap
  /-- From a `#` to the end of the line. -/
  | comment
  | opener (delimiter : Delimiter)
  | closer (bracket : Bracket)
  | arrow
  | step (direction : Step)
  | operator
  | string
  | methodRef
  | word
  deriving DecidableEq, Repr

namespace Lexeme

/-- All classes of lexemes. -/
def all : List Lexeme :=
  [.gap, .comment,
   .opener .shortMap, .opener .shortArray, .arrow,
   .opener .paren, .closer .round, .opener .bracket, .closer .square,
   .opener .brace, .closer .curly,
   .step .increment, .step .decrement,
   .operator, .string, .methodRef, .word]

/-- Commas separate as blanks do. -/
def isGap (c : Char) : Bool :=
  Text.isBlank c || c = ','

/-- The spellings of the operators. -/
def operators : List String :=
  ["**", "<=>", "<", "<<", "<>", "<=", ">", "><", ">>", ">=", "!~", "=", "==", "=~",
   "!", "!=", "+", "+=", "-", "-=", "*", "*=", "/", "/=", "^", "^=", "&", "&=", "|", "|=",
   "%", "%="]

/-- ASCII letters and digits, and the underscore. -/
def isNameChar (c : Char) : Bool :=
  c.isAlphanum || c = '_'

/-- The characters of a method name. -/
def isMethodChar (c : Char) : Bool :=
  isNameChar c || c = '?' || c = '!'

/-- The characters a word can start with.  `!` and `&` are not among them: they start operators. -/
def isWordStart (c : Char) : Bool :=
  isNameChar c || c = '.' || c = '?' || c = ':' || c = '@' || c = '$'

/-- The characters a word goes on with. -/
def isWordChar (c : Char) : Bool :=
  isWordStart c || c = '!' || c = '&'

/-- The length of `text` when the characters start with it, and zero otherwise. -/
def spelled (text : String) (cs : List Char) : Nat :=
  if text.toList.isPrefixOf cs then text.toList.length else 0

/-- How far a string literal goes on after its opening quote: to the next quote that no backslash
precedes, or to the end.  A backslash takes the next character with it; one that ends the text is no
part of the literal. -/
def stringRest : List Char → Nat
  | [] => 0
  | '"' :: _ => 1
  | '\\' :: [] => 0
  | '\\' :: _ :: cs => stringRest cs + 2
  | _ :: cs => stringRest cs + 1

/-- The length of the longest lexeme of the class at the head of the text, and zero when there is
none. -/
def reach : Lexeme → List Char → Nat
  | .gap, cs => (cs.takeWhile isGap).length
  | .comment, cs => match cs with
    | '#' :: cs => (cs.takeWhile (· ≠ '\n')).length + 1
    | _ => 0
  | .opener delimiter, cs => spelled delimiter.opening cs
  | .closer bracket, cs => spelled bracket.closing cs
  | .arrow, cs => spelled Token.arrow.text cs
  | .step direction, cs => spelled direction.text cs
  | .operator, cs => (operators.map (spelled · cs)).foldr max 0
  | .string, cs => match cs with
    | '"' :: cs => stringRest cs + 1
    | _ => 0
  | .methodRef, cs => match cs with
    | '&' :: ':' :: c :: cs => if isMethodChar c then (cs.takeWhile isMethodChar).length + 3 else 0
    | _ => 0
  | .word, cs => match cs with
    | c :: cs => if isWordStart c then (cs.takeWhile isWordChar).length + 1 else 0
    | [] => 0

/-- The token that a lexeme of the class with this text is, if it is one. -/
def token? (text : String) : Lexeme → Option Token
  | .gap | .comment => none
  | .opener delimiter => some (.opener delimiter)
  | .closer bracket => some (.closer bracket)
  | .arrow => some .arrow
  | .step direction => some (.step direction)
  | .operator => some (.operator text)
  | .string => some (.string text)
  | .methodRef => some (.methodRef text)
  | .word => some (.word text)

/-- The class that reaches farthest into the text, with its length.  Of classes that reach equally
far it is the first; `none` when no class matches. -/
def longest (cs : List Char) : List Lexeme → Option (Lexeme × Nat)
  | [] => none
  | lexeme :: others =>
    let length := lexeme.reach cs
    match longest cs others with
    | none => if length = 0 then none else some (lexeme, length)
    | some (other, otherLength) =>
      if otherLength ≤ length then some (lexeme, length) else some (other, otherLength)

end Lexeme

end Desugar
