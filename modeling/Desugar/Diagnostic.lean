import Desugar.Text.Location

/-!
# Diagnostics

What can be wrong with a source text, and how it is told.  A diagnostic names its cause, the token
or text it is about, the bytes it stands at and, once the source is at hand, the line and column.
-/

namespace Desugar

namespace Diagnostic

/-- The causes of a diagnostic. -/
inductive Kind where
  /-- A character that starts no lexeme. -/
  | unexpectedCharacter
  /-- A closing bracket that does not match the innermost open scope. -/
  | unexpectedToken
  /-- A string literal that is only its opening quote. -/
  | unexpectedQuote
  /-- The tokens end inside a scope. -/
  | unterminatedScope
  /-- A map literal with an odd number of elements. -/
  | unpairedMapKey
  /-- More scopes inside each other than the limit allows. -/
  | nestingTooDeep
  deriving DecidableEq, Repr

/-- The short name of a cause, shown at the end of each message. -/
def Kind.tag : Kind → String
  | .unexpectedCharacter => "lex-error"
  | .unexpectedToken => "unexpected-token"
  | .unexpectedQuote => "unexpected-quote"
  | .unterminatedScope => "unterminated-scope"
  | .unpairedMapKey => "unpaired-map-key"
  | .nestingTooDeep => "nesting-too-deep"

/-- What a cause says about the token it concerns. -/
def Kind.describe (token : String) : Kind → String
  | .unexpectedCharacter => "unexpected character '" ++ token ++ "'"
  | .unexpectedToken => "unexpected '" ++ token ++ "'"
  | .unexpectedQuote => "unexpected '\"'"
  | .unterminatedScope => "unterminated scope: expected '" ++ token ++ "', got EOF"
  | .unpairedMapKey => "map literal key '" ++ token ++ "' has no value"
  | .nestingTooDeep => "nesting deeper than " ++ token ++ " scopes"

end Diagnostic

/-- A fault found in a source text. -/
structure Diagnostic where
  kind : Diagnostic.Kind
  /-- The token the fault is about; for an unterminated scope the closer that is missing, and for a
  nesting that is too deep the limit. -/
  token : Option String
  span : Option Span
  location : Option Location := none
  deriving DecidableEq, Repr

namespace Diagnostic

/-- A fault about a token at a span, not located yet. -/
def about (kind : Kind) (token : String) (span : Span) : Diagnostic where
  kind := kind
  token := some token
  span := some span

/-- The diagnostic with the line and column of its span's start in `source`.  One without a span is
left as it is. -/
def locate (source : String) (fault : Diagnostic) : Diagnostic :=
  match fault.span with
  | some span => { fault with location := some (Location.ofOffset source span.start) }
  | none => fault

/-- The message shown to the user. -/
def message (fault : Diagnostic) : String :=
  let place := match fault.location with
    | some location => "[" ++ location.text ++ "] "
    | none => ""
  place ++ fault.kind.describe (fault.token.getD "") ++ " (" ++ fault.kind.tag ++ ")"

end Diagnostic

end Desugar
