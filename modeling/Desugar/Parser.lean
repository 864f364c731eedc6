import Desugar.Tree.Basic

/-!
# The parser

A parser reads a stream of tokens from left to right and groups them by brackets.  It can be driven
one element at a time (`Parser.next`) or over the whole stream (`Parser.document`), and it remembers
the scopes it closed.  After a fault it stands behind the token at fault and can be used on.

## Shape of a reading

A `Reading` holds the scopes that are open, innermost first, and the elements that the innermost one
has so far.  Each token changes it by one `Reading.step`: an opener adds a frame, the matching
closer turns the innermost frame into one element of the scope around it, a step operator goes to
the element before it, and any other token is an element of its own.
-/

namespace Desugar

/-- A scope that the parser closed: the tokens `first` up to, and without, `stop` stand inside its
brackets, and `depth` scopes, itself included, were open in it. -/
structure Scope where
  delimiter : Delimiter
  first : Nat
  stop : Nat
  depth : Nat
  deriving DecidableEq, Repr

namespace Parser

/-- A scope that is open: what opened it and where, the index of its first inner token, and the
elements that stand before it in the scope around it, the last one first. -/
structure Frame where
  delimiter : Delimiter
  opener : Span
  first : Nat
  before : List Tree
  deriving Repr

/-- What has been read of the elements of a scope. -/
structure Reading where
  /-- The open scopes, innermost first. -/
  frames : List Frame := []
  /-- The elements of the innermost open scope, the last one first. -/
  elements : List Tree := []
  /-- The offset at which the last token ended. -/
  edge : Nat := 0
  deriving Repr

namespace Reading

/-- Whether the innermost open scope is a short literal. -/
def inShortLiteral (reading : Reading) : Bool :=
  match reading.frames with
  | frame :: _ => frame.delimiter.isShortLiteral
  | [] => false

/-- Adds an element to the innermost open scope. -/
def push (reading : Reading) (tree : Tree) : Reading :=
  { reading with elements := tree :: reading.elements }

/-- A step operator goes to the element before it, and stands alone where there is none. -/
def pushStep (reading : Reading) (step : Step) : Reading :=
  match reading.elements with
  | element :: others =>
    if element.isLoneStep then
      reading.push (.leaf (.step step))
    else
      { reading with elements := .stepped element step :: others }
  | [] => reading.push (.leaf (.step step))

/-- Whether a text starts with an ASCII digit. -/
def startsWithDigit (text : String) : Bool :=
  match text.toList with
  | c :: _ => c.isDigit
  | [] => false

/-- Inside a short literal a number joins the sign it touches. -/
def pushWord (reading : Reading) (text : String) (span : Span) : Reading :=
  match reading.elements with
  | .leaf (.operator sign) :: others =>
    if reading.inShortLiteral && (sign = "-" || sign = "+") && span.start = reading.edge
        && startsWithDigit text then
      { reading with elements := .signed sign text :: others }
    else
      reading.push (.leaf (.word text))
  | _ => reading.push (.leaf (.word text))

/-- Opens a scope whose opener stands at `span` and is followed by token number `first`. -/
def openScope (limit : Nat) (reading : Reading) (delimiter : Delimiter) (span : Span)
    (first : Nat) : Except Diagnostic Reading :=
  if reading.frames.length + 1 > limit then
    .error (.about .nestingTooDeep (Nat.repr limit) span)
  else
    .ok { reading with
      frames := ⟨delimiter, span, first, reading.elements⟩ :: reading.frames
      elements := [] }

/-- Closes the innermost open scope, which becomes an element of the scope around it. -/
def closeScope (reading : Reading) (bracket : Bracket) (span : Span) : Except Diagnostic Reading :=
  match reading.frames with
  | frame :: frames =>
    if frame.delimiter.closer = bracket then
      let elements := reading.elements.reverse
      match Form.unpairedKey? frame.delimiter elements with
      | some key => .error (.about .unpairedMapKey key.form.render frame.opener)
      | none =>
        .ok { reading with
          frames := frames
          elements := .scope frame.delimiter elements :: frame.before }
    else
      .error (.about .unexpectedToken bracket.closing span)
  | [] => .error (.about .unexpectedToken bracket.closing span)

/-- Reads one token, which has the index `index` in its stream. -/
def step (limit index : Nat) (reading : Reading) (item : Spanned) : Except Diagnostic Reading :=
  let next := match item.token with
    | .opener delimiter => reading.openScope limit delimiter item.span (index + 1)
    | .closer bracket => reading.closeScope bracket item.span
    | .step step => .ok (reading.pushStep step)
    | .word text => .ok (reading.pushWord text item.span)
    | .string text =>
      if text = "\"" then
        .error (.about .unexpectedQuote text item.span)
      else
        .ok (reading.push (.leaf (.string text)))
    | token => .ok (reading.push (.leaf token))
  next.map fun reading => { reading with edge := item.span.stop }

/-- The scope that the token with index `index` closes.  It counts as closed even when its elements
are at fault. -/
def closed? (reading : Reading) (index : Nat) (token : Token) : Option Scope :=
  match token, reading.frames with
  | .closer bracket, frame :: frames =>
    if frame.delimiter.closer = bracket then
      some ⟨frame.delimiter, frame.first, index, frames.length + 1⟩
    else
      none
  | _, _ => none

/-- The elements of the top level, or the fault that a scope is still open. -/
def finish (reading : Reading) : Except Diagnostic (List Tree) :=
  match reading.frames with
  | frame :: _ =>
    .error (.about .unterminatedScope frame.delimiter.closer.closing frame.opener)
  | [] => .ok reading.elements.reverse

/-- Whether one element of the top level is complete, given the token that follows: a step operator
behind an element still belongs to it. -/
def isComplete (reading : Reading) (token : Token) : Bool :=
  match reading.frames, reading.elements with
  | [], element :: _ => element.isLoneStep || !token.isStep
  | _, _ => false

end Reading

end Parser

/-- A parser over a stream of tokens. -/
structure Parser where
  /-- The tokens that are not read yet. -/
  rest : List Spanned
  /-- The index of the next token. -/
  position : Nat
  /-- The scopes closed so far, in the order in which they were closed. -/
  scopes : List Scope
  /-- The deepest nesting that is accepted. -/
  limit : Nat
  deriving Repr

namespace Parser

/-- The nesting that is accepted where no other limit is asked for. -/
def defaultLimit : Nat := 256

/-- A parser over the tokens that accepts `limit` scopes inside each other. -/
def start (tokens : List Spanned) (limit : Nat) : Parser :=
  ⟨tokens, 0, [], limit⟩

def atEnd (parser : Parser) : Bool :=
  parser.rest.isEmpty

/-- Reads tokens until `done` holds of the reading and the token that follows, or to the end. -/
def advance (done : Reading → Token → Bool) (limit : Nat) (reading : Reading) (position : Nat)
    (scopes : List Scope) : List Spanned → Except Diagnostic (List Tree) × Parser
  | [] => (reading.finish, ⟨[], position, scopes, limit⟩)
  | item :: rest =>
    if done reading item.token then
      (.ok reading.elements.reverse, ⟨item :: rest, position, scopes, limit⟩)
    else
      let scopes := scopes ++ (reading.closed? position item.token).toList
      match reading.step limit position item with
      | .error fault => (.error fault, ⟨rest, position + 1, scopes, limit⟩)
      | .ok reading => advance done limit reading (position + 1) scopes rest

/-- Reads all that is left as elements of the top level. -/
def document (parser : Parser) : Except Diagnostic (List Tree) × Parser :=
  advance (fun _ _ => false) parser.limit {} parser.position parser.scopes parser.rest

/-- Reads the next element of the top level; there is none at the end. -/
def next (parser : Parser) : Except Diagnostic (Option Tree) × Parser :=
  let (result, parser) :=
    advance Reading.isComplete parser.limit {} parser.position parser.scopes parser.rest
  (result.map List.getLast?, parser)

end Parser

end Desugar
