import Desugar.Diagnostic
import Desugar.Token.Lexeme

/-!
# The lexer

`tokenize` cuts a source text into lexemes, the longest one first, and keeps those that are tokens
with the bytes they stand at.  The first character that starts no lexeme is an error; nothing is
dropped silently.
-/

namespace Desugar

namespace Lexer

/-- The tokens of the characters from byte `offset` on. -/
def scan (offset : Nat) : List Char → Except Diagnostic (List Spanned)
  | [] => .ok []
  | c :: cs =>
    match Lexeme.longest (c :: cs) Lexeme.all with
    | none =>
      .error (.about .unexpectedCharacter (String.singleton c) ⟨offset, offset + c.utf8Size⟩)
    | some (lexeme, length) =>
      let text := String.ofList ((c :: cs).take length)
      let stop := offset + text.utf8ByteSize
      match scan stop (cs.drop (length - 1)) with
      | .error fault => .error fault
      | .ok tokens =>
        match lexeme.token? text with
        | none => .ok tokens
        | some token => .ok (⟨token, ⟨offset, stop⟩⟩ :: tokens)
termination_by cs => cs.length
decreasing_by simp only [List.length_drop, List.length_cons]; omega

end Lexer

/-- The tokens of a source text with their spans, or its first lexical fault, located. -/
def tokenize (source : String) : Except Diagnostic (List Spanned) :=
  (Lexer.scan 0 source.toList).mapError (Diagnostic.locate source)

/-- The tokens of a source text without their spans. -/
def tokenizePlain (source : String) : Except Diagnostic (List Token) :=
  (tokenize source).map (·.map (·.token))

end Desugar
