import Desugar.Text.Decimal
import Desugar.Toml.Table

/-!
# Reading TOML

The part of TOML 1.0 that settings need: comments, bare, quoted and dotted keys, table headers,
arrays of tables, strings on one line, decimal integers of 64 bits, booleans, arrays and inline
tables.  A text outside it is refused as a text with any other fault is.
-/

namespace Desugar.Toml

open Settings

/-- A reader of the characters that are left. -/
abbrev Reader := StateT (List Char) Option

/-- The characters that may stand in a comment. -/
def isCommentChar (c : Char) : Bool :=
  c = '\t' || (0x20 ≤ c.toNat && c.toNat ≠ 0x7F)

/-- A blank within a line. -/
def isInlineBlank (c : Char) : Bool :=
  c = ' ' || c = '\t'

/-- The characters of a key without quotes. -/
def isBareKeyChar (c : Char) : Bool :=
  c.isAlphanum || c = '_' || c = '-'

namespace Reader

def skipBlanks : Reader Unit :=
  modify (·.dropWhile isInlineBlank)

/-- Takes one given character. -/
def char (expected : Char) : Reader Unit := do
  match ← get with
  | c :: cs => if c = expected then set cs else failure
  | [] => failure

/-- The characters after blanks, comments and line ends, where `inComment` says whether they start
inside a comment. -/
def dropFiller (inComment : Bool) : List Char → Option (List Char)
  | [] => some []
  | '\n' :: cs => dropFiller false cs
  | '\r' :: '\n' :: cs => dropFiller false cs
  | c :: cs =>
    if inComment then
      if isCommentChar c then dropFiller true cs else none
    else if isInlineBlank c then
      dropFiller false cs
    else if c = '#' then
      dropFiller true cs
    else
      some (c :: cs)

/-- Skips what may stand between the items of an array. -/
def skipFiller : Reader Unit := do
  set (← (dropFiller false (← get) : Option (List Char)))

/-- Takes the rest of a line, which may hold blanks and a comment only. -/
def endOfLine : Reader Unit := do
  skipBlanks
  let cs ← get
  let cs ← match cs with
    | '#' :: cs => pure (cs.dropWhile isCommentChar)
    | cs => pure cs
  match cs with
  | [] => set cs
  | '\n' :: cs => set cs
  | '\r' :: '\n' :: cs => set cs
  | _ => failure

/-- The character of a code point that is written in hexadecimal digits. -/
def unicodeChar? (digits : List Char) : Option Char :=
  let value? (c : Char) : Option Nat :=
    if c.isDigit then some (c.toNat - '0'.toNat)
    else if 'a' ≤ c ∧ c ≤ 'f' then some (c.toNat - 'a'.toNat + 10)
    else if 'A' ≤ c ∧ c ≤ 'F' then some (c.toNat - 'A'.toNat + 10)
    else none
  let code? := digits.foldl (fun code? c => do return 16 * (← code?) + (← value? c)) (some 0)
  code?.bind fun code => if code.isValidChar then some (Char.ofNat code) else none

/-- The characters that a backslash and a letter stand for. -/
def escape? (c : Char) : Option Char :=
  [('b', '\x08'), ('t', '\t'), ('n', '\n'), ('f', '\x0c'), ('r', '\r'), ('"', '"'),
   ('\\', '\\')].lookup c

/-- The content of a string in double quotes and the characters after its closing quote. -/
def basicString : List Char → Option (List Char × List Char)
  | [] => none
  | '"' :: cs => some ([], cs)
  | '\\' :: 'u' :: a :: b :: c :: d :: cs => do
    let char ← unicodeChar? [a, b, c, d]
    let (content, others) ← basicString cs
    return (char :: content, others)
  | '\\' :: 'U' :: a :: b :: c :: d :: e :: f :: g :: h :: cs => do
    let char ← unicodeChar? [a, b, c, d, e, f, g, h]
    let (content, others) ← basicString cs
    return (char :: content, others)
  | '\\' :: c :: cs => do
    let char ← escape? c
    let (content, others) ← basicString cs
    return (char :: content, others)
  | c :: cs =>
    if isCommentChar c && c ≠ '\\' then do
      let (content, others) ← basicString cs
      return (c :: content, others)
    else
      none

/-- The content of a string in single quotes, in which nothing is escaped, and the characters after
it. -/
def literalString (cs : List Char) : Option (List Char × List Char) :=
  let content := cs.takeWhile fun c => isCommentChar c && c ≠ '\''
  match cs.drop content.length with
  | '\'' :: others => some (content, others)
  | _ => none

/-- A string in double or single quotes. -/
def quoted : Reader String := do
  let (content, others) ← (match ← get with
    | '"' :: cs => basicString cs
    | '\'' :: cs => literalString cs
    | _ => none : Option (List Char × List Char))
  set others
  return String.ofList content

/-- One part of a key. -/
def simpleKey : Reader String := do
  let cs ← get
  match cs with
  | '"' :: _ | '\'' :: _ => quoted
  | _ =>
    let name := cs.takeWhile isBareKeyChar
    if name.isEmpty then failure
    set (cs.drop name.length)
    return String.ofList name

/-- The parts of a key, which dots divide.  There are at most `bound` of them. -/
def keyParts : (bound : Nat) → Reader (List String)
  | 0 => failure
  | bound + 1 => do
    let name ← simpleKey
    skipBlanks
    match ← get with
    | '.' :: cs =>
      set cs
      skipBlanks
      return name :: (← keyParts bound)
    | _ => return [name]

/-- The most parts that a key can have, and the most arrays and inline tables that can stand inside
each other. -/
def depthLimit : Nat := 79

/-- A key. -/
def key : Reader (List String) :=
  keyParts depthLimit

/-- The value of decimal digits that single underscores may divide, without leading zeros. -/
def digitsValue? (cs : List Char) : Option Nat :=
  let digits := cs.filter (· ≠ '_')
  let divided := cs.head? ≠ some '_' && cs.getLast? ≠ some '_'
    && (cs.zip cs.tail).all (fun (c, d) => c ≠ '_' || d ≠ '_')
  let plain := digits.length ≤ 1 || digits.head? ≠ some '0'
  if divided && plain then Text.natOfDigits? digits else none

/-- A decimal integer with an optional sign. -/
def integer : Reader Value := do
  let cs ← get
  let (negative, cs) := match cs with
    | '-' :: cs => (true, cs)
    | '+' :: cs => (false, cs)
    | cs => (false, cs)
  let digits := cs.takeWhile fun c => c.isDigit || c = '_'
  let magnitude ← (digitsValue? digits : Option Nat)
  let value : Int := if negative then -magnitude else magnitude
  if !Text.fits64 value then failure
  set (cs.drop digits.length)
  return .int value

/-- A boolean or an integer. -/
def bareValue : Reader Value := do
  match ← get with
  | 't' :: 'r' :: 'u' :: 'e' :: cs => set cs; return .bool true
  | 'f' :: 'a' :: 'l' :: 's' :: 'e' :: cs => set cs; return .bool false
  | _ => integer

mutual

/-- A value that stands inside of `depth` arrays and inline tables. -/
def value (depth : Nat) : (bound : Nat) → Reader Value
  | 0 => failure
  | bound + 1 => do
    match ← get with
    | '"' :: _ | '\'' :: _ => return .string (← quoted)
    | '[' :: cs =>
      if depth ≥ depthLimit then failure
      set cs
      return .list (← items (depth + 1) bound)
    | '\x7b' :: cs =>
      if depth ≥ depthLimit then failure
      set cs
      skipBlanks
      match ← get with
      | '\x7d' :: cs =>
        set cs
        return .table []
      | _ =>
        let entries ← (Document.ofStatements (← fields (depth + 1) bound) : Option _)
        return .table entries
    | _ => bareValue

/-- The items of an array, up to its closing bracket. -/
def items (depth : Nat) : (bound : Nat) → Reader (List Value)
  | 0 => failure
  | bound + 1 => do
    skipFiller
    match ← get with
    | ']' :: cs =>
      set cs
      return []
    | _ =>
      let item ← value depth bound
      skipFiller
      match ← get with
      | ',' :: cs =>
        set cs
        return item :: (← items depth bound)
      | ']' :: cs =>
        set cs
        return [item]
      | _ => failure

/-- The fields of an inline table, up to its closing brace. -/
def fields (depth : Nat) : (bound : Nat) → Reader (List Statement)
  | 0 => failure
  | bound + 1 => do
    skipBlanks
    let path ← key
    skipBlanks
    char '='
    skipBlanks
    let content ← value depth bound
    skipBlanks
    match ← get with
    | ',' :: cs =>
      set cs
      return .assign path content :: (← fields depth bound)
    | '\x7d' :: cs =>
      set cs
      return [.assign path content]
    | _ => failure

end

/-- The statement that a line starts with, if it is not empty. -/
def statement (bound : Nat) : Reader (Option Statement) := do
  skipBlanks
  match ← get with
  | [] | '\n' :: _ | '\r' :: _ | '#' :: _ => return none
  | '[' :: '[' :: cs =>
    set cs
    skipBlanks
    let path ← key
    skipBlanks
    char ']'
    char ']'
    return some (.arrayHeader path)
  | '[' :: cs =>
    set cs
    skipBlanks
    let path ← key
    skipBlanks
    char ']'
    return some (.header path)
  | _ =>
    let path ← key
    skipBlanks
    char '='
    skipBlanks
    return some (.assign path (← value 0 bound))

/-- The statements of all lines; there are at most `bound` lines. -/
def statements (bound : Nat) : (lines : Nat) → Reader (List Statement)
  | 0 => failure
  | lines + 1 => do
    if (← get).isEmpty then
      return []
    let first ← statement bound
    endOfLine
    return first.toList ++ (← statements bound lines)

end Reader

/-- The entries of a TOML document, or `none` when the text is not one.  A byte order mark at its
start does not count. -/
def parse? (text : String) : Option (List (String × Value)) := do
  let cs := match text.toList with
    | '\ufeff' :: cs => cs
    | cs => cs
  let (statements, _) ← (Reader.statements (cs.length + 1) (cs.length + 1)).run cs
  Document.ofStatements statements

end Desugar.Toml
