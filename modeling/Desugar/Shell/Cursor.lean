import Desugar.Shell.Script

/-!
# Reading script text

The position in a script, and how its characters are taken.  A backslash at the end of a line joins
it with the next one, except in single quotes and in comments.
-/

namespace Desugar.Shell

/-- A mistake in a script. -/
structure SyntaxError where
  line : Nat
  message : String
  deriving Repr

/-- What a redirection does. -/
inductive RedirectKind where
  | file (access : Access)
  | duplicate
  /-- A text in the script.  Tabs at the start of its lines may not count. -/
  | document (stripTabs : Bool)
  deriving Repr

/-- A token of a script. -/
inductive Token where
  | endOfFile
  | newline
  | semicolon
  | ampersand
  | andSign
  | orSign
  | bar
  | leftParen
  | rightParen
  /-- Two semicolons. -/
  | endCase
  | redirect (descriptor : Nat) (kind : RedirectKind)
  /-- A word that has a meaning of its own where it stands. -/
  | keyword (name : String)
  | word (word : Word)

/-- A text in the script that is announced on a line and follows it. -/
structure PendingDocument where
  number : Nat
  /-- The line that ends the text. -/
  mark : String
  /-- Whether there are expansions in the text. -/
  expands : Bool
  stripTabs : Bool

/-- A position in a script. -/
structure Cursor where
  /-- The characters that are left. -/
  rest : List Char
  line : Nat := 1
  /-- A token that was read and is to be read again. -/
  pushed : Option Token := none
  pending : List PendingDocument := []
  /-- The texts that were read, with their numbers. -/
  documents : List (Nat × Word) := []
  /-- The number of the next text. -/
  nextDocument : Nat := 0

/-- A reader of script text. -/
abbrev Reader := StateT Cursor (Except SyntaxError)

/-- Characters that end a word. -/
def isMeta (c : Char) : Bool :=
  [' ', '\t', '\n', ';', '&', '|', '<', '>', '(', ')'].contains c

def isNameStart (c : Char) : Bool :=
  c.isAlpha || c = '_'

def isNameChar (c : Char) : Bool :=
  c.isAlphanum || c = '_'

/-- Whether a text is the name of a variable or a function. -/
def isName (text : String) : Bool :=
  match text.toList with
  | c :: cs => isNameStart c && cs.all isNameChar
  | [] => false

/-- The signs that name a parameter. -/
def isSpecialParam (c : Char) : Bool :=
  ['@', '*', '#', '?', '$', '!', '-'].contains c

/-- The words that have a meaning of their own where a command starts. -/
def keywords : List String :=
  ["!", "case", "do", "done", "elif", "else", "esac", "fi", "for", "if", "in", "then", "until",
   "while", "\x7b", "\x7d"]

namespace Token

/-- A token as a message names it. -/
def describe : Token → String
  | .endOfFile => "end of file"
  | .newline => "newline"
  | .semicolon => "\";\""
  | .ampersand => "\"&\""
  | .andSign => "\"&&\""
  | .orSign => "\"||\""
  | .bar => "\"|\""
  | .leftParen => "\"(\""
  | .rightParen => "\")\""
  | .endCase => "\";;\""
  | .redirect _ _ => "redirection"
  | .keyword name => "\"" ++ name ++ "\""
  | .word _ => "word"

/-- Whether a list of commands can end in front of the token. -/
def endsList : Token → Bool
  | .endOfFile | .rightParen | .endCase => true
  | .keyword name =>
    ["then", "else", "elif", "fi", "do", "done", "\x7d", "esac"].contains name
  | _ => false

def isKeyword (token : Token) (name : String) : Bool :=
  match token with
  | .keyword other => other = name
  | _ => false

end Token

namespace Word

/-- The text of a word of which nothing is quoted or expanded. -/
def plain? : Word → Option String
  | [] => some ""
  | [.text content] => some content
  | _ => none

/-- The word with a text in front. -/
def consText (content : String) (word : Word) : Word :=
  match word with
  | .text more :: parts => .text (content ++ more) :: parts
  | parts => .text content :: parts

/-- Whether a part is quoted. -/
def isQuotedPart : Part → Bool
  | .text _ | .malformed => false
  | .quoted _ => true
  | .param _ inQuotes | .length _ inQuotes | .altered _ inQuotes _ _ | .capture _ inQuotes
  | .arithmetic _ inQuotes => inQuotes

/-- Whether anything in a word is quoted. -/
def isQuoted (word : Word) : Bool :=
  word.any isQuotedPart

/-- The text of a word with its quotes taken away, where nothing is expanded. -/
def literal (word : Word) : String :=
  String.join (word.map fun part => match part with
    | .text content | .quoted content => content
    | _ => "")

/-- The name and the value of a word that is an assignment. -/
def assignment? (word : Word) : Option (String × Word) :=
  match word with
  | .text content :: parts =>
    let name := content.toList.takeWhile (· ≠ '=')
    match content.toList.drop name.length with
    | '=' :: value =>
      if isName (String.ofList name) then
        some (String.ofList name,
          if value.isEmpty then parts else .text (String.ofList value) :: parts)
      else
        none
    | _ => none
  | _ => none

end Word

namespace Reader

/-- Reports a mistake on the current line. -/
def fail {α : Type} (message : String) : Reader α := do
  throw ⟨(← get).line, "Syntax error: " ++ message⟩

/-- Reports a token that does not belong where it is. -/
def unexpected {α : Type} (token : Token) : Reader α :=
  fail (token.describe ++ " unexpected")

/-- Reports a token in the place of another one. -/
def expecting {α : Type} (token : Token) (wanted : String) : Reader α :=
  fail (token.describe ++ " unexpected (expecting " ++ wanted ++ ")")

/-- Joins the line with the next one where a backslash ends it. -/
def joinLines (line : Nat) : List Char → List Char × Nat
  | '\\' :: '\n' :: cs => joinLines (line + 1) cs
  | cs => (cs, line)

/-- The next character, after lines are joined. -/
def peek : Reader (Option Char) := do
  let cursor ← get
  let (rest, line) := joinLines cursor.line cursor.rest
  set { cursor with rest := rest, line := line }
  return rest.head?

/-- Takes characters as they are. -/
def skip (count : Nat) : Reader Unit :=
  modify fun cursor => { cursor with
    rest := cursor.rest.drop count
    line := cursor.line + (cursor.rest.take count).count '\n' }

/-- Takes a character that stands for an operation.  Even the end of a line counts as such a sign,
and then the line is not counted. -/
def skipSign : Reader Unit :=
  modify fun cursor => { cursor with rest := cursor.rest.drop 1 }

/-- Takes the next character as it is. -/
def next? : Reader (Option Char) := do
  let c := (← get).rest.head?
  skip 1
  return c

/-- Takes the characters up to the first one that `stop` holds of. -/
def takeUntil (stop : Char → Bool) : Reader String := do
  let cs := (← get).rest.takeWhile fun c => !stop c
  skip cs.length
  return String.ofList cs

/-- Takes the characters of a name or a number, across joined lines. -/
def takeRun (isIn : Char → Bool) : (bound : Nat) → Reader String
  | 0 => return ""
  | bound + 1 => do
    match ← peek with
    | some c =>
      if isIn c then
        skip 1
        return String.singleton c ++ (← takeRun isIn bound)
      else
        return ""
    | none => return ""

/-- Puts a token back. -/
def push (token : Token) : Reader Unit :=
  modify fun cursor => { cursor with pushed := some token }

/-- The text in single quotes, the first of which is taken already. -/
def singleQuoted : Reader String := do
  let text ← takeUntil (· = '\'')
  if (← get).rest.isEmpty then
    fail "Unterminated quoted string"
  skip 1
  return text

/-- The text between backquotes, the first of which is taken already.  A backslash is taken away
in front of a backquote, a backslash, a dollar sign and, inside double quotes, a double quote. -/
def backquoted (inQuotes : Bool) : List Char → Option (List Char × Nat)
  | [] => none
  | '`' :: _ => some ([], 1)
  | '\\' :: '\n' :: cs =>
    (backquoted inQuotes cs).map fun (text, length) => (text, length + 2)
  | '\\' :: c :: cs =>
    (backquoted inQuotes cs).map fun (text, length) =>
      (if c = '`' || c = '\\' || c = '$' || (inQuotes && c = '"') then c :: text
       else '\\' :: c :: text, length + 2)
  | c :: cs => (backquoted inQuotes cs).map fun (text, length) => (c :: text, length + 1)

/-- The lines of a text up to the one that is the mark, and how many characters they and the mark
take.  Where a backslash joins lines, the second of them is not the mark. -/
def documentLines (document : PendingDocument) :
    (joined : Bool) → (bound : Nat) → List Char → List Char × Nat
  | _, 0, _ => ([], 0)
  | _, _, [] => ([], 0)
  | joined, bound + 1, cs =>
    let raw := cs.takeWhile (· ≠ '\n')
    let taken := raw.length + (if raw.length < cs.length then 1 else 0)
    let line := if document.stripTabs && !joined then raw.dropWhile (· = '\t') else raw
    if !joined && String.ofList line = document.mark then
      ([], taken)
    else
      let backslashes := (raw.reverse.takeWhile (· = '\\')).length
      let joins := document.expands && backslashes % 2 = 1
      let (text, length) := documentLines document joins bound (cs.drop taken)
      (line ++ (cs.take taken).drop raw.length ++ text, taken + length)

end Reader

end Desugar.Shell
