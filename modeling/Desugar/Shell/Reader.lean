import Desugar.Shell.Cursor

/-!
# Reading scripts

The reader of the commands in a script.  A script is read a line at a time, with the lines that a
command draws in, so that what stands in front of a mistake is carried out.

The readers call each other as words, commands and expansions nest.  Each call hands on a smaller
bound, and `Reader.bound` is more than any text can use up.
-/

namespace Desugar.Shell

/-- Where a text with expansions, and no other quotes, ends. -/
inductive QuoteEnd where
  /-- At a double quote. -/
  | quote
  /-- At the closing brace of an expansion. -/
  | brace
  /-- At the end of the script text. -/
  | text
  deriving DecidableEq, Repr

/-- How far a list of commands goes. -/
inductive ListMode where
  /-- To the end of the line. -/
  | line
  /-- To a token that can end it; there is at least one command. -/
  | some
  /-- To a token that can end it. -/
  | any
  deriving DecidableEq, Repr

/-- The commands whose errors end a script, and whose names no function can have. -/
def specialCommands : List String :=
  [".", ":", "break", "continue", "eval", "exec", "exit", "export", "local", "readonly", "return",
   "set", "shift", "times", "trap", "unset"]

namespace Reader

/-- A literal part, quoted or not. -/
def literalPart (inQuotes : Bool) (content : String) : Part :=
  if inQuotes then .quoted content else .text content

/-- The alteration that a sign in an expansion means.  A colon comes in front of `orEmpty`. -/
def alteration? (orEmpty : Bool) : Char → Option Alteration
  | '-' => some (.fallback orEmpty)
  | '=' => some (.assign orEmpty)
  | '?' => some (.demand orEmpty)
  | '+' => some (.replace orEmpty)
  | _ => none

/-- The rest of a redirection, from its sign on. -/
def redirectToken (descriptor : Option Nat) : Reader Token := do
  let sign ← next?
  let input := descriptor.getD 0
  let output := descriptor.getD 1
  let second ← peek
  if sign = some '<' then
    match second with
    | some '<' =>
      skip 1
      if (← peek) = some '-' then
        skip 1
        return .redirect input (.document true)
      else
        return .redirect input (.document false)
    | some '&' => skip 1; return .redirect input .duplicate
    | some '>' => skip 1; return .redirect input (.file .readWrite)
    | _ => return .redirect input (.file .read)
  else
    match second with
    | some '>' => skip 1; return .redirect output (.file .append)
    | some '&' => skip 1; return .redirect output .duplicate
    | some '|' => skip 1; return .redirect output (.file .overwrite)
    | _ => return .redirect output (.file .write)

/-- The token of a sign that may be doubled. -/
def signToken (c : Char) (single double : Token) : Reader Token := do
  skip 1
  if (← peek) = some c then
    skip 1
    return double
  else
    return single

mutual

/-- The parts of a word outside double quotes.  Inside the braces of an expansion only the closing
brace ends it. -/
def bareParts (inBraces : Bool) : (bound : Nat) → Reader Word
  | 0 => fail "word unexpected"
  | bound + 1 => do
    match ← peek with
    | none => return []
    | some '\\' =>
      skip 1
      let content := (← next?).getD '\\'
      return .quoted (String.singleton content) :: (← bareParts inBraces bound)
    | some '\'' =>
      skip 1
      let content ← singleQuoted
      return .quoted content :: (← bareParts inBraces bound)
    | some '"' =>
      skip 1
      let inner ← quotedParts .quote bound
      let inner := match inner with
        | [.param "@" _] => inner
        | _ => .quoted "" :: inner
      return inner ++ (← bareParts inBraces bound)
    | some '$' =>
      skip 1
      let part ← expansion false bound
      let rest ← bareParts inBraces bound
      match part with
      | .text content => return Word.consText content rest
      | _ => return part :: rest
    | some '`' =>
      skip 1
      let part ← backquotes false bound
      return part :: (← bareParts inBraces bound)
    | some c =>
      if (if inBraces then c = '\x7d' else isMeta c) then
        return []
      else
        let content ← takeUntil fun c =>
          ['\\', '\'', '"', '$', '`'].contains c || (if inBraces then c = '\x7d' else isMeta c)
        return Word.consText content (← bareParts inBraces bound)
termination_by structural bound => bound

/-- The parts of a text inside double quotes, or of one that reads like that. -/
def quotedParts (ending : QuoteEnd) : (bound : Nat) → Reader Word
  | 0 => fail "word unexpected"
  | bound + 1 => do
    match ← peek with
    | none => if ending = .text then return [] else fail "Unterminated quoted string"
    | some '"' =>
      skip 1
      match ending with
      | .quote => return []
      | .brace => return (← quotedParts .quote bound) ++ (← quotedParts .brace bound)
      | .text => return .quoted "\"" :: (← quotedParts .text bound)
    | some '\\' =>
      skip 1
      let content ← match ← next? with
        | none => pure "\\"
        | some c =>
          if ['\\', '`', '$'].contains c || (c = '"' && ending ≠ .text)
              || (c = '\x7d' && ending = .brace) then
            pure (String.singleton c)
          else
            pure (String.ofList ['\\', c])
      return .quoted content :: (← quotedParts ending bound)
    | some '$' =>
      skip 1
      let part ← expansion true bound
      return part :: (← quotedParts ending bound)
    | some '`' =>
      skip 1
      let part ← backquotes true bound
      return part :: (← quotedParts ending bound)
    | some c =>
      if ending = .brace && c = '\x7d' then
        return []
      else
        let content ← takeUntil fun c =>
          ['\\', '"', '$', '`'].contains c || (ending = .brace && c = '\x7d')
        return .quoted content :: (← quotedParts ending bound)
termination_by structural bound => bound

/-- The parts of an arithmetic expression, up to two closing parentheses outside any others. -/
def arithmeticParts (depth : Nat) : (bound : Nat) → Reader Word
  | 0 => fail "word unexpected"
  | bound + 1 => do
    match ← peek with
    | none => fail "Missing '))'"
    | some '\\' =>
      skip 1
      let content ← match ← next? with
        | none => pure "\\"
        | some c =>
          if ['\\', '`', '$', '"'].contains c then pure (String.singleton c)
          else pure (String.ofList ['\\', c])
      return .quoted content :: (← arithmeticParts depth bound)
    | some '$' =>
      skip 1
      let part ← expansion true bound
      return part :: (← arithmeticParts depth bound)
    | some '`' =>
      skip 1
      let part ← backquotes true bound
      return part :: (← arithmeticParts depth bound)
    | some '(' =>
      skip 1
      return .quoted "(" :: (← arithmeticParts (depth + 1) bound)
    | some ')' =>
      skip 1
      if depth > 0 then
        return .quoted ")" :: (← arithmeticParts (depth - 1) bound)
      else if (← peek) = some ')' then
        skip 1
        return []
      else
        return .quoted ")" :: (← arithmeticParts 0 bound)
    | some _ =>
      let content ← takeUntil fun c => ['\\', '$', '`', '(', ')'].contains c
      return .quoted content :: (← arithmeticParts depth bound)
termination_by structural bound => bound

/-- The expansion after a dollar sign, or the sign itself. -/
def expansion (inQuotes : Bool) : (bound : Nat) → Reader Part
  | 0 => fail "word unexpected"
  | bound + 1 => do
    match ← peek with
    | some '(' =>
      skip 1
      if (← peek) = some '(' then
        skip 1
        return .arithmetic (← arithmeticParts 0 bound) inQuotes
      else
        let outer := (← get).pending
        modify fun cursor => { cursor with pending := [] }
        let script ← list .any bound
        let token ← readToken true true bound
        match token with
        | .rightParen =>
          modify fun cursor => { cursor with pending := outer }
          return .capture script inQuotes
        | _ => expecting token "\")\""
    | some '\x7b' => skip 1; braced inQuotes bound
    | some c =>
      if isNameStart c then
        return .param (← takeRun isNameChar bound) inQuotes
      else if c.isDigit || isSpecialParam c then
        skip 1
        return .param (String.singleton c) inQuotes
      else
        return literalPart inQuotes "$"
    | none => return literalPart inQuotes "$"
termination_by structural bound => bound

/-- The expansion in braces, the first of which is taken already. -/
def braced (inQuotes : Bool) : (bound : Nat) → Reader Part
  | 0 => fail "word unexpected"
  | bound + 1 => do
    match ← peek with
    | some '#' =>
      skip 1
      match ← peek with
      | some c =>
        if isNameChar c then
          let name ← takeRun (if c.isDigit then Char.isDigit else isNameChar) bound
          if (← peek) = some '\x7d' then
            skip 1
            return .length name inQuotes
          else
            malformedRest inQuotes bound
        else
          let ahead := (← get).rest
          skip 1
          let second ← peek
          if c ≠ '\x7d' && isSpecialParam c && second = some '\x7d' then
            skip 1
            return .length (String.singleton c) inQuotes
          else
            modify fun cursor => { cursor with rest := ahead }
            alteredParam "#" inQuotes bound
      | none => malformedRest inQuotes bound
    | some c =>
      if isNameStart c then
        alteredParam (← takeRun isNameChar bound) inQuotes bound
      else if c.isDigit then
        alteredParam (← takeRun Char.isDigit bound) inQuotes bound
      else if isSpecialParam c then
        skip 1
        alteredParam (String.singleton c) inQuotes bound
      else
        malformedRest inQuotes bound
    | none => malformedRest inQuotes bound
termination_by structural bound => bound

/-- What follows the name in an expansion in braces. -/
def alteredParam (name : String) (inQuotes : Bool) : (bound : Nat) → Reader Part
  | 0 => fail "word unexpected"
  | bound + 1 => do
    match ← peek with
    | some '\x7d' =>
      skip 1
      return .param name inQuotes
    | some '%' =>
      skip 1
      let longest := (← peek) = some '%'
      if longest then skip 1
      return .altered name inQuotes (.dropEnd longest) (← operand false bound)
    | some '#' =>
      skip 1
      let longest := (← peek) = some '#'
      if longest then skip 1
      return .altered name inQuotes (.dropStart longest) (← operand false bound)
    | some ':' =>
      skip 1
      match (← peek).bind (alteration? true) with
      | some alteration =>
        skip 1
        return .altered name inQuotes alteration (← operand inQuotes bound)
      | none =>
        skipSign
        malformedRest inQuotes bound
    | some c =>
      match alteration? false c with
      | some alteration =>
        skip 1
        return .altered name inQuotes alteration (← operand inQuotes bound)
      | none =>
        skipSign
        malformedRest inQuotes bound
    | none => malformedRest inQuotes bound
termination_by structural bound => bound

/-- The rest of an expansion that is none, up to its closing brace. -/
def malformedRest (inQuotes : Bool) : (bound : Nat) → Reader Part
  | 0 => fail "word unexpected"
  | bound + 1 => do
    let _ ← operand inQuotes bound
    return .malformed
termination_by structural bound => bound

/-- The operand of an expansion in braces, and the closing brace. -/
def operand (inQuotes : Bool) : (bound : Nat) → Reader Word
  | 0 => fail "word unexpected"
  | bound + 1 => do
    let word ← if inQuotes then quotedParts .brace bound else bareParts true bound
    match ← peek with
    | some _ =>
      skip 1
      return word
    | none => fail "Missing '\x7d'"
termination_by structural bound => bound

/-- The output of commands between backquotes, the first of which is taken already. -/
def backquotes (inQuotes : Bool) : (bound : Nat) → Reader Part
  | 0 => fail "word unexpected"
  | bound + 1 => do
    match backquoted inQuotes (← get).rest with
    | none =>
      let rest := (← get).rest
      skip rest.length
      fail "EOF in backquote substitution"
    | some (text, length) =>
      skip length
      let outer ← get
      set { outer with rest := text, line := 1, pending := [] }
      let script ← list .any bound
      let token ← readToken true true bound
      match token with
      | .endOfFile =>
        modify fun cursor => { cursor with
          rest := outer.rest, line := outer.line, pending := outer.pending, pushed := none }
        return .capture script inQuotes
      | _ => expecting token "end of file"
termination_by structural bound => bound

/-- The next token. -/
def nextToken : (bound : Nat) → Reader Token
  | 0 => fail "word unexpected"
  | bound + 1 => do
    if let some token := (← get).pushed then
      modify fun cursor => { cursor with pushed := none }
      return token
    match ← peek with
    | none => return .endOfFile
    | some ' ' | some '\t' =>
      skip 1
      nextToken bound
    | some '#' =>
      let _ ← takeUntil (· = '\n')
      nextToken bound
    | some '\n' =>
      skip 1
      return .newline
    | some '&' => signToken '&' .ampersand .andSign
    | some '|' => signToken '|' .bar .orSign
    | some ';' => signToken ';' .semicolon .endCase
    | some '(' =>
      skip 1
      return .leftParen
    | some ')' =>
      skip 1
      return .rightParen
    | some _ =>
      let word ← bareParts false bound
      let isRedirect := match ← peek with
        | some c => c = '<' || c = '>'
        | none => false
      match word, isRedirect with
      | [], true => redirectToken none
      | [.text digit], true =>
        match digit.toList with
        | [c] => if c.isDigit then redirectToken (some (c.toNat - '0'.toNat)) else return .word word
        | _ => return .word word
      | _, _ => return .word word
termination_by structural bound => bound

/-- The next token, where line ends may not count and words may be keywords. -/
def readToken (skipLines asKeyword : Bool) : (bound : Nat) → Reader Token
  | 0 => fail "word unexpected"
  | bound + 1 => do
    let token ← nextToken bound
    match token with
    | .newline =>
      if skipLines then
        readDocuments bound
        readToken skipLines asKeyword bound
      else
        return token
    | .word word =>
      match word.plain? with
      | some name =>
        return if asKeyword && keywords.contains name then .keyword name else token
      | none => return token
    | _ => return token
termination_by structural bound => bound

/-- Reads the texts that were announced on the line that has ended. -/
def readDocuments : (bound : Nat) → Reader Unit
  | 0 => fail "word unexpected"
  | bound + 1 => do
    match (← get).pending with
    | [] => return
    | document :: pending =>
      let (text, length) := documentLines document false bound (← get).rest
      skip length
      let outer ← get
      let word ← if document.expands then
          set { outer with rest := text, pending := [] }
          quotedParts .text bound
        else
          pure [.quoted (String.ofList text)]
      modify fun cursor => { cursor with
        rest := outer.rest, line := outer.line, pending := pending
        documents := (document.number, word) :: cursor.documents }
      readDocuments bound
termination_by structural bound => bound

/-- A list of commands. -/
def list (mode : ListMode) : (bound : Nat) → Reader (List Command)
  | 0 => fail "word unexpected"
  | bound + 1 => do
    let token ← readToken (mode ≠ .line) true bound
    match token with
    | .newline =>
      readDocuments bound
      return []
    | .endOfFile =>
      readDocuments bound
      push token
      return []
    | _ =>
      push token
      if mode = .any && token.endsList then
        return []
      else
        listRest mode bound
termination_by structural bound => bound

/-- A list of commands from a first one on. -/
def listRest (mode : ListMode) : (bound : Nat) → Reader (List Command)
  | 0 => fail "word unexpected"
  | bound + 1 => do
    let first ← andOr bound
    let token ← readToken false false bound
    match token with
    | .ampersand => return .background first :: (← listMore mode bound)
    | .semicolon => return first :: (← listMore mode bound)
    | .newline =>
      push token
      return first :: (← listMore mode bound)
    | .endOfFile =>
      readDocuments bound
      push token
      return [first]
    | _ =>
      if mode = .line then
        unexpected token
      else
        push token
        return [first]
termination_by structural bound => bound

/-- What follows a command and its end in a list. -/
def listMore (mode : ListMode) : (bound : Nat) → Reader (List Command)
  | 0 => fail "word unexpected"
  | bound + 1 => do
    let token ← readToken (mode ≠ .line) true bound
    match token with
    | .newline =>
      readDocuments bound
      return []
    | _ =>
      push token
      if token.endsList && (mode ≠ .line || token.describe = "end of file") then
        return []
      else
        listRest mode bound
termination_by structural bound => bound

/-- Pipelines that depend on each other's success. -/
def andOr : (bound : Nat) → Reader Command
  | 0 => fail "word unexpected"
  | bound + 1 => do
    andOrMore (← pipeline false bound) bound
termination_by structural bound => bound

/-- What follows a pipeline. -/
def andOrMore (first : Command) : (bound : Nat) → Reader Command
  | 0 => fail "word unexpected"
  | bound + 1 => do
    let token ← readToken false false bound
    match token with
    | .andSign => andOrMore (.both first (← pipeline true bound)) bound
    | .orSign => andOrMore (.either first (← pipeline true bound)) bound
    | _ =>
      push token
      return first
termination_by structural bound => bound

/-- A pipeline, with an exclamation mark in front or not. -/
def pipeline (skipLines : Bool) : (bound : Nat) → Reader Command
  | 0 => fail "word unexpected"
  | bound + 1 => do
    let token ← readToken skipLines true bound
    let negated := token.isKeyword "!"
    unless negated do
      push token
    let first ← command false bound
    let rest ← pipelineMore bound
    let whole := if rest.isEmpty then first else .pipeline (first :: rest)
    return if negated then .negated whole else whole
termination_by structural bound => bound

/-- The commands after the first one of a pipeline. -/
def pipelineMore : (bound : Nat) → Reader (List Command)
  | 0 => fail "word unexpected"
  | bound + 1 => do
    let token ← readToken false false bound
    match token with
    | .bar =>
      let next ← command true bound
      return next :: (← pipelineMore bound)
    | _ =>
      push token
      return []
termination_by structural bound => bound

/-- Takes a keyword that has to be there. -/
def expectKeyword (name : String) : (bound : Nat) → Reader Unit
  | 0 => fail "word unexpected"
  | bound + 1 => do
    let token ← readToken true true bound
    unless token.isKeyword name do
      expecting token ("\"" ++ name ++ "\"")
termination_by structural bound => bound

/-- A command. -/
def command (skipLines : Bool) : (bound : Nat) → Reader Command
  | 0 => fail "word unexpected"
  | bound + 1 => do
    let token ← readToken skipLines true bound
    let line := (← get).line
    match token with
    | .keyword "if" =>
      let (branches, otherwise) ← branches bound
      withRedirects line (.choice branches otherwise) bound
    | .keyword "while" => loop line false bound
    | .keyword "until" => loop line true bound
    | .keyword "for" =>
      let token ← readToken false false bound
      match token with
      | .word word =>
        match word.plain?.filter isName with
        | some name => each line name bound
        | none => fail "Bad for loop variable"
      | _ => fail "Bad for loop variable"
    | .keyword "case" =>
      let token ← readToken false false bound
      match token with
      | .word subject =>
        let token ← readToken true true bound
        unless token.isKeyword "in" do
          expecting token "\"in\""
        let cases ← cases bound
        withRedirects line (.select line subject cases) bound
      | _ => expecting token "word"
    | .leftParen =>
      let body ← list .some bound
      let token ← readToken true true bound
      match token with
      | .rightParen => withRedirects line (.subshell line body) bound
      | _ => expecting token "\")\""
    | .keyword "\x7b" =>
      let body ← list .some bound
      expectKeyword "\x7d" bound
      withRedirects line (.group body) bound
    | .word _ | .redirect _ _ =>
      push token
      simple line [] [] [] bound
    | _ => unexpected token
termination_by structural bound => bound

/-- The branches of a choice after its first keyword. -/
def branches : (bound : Nat) → Reader (List (List Command × List Command) × List Command)
  | 0 => fail "word unexpected"
  | bound + 1 => do
    let condition ← list .some bound
    expectKeyword "then" bound
    let body ← list .some bound
    let token ← readToken true true bound
    match token with
    | .keyword "elif" =>
      let (rest, otherwise) ← branches bound
      return ((condition, body) :: rest, otherwise)
    | .keyword "else" =>
      let otherwise ← list .some bound
      expectKeyword "fi" bound
      return ([(condition, body)], otherwise)
    | .keyword "fi" => return ([(condition, body)], [])
    | _ => expecting token "\"fi\""
termination_by structural bound => bound

/-- A loop after its first keyword. -/
def loop (line : Nat) (negated : Bool) : (bound : Nat) → Reader Command
  | 0 => fail "word unexpected"
  | bound + 1 => do
    let condition ← list .some bound
    expectKeyword "do" bound
    let body ← list .some bound
    expectKeyword "done" bound
    withRedirects line (.loop negated condition body) bound
termination_by structural bound => bound

/-- A loop over words, after its variable. -/
def each (line : Nat) (name : String) : (bound : Nat) → Reader Command
  | 0 => fail "word unexpected"
  | bound + 1 => do
    let token ← readToken true true bound
    let words ← match token with
      | .keyword "in" => Option.some <$> eachWords bound
      | .semicolon => pure none
      | _ =>
        push token
        pure none
    expectKeyword "do" bound
    let body ← list .some bound
    expectKeyword "done" bound
    withRedirects line (.each line name words body) bound
termination_by structural bound => bound

/-- The words of a loop, up to the end of the line. -/
def eachWords : (bound : Nat) → Reader (List Word)
  | 0 => fail "word unexpected"
  | bound + 1 => do
    let token ← readToken false false bound
    match token with
    | .word word => return word :: (← eachWords bound)
    | .newline =>
      readDocuments bound
      return []
    | .semicolon => return []
    | _ => unexpected token
termination_by structural bound => bound

/-- The cases of a selection, up to its last keyword. -/
def cases : (bound : Nat) → Reader (List (List Word × List Command))
  | 0 => fail "word unexpected"
  | bound + 1 => do
    let token ← readToken true true bound
    match token with
    | .keyword "esac" => return []
    | .leftParen =>
      let token ← readToken false false bound
      case token bound
    | _ => case token bound
termination_by structural bound => bound

/-- A case whose first pattern is the given token, and those after it. -/
def case (token : Token) : (bound : Nat) → Reader (List (List Word × List Command))
  | 0 => fail "word unexpected"
  | bound + 1 => do
    let patterns ← casePatterns token bound
    let body ← list .any bound
    let token ← readToken true true bound
    match token with
    | .keyword "esac" => return [(patterns, body)]
    | .endCase => return (patterns, body) :: (← cases bound)
    | _ => expecting token "\";;\""
termination_by structural bound => bound

/-- The patterns of a case, up to the closing parenthesis. -/
def casePatterns (token : Token) : (bound : Nat) → Reader (List Word)
  | 0 => fail "word unexpected"
  | bound + 1 => do
    let pattern := match token with
      | .word word => word
      | .keyword name => [.text name]
      | _ => []
    let token ← readToken false false bound
    match token with
    | .bar => return pattern :: (← casePatterns (← readToken false false bound) bound)
    | .rightParen => return [pattern]
    | _ => expecting token "\")\""
termination_by structural bound => bound

/-- A simple command, or the definition of a function. -/
def simple (line : Nat) (assignments : List (String × Word)) (words : List Word)
    (redirects : List Redirect) : (bound : Nat) → Reader Command
  | 0 => fail "word unexpected"
  | bound + 1 => do
    let token ← readToken false false bound
    match token with
    | .word word =>
      match (if words.isEmpty then word.assignment? else none) with
      | some assignment =>
        simple line (assignments ++ [assignment]) words redirects bound
      | none => simple line assignments (words ++ [word]) redirects bound
    | .redirect descriptor kind =>
      let redirect ← redirectTarget descriptor kind bound
      simple line assignments words (redirects ++ [redirect]) bound
    | .leftParen =>
      match words, assignments, redirects with
      | [word], [], [] =>
        let token ← readToken false false bound
        match token with
        | .rightParen =>
          match word.plain?.filter isName with
          | some name =>
            if specialCommands.contains name then
              fail "Bad function name"
            else
              return .define name (← command true bound)
          | none => fail "Bad function name"
        | _ => expecting token "\")\""
      | _, _, _ =>
        push token
        return .simple line assignments words redirects
    | _ =>
      push token
      return .simple line assignments words redirects
termination_by structural bound => bound

/-- The word after the sign of a redirection. -/
def redirectTarget (descriptor : Nat) (kind : RedirectKind) : (bound : Nat) → Reader Redirect
  | 0 => fail "word unexpected"
  | bound + 1 => do
    let token ← readToken false false bound
    match token with
    | .word word =>
      match kind with
      | .file access => return .file descriptor access word
      | .duplicate => return .duplicate descriptor word
      | .document stripTabs =>
        let number := (← get).nextDocument
        let document : PendingDocument :=
          ⟨number, word.literal, !word.isQuoted, stripTabs⟩
        modify fun cursor => { cursor with
          nextDocument := number + 1, pending := cursor.pending ++ [document] }
        return .document descriptor number
    | _ => unexpected token
termination_by structural bound => bound

/-- A command with the redirections after it. -/
def withRedirects (line : Nat) (inner : Command) : (bound : Nat) → Reader Command
  | 0 => fail "word unexpected"
  | bound + 1 => do
    let redirects ← redirectsAfter bound
    return if redirects.isEmpty then inner else .redirected line inner redirects
termination_by structural bound => bound

/-- The redirections after a command. -/
def redirectsAfter : (bound : Nat) → Reader (List Redirect)
  | 0 => fail "word unexpected"
  | bound + 1 => do
    let token ← readToken false true bound
    match token with
    | .redirect descriptor kind =>
      let redirect ← redirectTarget descriptor kind bound
      return redirect :: (← redirectsAfter bound)
    | _ =>
      push token
      return []
termination_by structural bound => bound

end

/-- More steps than a text can take. -/
def bound (cursor : Cursor) : Nat :=
  16 * (cursor.rest.length + 4)

/-- The commands on the next line and on those it draws in, or none at the end of the text. -/
def nextCommands : Reader (Option (List Command)) := do
  let bound := bound (← get)
  let token ← readToken false true bound
  match token with
  | .endOfFile =>
    readDocuments bound
    return none
  | _ =>
    push token
    some <$> list .line bound

end Reader

end Desugar.Shell
