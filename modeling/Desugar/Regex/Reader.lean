import Desugar.Regex.Basic
import Desugar.Text.Decimal

/-!
# Reading regular expressions

The two ways to write a regular expression.  In the basic one the signs for groups, repetitions and
alternatives have a backslash in front, and in the extended one they have none.
-/

namespace Desugar.Regex

open Shell (SetItem)

/-- Why a text is no regular expression. -/
inductive Problem where
  | unmatchedParen
  | unmatchedClosing
  | unmatchedBracket
  | emptyBracket
  | bareClass
  | unmatchedBrace
  | invalidBrace
  | invalidRange
  | invalidClass
  | nothingToRepeat
  | invalidReference
  | trailingBackslash
  deriving DecidableEq, Repr

/-- The message for a problem. -/
def Problem.message : Problem → String
  | .unmatchedParen => "Unmatched ( or \\("
  | .unmatchedClosing => "Unmatched ) or \\)"
  | .unmatchedBracket => "Unmatched [, [^, [:, [., or [="
  | .emptyBracket => "Invalid regular expression"
  | .bareClass => "character class syntax is [[:space:]], not [:space:]"
  | .unmatchedBrace => "Unmatched \\\x7b"
  | .invalidBrace => "Invalid content of \\\x7b\\\x7d"
  | .invalidRange => "Invalid range end"
  | .invalidClass => "Invalid character class name"
  | .nothingToRepeat => "Invalid preceding regular expression"
  | .invalidReference => "Invalid back reference"
  | .trailingBackslash => "Trailing backslash"

/-- How an expression is written. -/
structure Dialect where
  /-- The signs have no backslash in front. -/
  extended : Bool
  /-- Signs that make no sense stand for themselves, and a repetition can be repeated. -/
  lenient : Bool := false
  /-- A bracket that looks like the name of a class is refused. -/
  refusesBareClass : Bool := false
  deriving DecidableEq, Repr

/-- A lexeme of a regular expression. -/
inductive Lexeme where
  | atom (regex : Regex)
  | leftParen
  | rightParen
  | bar
  | repetition (least : Nat) (most : Option Nat)
  | caret
  | dollar
  deriving DecidableEq, Repr

/-- A member of a bracket that stands for a single character. -/
def setChar? : List Char → Option (Char × List Char)
  | '[' :: '.' :: c :: '.' :: ']' :: rest => some (c, rest)
  | '[' :: '=' :: c :: '=' :: ']' :: rest => some (c, rest)
  | c :: rest => some (c, rest)
  | [] => none

/-- The items of a bracket up to its end, and what follows it. -/
def setItems (isFirst : Bool) :
    (bound : Nat) → List Char → Except Problem (List SetItem × List Char)
  | 0, _ => .error .unmatchedBracket
  | _, [] => .error .unmatchedBracket
  | bound + 1, c :: cs => do
    if c = ']' && !isFirst then
      return ([], cs)
    else
      match c, cs with
      | '[', ':' :: rest =>
        let name := rest.takeWhile (· ≠ ':')
        match rest.drop name.length with
        | ':' :: ']' :: rest =>
          if (Shell.charClass? (String.ofList name)).isNone then
            .error .invalidClass
          let (items, rest) ← setItems false bound rest
          return (.named (String.ofList name) :: items, rest)
        | _ => .error .unmatchedBracket
      | _, _ =>
        match setChar? (c :: cs) with
        | none => .error .unmatchedBracket
        | some (first, rest) =>
          match rest with
          | '-' :: d :: more =>
            if d = ']' then
              let (items, rest) ← setItems false bound rest
              return (.range first first :: items, rest)
            else
              match setChar? (d :: more) with
              | none => .error .unmatchedBracket
              | some (last, rest) =>
                if last < first then
                  .error .invalidRange
                let (items, rest) ← setItems false bound rest
                return (.range first last :: items, rest)
          | _ =>
            let (items, rest) ← setItems false bound rest
            return (.range first first :: items, rest)

/-- Whether the items of a bracket look like the name of a class with its colons, which would need
a second pair of brackets. -/
def isBareClass (items : List SetItem) : Bool :=
  let isSingle : SetItem → Bool
    | .range first last => first = last
    | .named _ => false
  let colon : SetItem := .range ':' ':'
  items.all isSingle && items.head? = some colon && items.getLast? = some colon &&
    items.any (· ≠ colon)

/-- The bracket expression after its opening bracket. -/
def bracket (dialect : Dialect) (cs : List Char) : Except Problem (Regex × List Char) := do
  let (negated, cs) := match cs with
    | '^' :: cs => (true, cs)
    | cs => (false, cs)
  if cs.isEmpty then
    .error .emptyBracket
  let (items, rest) ← setItems true (cs.length + 1) cs
  if dialect.refusesBareClass && isBareClass items then
    .error .bareClass
  return (.set negated items, rest)

/-- The bounds of a repetition, up to the brace that ends it, which in basic expressions has a
backslash in front. -/
def interval (extended : Bool) (cs : List Char) :
    Except Problem (Nat × Option Nat × List Char) := do
  let least := cs.takeWhile Char.isDigit
  let rest := cs.drop least.length
  let (most, rest) := match rest with
    | ',' :: rest =>
      let digits := rest.takeWhile Char.isDigit
      (if digits.isEmpty then none else some (Text.ofDigits digits), rest.drop digits.length)
    | rest => (some (Text.ofDigits least), rest)
  if !cs.contains '\x7d' then
    .error .unmatchedBrace
  if least.isEmpty && cs.head? ≠ some ',' then
    .error .invalidBrace
  if most.any (· < Text.ofDigits least) then
    .error .invalidBrace
  match extended, rest with
  | true, '\x7d' :: rest | false, '\\' :: '\x7d' :: rest =>
    return (Text.ofDigits least, most, rest)
  | _, _ => .error .invalidBrace

/-- The characters of a class that a letter after a backslash names. -/
def letterClass? (c : Char) : Option Regex :=
  let word : List SetItem := [.named "alnum", .range '_' '_']
  match c with
  | 'w' => some (.set false word)
  | 'W' => some (.set true word)
  | 's' => some (.set false [.named "space"])
  | 'S' => some (.set true [.named "space"])
  | 'b' => some (.boundary false)
  | 'B' => some (.boundary true)
  | '<' => some .wordStart
  | '>' => some .wordEnd
  | '`' => some .start
  | '\'' => some .finish
  | 'n' => some (.char '\n')
  | _ => none

/-- The lexemes of a regular expression. -/
def lexemes (dialect : Dialect) : (bound : Nat) → List Char → Except Problem (List Lexeme)
  | 0, _ => .ok []
  | _, [] => .ok []
  | bound + 1, c :: cs => do
    let put (lexeme : Lexeme) (rest : List Char) : Except Problem (List Lexeme) := do
      return lexeme :: (← lexemes dialect bound rest)
    match c with
    | '\\' =>
      match cs with
      | [] => .error .trailingBackslash
      | d :: rest =>
        if d.isDigit && d ≠ '0' then
          put (.atom (.backReference (d.toNat - '0'.toNat))) rest
        else
          match letterClass? d with
          | some regex => put (.atom regex) rest
          | none =>
            if dialect.extended then
              put (.atom (.char d)) rest
            else
              match d with
              | '(' => put .leftParen rest
              | ')' => put .rightParen rest
              | '|' => put .bar rest
              | '+' => put (.repetition 1 none) rest
              | '?' => put (.repetition 0 (some 1)) rest
              | '\x7b' =>
                let (least, most, rest) ← interval false rest
                put (.repetition least most) rest
              | _ => put (.atom (.char d)) rest
    | '[' =>
      let (regex, rest) ← bracket dialect cs
      put (.atom regex) rest
    | '.' => put (.atom .any) cs
    | '*' => put (.repetition 0 none) cs
    | '^' => put .caret cs
    | '$' => put .dollar cs
    | _ =>
      if dialect.extended then
        match c with
        | '(' => put .leftParen cs
        | ')' => put .rightParen cs
        | '|' => put .bar cs
        | '+' => put (.repetition 1 none) cs
        | '?' => put (.repetition 0 (some 1)) cs
        | '\x7b' =>
          match interval true cs with
          | .ok (least, most, rest) => put (.repetition least most) rest
          | .error problem =>
            if dialect.lenient && (problem = .unmatchedBrace ||
                !(cs.head?.any fun d => d.isDigit || d = ',')) then
              put (.atom (.char c)) cs
            else
              .error problem
        | _ => put (.atom (.char c)) cs
      else
        put (.atom (.char c)) cs

/-- How far the reading has come: the lexemes that are left and how many groups were opened. -/
structure Progress where
  lexemes : List Lexeme
  groups : Nat := 0
  /-- The groups that are closed. -/
  closed : List Nat := []

abbrev Reader := StateT Progress (Except Problem)

/-- The next lexeme. -/
def peek : Reader (Option Lexeme) := do
  return (← get).lexemes.head?

/-- Takes the next lexeme. -/
def skip : Reader Unit :=
  modify fun progress => { progress with lexemes := progress.lexemes.tail }

/-- The signs for repetitions after something. -/
def repetitionsOf (dialect : Dialect) (regex : Regex) : (bound : Nat) → Reader Regex
  | 0 => return regex
  | bound + 1 => do
    match ← peek with
    | some (.repetition least most) =>
      skip
      match regex with
      | .repeated _ _ _ =>
        if dialect.lenient then repetitionsOf dialect (.repeated regex least most) bound
        else throw .nothingToRepeat
      | _ => repetitionsOf dialect (.repeated regex least most) bound
    | _ => return regex

/-- What a repetition is where it repeats nothing. -/
def strayRepetition (dialect : Dialect) (least : Nat) (most : Option Nat) :
    Except Problem Regex :=
  let sign? : Option Char := match least, most with
    | 0, none => some '*'
    | 1, none => some '+'
    | 0, some 1 => some '?'
    | _, _ => none
  match sign? with
  | none => .error .nothingToRepeat
  | some sign =>
    if !dialect.extended then .ok (.char sign)
    else if dialect.lenient then .ok .empty
    else .error .nothingToRepeat

mutual

/-- Alternatives. -/
def alternatives (dialect : Dialect) (depth : Nat) : (bound : Nat) → Reader Regex
  | 0 => return .empty
  | bound + 1 => do
    let first ← sequences dialect depth true bound
    match ← peek with
    | some .bar =>
      skip
      return .either first (← alternatives dialect depth bound)
    | _ => return first
termination_by structural bound => bound

/-- Things that follow each other. -/
def sequences (dialect : Dialect) (depth : Nat) (isFirst : Bool) : (bound : Nat) → Reader Regex
  | 0 => return .empty
  | bound + 1 => do
    match ← peek with
    | none | some .bar => return .empty
    | some .rightParen =>
      if depth > 0 then
        return .empty
      else if dialect.extended && dialect.lenient then
        skip
        more dialect depth (.char ')') bound
      else
        throw .unmatchedClosing
    | some .leftParen =>
      skip
      let index := (← get).groups + 1
      modify fun progress => { progress with groups := index }
      let inner ← alternatives dialect (depth + 1) bound
      match ← peek with
      | some .rightParen =>
        skip
        modify fun progress => { progress with closed := index :: progress.closed }
        more dialect depth (.group index inner) bound
      | _ => throw .unmatchedParen
    | some (.repetition least most) =>
      skip
      let regex ← strayRepetition dialect least most
      if dialect.extended then
        return .sequence regex (← sequences dialect depth isFirst bound)
      else
        more dialect depth regex bound
    | some .caret =>
      skip
      if dialect.extended || isFirst then
        return .sequence .start (← sequences dialect depth isFirst bound)
      else
        more dialect depth (.char '^') bound
    | some .dollar =>
      skip
      let isLast := match ← peek with
        | none | some .rightParen | some .bar => true
        | _ => false
      if dialect.extended || isLast then
        more dialect depth .finish bound
      else
        more dialect depth (.char '$') bound
    | some (.atom regex) =>
      skip
      match regex with
      | .backReference index =>
        unless (← get).closed.contains index do
          throw .invalidReference
      | _ => pure ()
      more dialect depth regex bound
termination_by structural bound => bound

/-- What follows one thing, with its repetitions. -/
def more (dialect : Dialect) (depth : Nat) (regex : Regex) : (bound : Nat) → Reader Regex
  | 0 => return .empty
  | bound + 1 => do
    let whole ← repetitionsOf dialect regex bound
    return .sequence whole (← sequences dialect depth false bound)
termination_by structural bound => bound

end

/-- The regular expression that a text spells. -/
def parse (dialect : Dialect) (text : String) : Except Problem Regex := do
  let lexemes ← lexemes dialect (text.length + 1) text.toList
  let (regex, _) ← (alternatives dialect 0 (8 * (lexemes.length + 2))).run { lexemes := lexemes }
  return regex

end Desugar.Regex
