import Desugar.Files.Calls
import Desugar.Shell.Arithmetic
import Desugar.Text.Octets

/-!
# Conditions

The conditions of `test`: about texts, numbers and files, with `!`, `-a`, `-o` and parentheses.  How
many arguments there are decides what is an operator and what is a text.
-/

namespace Desugar.Shell.Test

/-- What a condition can be asked about. -/
structure Surroundings where
  tree : FileTree
  cwd : Place
  executables : List Place

/-- The kinds of operators. -/
inductive Kind where
  | unary
  | binary
  | conjunction
  | disjunction
  | not
  | leftParen
  | rightParen
  deriving DecidableEq, Repr

/-- What kind of operator a word is. -/
def kind? (word : String) : Option Kind :=
  if ["-r", "-w", "-x", "-e", "-f", "-d", "-c", "-b", "-p", "-u", "-g", "-k", "-s", "-t", "-z",
      "-n", "-h", "-O", "-G", "-L", "-S"].contains word then
    some .unary
  else if ["=", "!=", "<", ">", "-eq", "-ne", "-ge", "-gt", "-le", "-lt", "-nt", "-ot",
      "-ef"].contains word then
    some .binary
  else
    match word with
    | "-a" => some .conjunction
    | "-o" => some .disjunction
    | "!" => some .not
    | "(" => some .leftParen
    | ")" => some .rightParen
    | _ => none

/-- The operator at the start of words.  A unary operator that is itself an operand, and an opening
parenthesis at the end, are texts. -/
def operator? (words : List String) : Option Kind :=
  match words with
  | [] => none
  | word :: rest =>
    let isOperand : Bool := match rest with
      | [] => true
      | [_] => false
      | next :: _ => kind? next = some .binary
    match kind? word with
    | some .unary => if isOperand then none else some .unary
    | some .leftParen => if rest.isEmpty then none else some .leftParen
    | kind => kind

/-- The number that an operand spells. -/
def number (text : String) : Except String Int :=
  let isBlank (c : Char) : Bool := c = ' ' || (9 ≤ c.toNat && c.toNat < 14)
  let (negative, cs) := match text.toList.dropWhile isBlank with
    | '-' :: cs => (true, cs)
    | '+' :: cs => (false, cs)
    | cs => (false, cs)
  let digits := cs.takeWhile Char.isDigit
  let value : Int := Text.ofDigits digits
  let value := if negative then -value else value
  if digits.isEmpty || !(cs.drop digits.length).all isBlank || !Text.fits64 value then
    .error ("Illegal number: " ++ text)
  else
    .ok value

/-- Whether a file is as a unary operator says. -/
def testFile (around : Surroundings) (operator path : String) : Bool :=
  match around.tree.resolve around.cwd ⟨Octets.decode path⟩ with
  | .error _ => false
  | .ok place =>
    match operator, around.tree.node? place with
    | "-e", _ | "-r", _ | "-w", _ | "-O", _ | "-G", _ => true
    | "-f", some (.file _) => true
    | "-d", some .directory => true
    | "-x", some .directory => true
    | "-x", some (.file _) => around.executables.contains place
    | "-s", some (.file content) => content.size ≠ 0
    | "-s", some .directory => true
    | "-c", some (.device _) => true
    | _, _ => false

/-- The result of a unary operator. -/
def unary (around : Surroundings) (operator operand : String) : Except String Bool :=
  match operator with
  | "-z" => .ok (operand = "")
  | "-n" => .ok (operand ≠ "")
  | "-t" => (number operand).map fun _ => false
  | _ => .ok (testFile around operator operand)

/-- The result of a binary operator. -/
def binary (around : Surroundings) (operator left right : String) : Except String Bool :=
  match operator with
  | "=" => .ok (left = right)
  | "!=" => .ok (left ≠ right)
  | "<" => .ok (decide (left < right))
  | ">" => .ok (decide (right < left))
  | "-ef" =>
    let resolve (path : String) : Option Place :=
      (around.tree.resolve around.cwd ⟨Octets.decode path⟩).toOption
    .ok ((resolve left).isSome && resolve left = resolve right)
  | "-nt" => .ok (testFile around "-e" left && !testFile around "-e" right)
  | "-ot" => .ok (!testFile around "-e" left && testFile around "-e" right)
  | _ => do
    let a ← number left
    let b ← number right
    match operator with
    | "-eq" => .ok (a = b)
    | "-ne" => .ok (a ≠ b)
    | "-lt" => .ok (a < b)
    | "-le" => .ok (a ≤ b)
    | "-gt" => .ok (a > b)
    | _ => .ok (a ≥ b)

mutual

/-- Conditions of which one has to hold.  The result comes with the words from the last one that was
taken on. -/
def disjunction (around : Surroundings) (kind : Option Kind) (words : List String) :
    (bound : Nat) → Except String (Bool × List String)
  | 0 => .error "argument expected"
  | bound + 1 => do
    let (first, words) ← conjunction around kind words bound
    if operator? words.tail = some .disjunction then
      let words := words.tail.tail
      let (second, words) ← disjunction around (operator? words) words bound
      return (first || second, words)
    else
      return (first, words)
termination_by structural bound => bound

/-- Conditions that all have to hold. -/
def conjunction (around : Surroundings) (kind : Option Kind) (words : List String) :
    (bound : Nat) → Except String (Bool × List String)
  | 0 => .error "argument expected"
  | bound + 1 => do
    let (first, words) ← negation around kind words bound
    if operator? words.tail = some .conjunction then
      let words := words.tail.tail
      let (second, words) ← conjunction around (operator? words) words bound
      return (first && second, words)
    else
      return (first, words)
termination_by structural bound => bound

/-- A condition with exclamation marks in front or not. -/
def negation (around : Surroundings) (kind : Option Kind) (words : List String) :
    (bound : Nat) → Except String (Bool × List String)
  | 0 => .error "argument expected"
  | bound + 1 => do
    if kind = some .not then
      match words.tail with
      | [] => return (true, words)
      | rest =>
        let (result, words) ← negation around (operator? rest) rest bound
        return (!result, words)
    else
      primary around kind words bound
termination_by structural bound => bound

/-- A single condition, or conditions in parentheses. -/
def primary (around : Surroundings) (kind : Option Kind) (words : List String) :
    (bound : Nat) → Except String (Bool × List String)
  | 0 => .error "argument expected"
  | bound + 1 => do
    match words with
    | [] => return (false, [])
    | word :: rest =>
      if kind = some .leftParen then
        if operator? rest = some .rightParen then
          return (false, rest)
        else
          let (result, words) ← disjunction around (operator? rest) rest bound
          if operator? words.tail = some .rightParen then
            return (result, words.tail)
          else
            .error "closing paren expected"
      else if kind = some .unary then
        match rest with
        | [] => .error (word ++ ": argument expected")
        | operand :: _ => return (← unary around word operand, rest)
      else if operator? rest = some .binary then
        match rest with
        | operator :: right :: more =>
          return (← binary around operator word right, right :: more)
        | operator :: [] => .error (operator ++ ": argument expected")
        | [] => return (false, [])
      else
        return (word ≠ "", words)
termination_by structural bound => bound

end

/-- The result of conditions, where `kind` is the operator that they start with. -/
def evaluateFrom (around : Surroundings) (kind : Option Kind) (words : List String) :
    Except String Bool := do
  let (result, words) ← disjunction around kind words (8 * (words.length + 2))
  match words with
  | word :: _ :: _ => .error (word ++ ": unexpected operator")
  | _ => .ok result

/-- The result of a condition in words.  There are rules of their own for three and four. -/
def evaluate (around : Surroundings) (words : List String) : Except String Bool :=
  match words with
  | [] => .ok false
  | [first, operator, last] =>
    if kind? operator = some .binary then
      evaluateFrom around none words
    else if first = "(" && last = ")" then
      evaluateFrom around (operator? [operator]) [operator]
    else if first = "!" then
      (evaluateFrom around (operator? words.tail) words.tail).map (!·)
    else
      evaluateFrom around (operator? words) words
  | [first, second, third, last] =>
    if first = "(" && last = ")" then
      evaluateFrom around (operator? [second, third]) [second, third]
    else if first = "!" then
      (evaluate around [second, third, last]).map (!·)
    else
      evaluateFrom around (operator? words) words
  | _ => evaluateFrom around (operator? words) words

end Desugar.Shell.Test
