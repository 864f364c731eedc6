import Desugar.Text.Decimal

/-!
# Arithmetic

Expressions over whole numbers of 64 bits, as they stand between double parentheses.  Results wrap
around.  An expression may assign to variables; `Expr.eval` gives the assignments in order along
with the value, and leaves it to the shell to carry them out.
-/

namespace Desugar.Shell.Arithmetic

/-- Why an expression has no value. -/
inductive Problem where
  /-- Something else was expected in the expression. -/
  | expecting (what : String)
  | divisionByZero
  /-- The value of a variable is no number. -/
  | illegalNumber (text : String)
  deriving DecidableEq, Repr

inductive Operator where
  | mul | div | rem | add | sub | shiftLeft | shiftRight | lt | le | gt | ge | eq | ne
  | bitAnd | bitXor | bitOr
  deriving DecidableEq, Repr

inductive Expr where
  | number (value : Int64)
  | var (name : String)
  | negate (operand : Expr)
  | complement (operand : Expr)
  | not (operand : Expr)
  | binary (operator : Operator) (left right : Expr)
  | both (left right : Expr)
  | either (left right : Expr)
  | choice (condition first second : Expr)
  /-- An assignment, of the result of an operation on the old value if there is an operator. -/
  | assign (name : String) (operator : Option Operator) (value : Expr)
  deriving Repr

inductive Lexeme where
  | number (value : Int64)
  | name (name : String)
  | sign (text : String)
  /-- A character that is no part of an expression. -/
  | unknown
  deriving DecidableEq, Repr

/-- The largest number, which larger ones are read as. -/
def largest : Nat := 9223372036854775807

/-- The value of digits in a base. -/
def ofDigits (base : Nat) (digits : List Char) : Nat :=
  digits.foldl (fun value c => value * base + Text.digitValue c) 0

/-- A number at the start of a text, and what follows it. -/
def takeNumber (cs : List Char) : Nat × List Char :=
  let inBase (base : Nat) (cs : List Char) : List Char :=
    cs.takeWhile fun c => c.isAlphanum && Text.digitValue c < base
  let afterMark (base : Nat) (rest : List Char) : Nat × List Char :=
    let digits := inBase base rest
    if digits.isEmpty then (0, cs.tail) else (ofDigits base digits, rest.drop digits.length)
  match cs with
  | '0' :: 'x' :: rest | '0' :: 'X' :: rest => afterMark 16 rest
  | '0' :: 'b' :: rest | '0' :: 'B' :: rest => afterMark 2 rest
  | '0' :: rest =>
    let digits := inBase 8 rest
    (ofDigits 8 digits, rest.drop digits.length)
  | _ =>
    let digits := inBase 10 cs
    (ofDigits 10 digits, cs.drop digits.length)

/-- The signs of an expression, longer ones first. -/
def signs : List String :=
  ["<<=", ">>=", "<<", ">>", "<=", ">=", "==", "!=", "&&", "||", "+=", "-=", "*=", "/=", "%=", "&=",
   "^=", "|=", "<", ">", "=", "!", "&", "|", "+", "-", "*", "/", "%", "^", "~", "?", ":", "(", ")"]

/-- The lexemes of an expression. -/
def lexemes : (bound : Nat) → List Char → List Lexeme
  | 0, _ => []
  | _, [] => []
  | bound + 1, c :: cs =>
    if c = ' ' || c = '\t' || c = '\n' then
      lexemes bound cs
    else if c.isDigit then
      let (value, rest) := takeNumber (c :: cs)
      .number (Int64.ofNat (min value largest)) :: lexemes bound rest
    else if c.isAlpha || c = '_' then
      let name := (c :: cs).takeWhile fun c => c.isAlphanum || c = '_'
      .name (String.ofList name) :: lexemes bound ((c :: cs).drop name.length)
    else
      match signs.find? fun text => text.toList.isPrefixOf (c :: cs) with
      | some text => .sign text :: lexemes bound ((c :: cs).drop text.length)
      | none => [.unknown]

/-- A reader of lexemes. -/
abbrev Reader := StateT (List Lexeme) (Except Problem)

/-- Takes the next lexeme if it is one of some signs, and gives what the sign stands for. -/
def takeSign? {α : Type} (table : List (String × α)) : Reader (Option α) := do
  match ← get with
  | .sign text :: rest =>
    match table.lookup text with
    | some meaning =>
      set rest
      return some meaning
    | none => return none
  | _ => return none

/-- The signs between two operands, from those that bind most. -/
def levels : List (List (String × Operator)) :=
  [[("*", .mul), ("/", .div), ("%", .rem)], [("+", .add), ("-", .sub)],
   [("<<", .shiftLeft), (">>", .shiftRight)],
   [("<", .lt), ("<=", .le), (">", .gt), (">=", .ge)], [("==", .eq), ("!=", .ne)],
   [("&", .bitAnd)], [("^", .bitXor)], [("|", .bitOr)]]

/-- The signs that assign. -/
def assignments : List (String × Option Operator) :=
  [("=", none), ("*=", some .mul), ("/=", some .div), ("%=", some .rem), ("+=", some .add),
   ("-=", some .sub), ("<<=", some .shiftLeft), (">>=", some .shiftRight), ("&=", some .bitAnd),
   ("^=", some .bitXor), ("|=", some .bitOr)]

mutual

/-- A number, a variable, an expression in parentheses, or one with a sign in front. -/
def primary : (bound : Nat) → Reader Expr
  | 0 => throw (.expecting "primary")
  | bound + 1 => do
    match ← get with
    | .number value :: rest =>
      set rest
      return .number value
    | .name name :: rest =>
      set rest
      return .var name
    | .sign "(" :: rest =>
      set rest
      let inner ← assignment bound
      match ← takeSign? [(")", ())] with
      | some () => return inner
      | none => throw (.expecting "')'")
    | .sign "-" :: rest =>
      set rest
      return .negate (← primary bound)
    | .sign "+" :: rest =>
      set rest
      primary bound
    | .sign "!" :: rest =>
      set rest
      return .not (← primary bound)
    | .sign "~" :: rest =>
      set rest
      return .complement (← primary bound)
    | _ => throw (.expecting "primary")
termination_by structural bound => bound

/-- Operands with the signs of the given levels between them, of which the last binds least. -/
def binary (levels : List (List (String × Operator))) : (bound : Nat) → Reader Expr
  | 0 => throw (.expecting "primary")
  | bound + 1 => do
    match levels with
    | [] => primary bound
    | table :: tighter => binaryMore table tighter (← binary tighter bound) bound
termination_by structural bound => bound

/-- What follows the first operand of a level. -/
def binaryMore (table : List (String × Operator)) (tighter : List (List (String × Operator)))
    (left : Expr) : (bound : Nat) → Reader Expr
  | 0 => throw (.expecting "primary")
  | bound + 1 => do
    match ← takeSign? table with
    | none => return left
    | some operator =>
      let right ← binary tighter bound
      binaryMore table tighter (.binary operator left right) bound
termination_by structural bound => bound

/-- Operands that all have to hold. -/
def conjunction : (bound : Nat) → Reader Expr
  | 0 => throw (.expecting "primary")
  | bound + 1 => do
    let left ← binary levels.reverse bound
    match ← takeSign? [("&&", ())] with
    | none => return left
    | some () => return .both left (← conjunction bound)
termination_by structural bound => bound

/-- Operands of which one has to hold. -/
def disjunction : (bound : Nat) → Reader Expr
  | 0 => throw (.expecting "primary")
  | bound + 1 => do
    let left ← conjunction bound
    match ← takeSign? [("||", ())] with
    | none => return left
    | some () => return .either left (← disjunction bound)
termination_by structural bound => bound

/-- A choice by a condition. -/
def conditional : (bound : Nat) → Reader Expr
  | 0 => throw (.expecting "primary")
  | bound + 1 => do
    let condition ← disjunction bound
    match ← takeSign? [("?", ())] with
    | none => return condition
    | some () =>
      let first ← assignment bound
      match ← takeSign? [(":", ())] with
      | none => throw (.expecting "':'")
      | some () => return .choice condition first (← conditional bound)
termination_by structural bound => bound

/-- An assignment, or an expression without one. -/
def assignment : (bound : Nat) → Reader Expr
  | 0 => throw (.expecting "primary")
  | bound + 1 => do
    match ← get with
    | .name name :: .sign text :: rest =>
      match assignments.lookup text with
      | some operator =>
        set rest
        return .assign name operator (← assignment bound)
      | none => conditional bound
    | _ => conditional bound
termination_by structural bound => bound

end

/-- The expression that a text spells. -/
def parse (text : String) : Except Problem Expr := do
  let lexemes := lexemes (text.length + 1) text.toList
  let (expr, rest) ← (assignment (32 * (lexemes.length + 1))).run lexemes
  if rest.isEmpty then .ok expr else .error (.expecting "EOF")

/-- One for what holds and zero for what does not. -/
def ofBool (holds : Bool) : Int64 :=
  if holds then 1 else 0

/-- The result of an operation. -/
def Operator.apply (operator : Operator) (a b : Int64) : Except Problem Int64 :=
  match operator with
  | .mul => .ok (a * b)
  | .div => if b = 0 then .error .divisionByZero else .ok (a / b)
  | .rem => if b = 0 then .error .divisionByZero else .ok (a % b)
  | .add => .ok (a + b)
  | .sub => .ok (a - b)
  | .shiftLeft => .ok (a <<< b)
  | .shiftRight => .ok (a >>> b)
  | .lt => .ok (ofBool (a < b))
  | .le => .ok (ofBool (a ≤ b))
  | .gt => .ok (ofBool (b < a))
  | .ge => .ok (ofBool (b ≤ a))
  | .eq => .ok (ofBool (a = b))
  | .ne => .ok (ofBool (a ≠ b))
  | .bitAnd => .ok (a &&& b)
  | .bitXor => .ok (a ^^^ b)
  | .bitOr => .ok (a ||| b)

/-- The number that a text spells with a sign in front or not, and blanks around it.  A text of
blanks is zero. -/
def number? (text : String) : Option Int64 :=
  let isBlank (c : Char) : Bool := c = ' ' || (9 ≤ c.toNat && c.toNat < 14)
  let (negative, cs) := match text.toList.dropWhile isBlank with
    | '-' :: cs => (true, cs)
    | '+' :: cs => (false, cs)
    | cs => (false, cs)
  if cs.isEmpty then
    if (text.toList.dropWhile isBlank).isEmpty then some 0 else none
  else if !(cs.head?.any Char.isDigit) then
    none
  else
    let (value, rest) := takeNumber cs
    if !rest.all isBlank then
      none
    else if negative then
      if value ≤ largest + 1 then some (Int64.ofInt (-(value : Int))) else none
    else if value ≤ largest then
      some (Int64.ofNat value)
    else
      none

/-- The assignments that an expression has made so far, the last one first. -/
abbrev Evaluation := StateT (List (String × Int64)) (Except Problem)

/-- The value of a variable, after the assignments so far. -/
def valueOf (lookup : String → Option String) (name : String) : Evaluation Int64 := do
  match (← get).lookup name with
  | some value => return value
  | none =>
    let text := (lookup name).getD ""
    match number? text with
    | some value => return value
    | none => throw (.illegalNumber text)

/-- The value of an expression.  An operand that does not count is not looked at. -/
def Expr.eval (lookup : String → Option String) : Expr → Evaluation Int64
  | .number value => return value
  | .var name => valueOf lookup name
  | .negate operand => return -(← operand.eval lookup)
  | .complement operand => return ~~~(← operand.eval lookup)
  | .not operand => return ofBool ((← operand.eval lookup) = 0)
  | .binary operator left right => do
    let a ← left.eval lookup
    let b ← right.eval lookup
    operator.apply a b
  | .both left right => do
    if (← left.eval lookup) = 0 then return 0
    else return ofBool ((← right.eval lookup) ≠ 0)
  | .either left right => do
    if (← left.eval lookup) ≠ 0 then return 1
    else return ofBool ((← right.eval lookup) ≠ 0)
  | .choice condition first second => do
    if (← condition.eval lookup) ≠ 0 then first.eval lookup else second.eval lookup
  | .assign name operator value => do
    let old ← match operator with
      | some _ => valueOf lookup name
      | none => pure 0
    let operand ← value.eval lookup
    let result ← match operator with
      | some operator => operator.apply old operand
      | none => pure operand
    modify ((name, result) :: ·)
    return result

/-- The value of a text as an expression, and its assignments in order. -/
def evaluate (lookup : String → Option String) (text : String) :
    Except Problem (Int64 × List (String × Int64)) := do
  let (value, assigned) ← StateT.run ((← parse text).eval lookup) []
  return (value, assigned.reverse)

end Desugar.Shell.Arithmetic
