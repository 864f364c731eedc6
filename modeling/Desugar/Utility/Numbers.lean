import Desugar.Regex.Reader
import Desugar.Utility.Basic

/-!
# Programs on numbers

`seq` counts, and `expr` evaluates an expression that is given as arguments.
-/

namespace Desugar.Utility

open Shell Sh

/-! ## Counting -/

/-- A decimal number: its digits as a whole number, and how many of them are after the point. -/
structure Decimal where
  digits : Int
  places : Nat
  deriving DecidableEq, Repr

namespace Decimal

/-- The number that a text spells. -/
def parse? (text : String) : Option Decimal :=
  let (negative, cs) := match text.toList with
    | '-' :: cs => (true, cs)
    | '+' :: cs => (false, cs)
    | cs => (false, cs)
  let whole := cs.takeWhile Char.isDigit
  let fraction? : Option (List Char) := match cs.drop whole.length with
    | [] => some []
    | '.' :: rest => if rest.all Char.isDigit then some rest else none
    | _ => none
  fraction?.bind fun fraction =>
    if whole.isEmpty && fraction.isEmpty then none
    else
      let digits : Int := Text.ofDigits (whole ++ fraction)
      some ⟨if negative then -digits else digits, fraction.length⟩

/-- The digits of a number with so many places after the point. -/
def scaled (number : Decimal) (places : Nat) : Int :=
  number.digits * (Nat.pow 10 (places - number.places))

/-- A number of scaled digits as text, at least so wide. -/
def render (digits : Int) (places width : Nat) : String :=
  let shown := Nat.repr digits.natAbs
  let shown := String.ofList (List.replicate (places + 1 - shown.length) '0') ++ shown
  let whole := (shown.toList.take (shown.length - places))
  let fraction := shown.toList.drop (shown.length - places)
  let body := String.ofList whole ++
    (if places = 0 then "" else "." ++ String.ofList fraction)
  let sign := if digits < 0 then "-" else ""
  sign ++ String.ofList (List.replicate (width - (sign.length + body.length)) '0') ++ body

end Decimal

/-- The numbers from one to another in steps. -/
def countUp (first step last : Int) : (bound : Nat) → List Int
  | 0 => []
  | bound + 1 =>
    if (step > 0 && first > last) || (step < 0 && first < last) then []
    else first :: countUp (first + step) step last bound

/-- The options of `seq`, and its numbers. -/
def seqArguments : Arguments → List String → Except Char Arguments
  | args, [] => .ok args
  | args, "--" :: rest => .ok { args with operands := args.operands ++ rest }
  | args, argument :: rest =>
    match argument.toList with
    | ['-', letter] =>
      if letter = 'w' then
        seqArguments { args with options := ('w', "") :: args.options } rest
      else if letter = 's' || letter = 'f' then
        match rest with
        | value :: rest =>
          seqArguments { args with options := (letter, value) :: args.options } rest
        | [] => .error letter
      else if letter.isDigit then
        seqArguments { args with operands := args.operands ++ [argument] } rest
      else
        .error letter
    | '-' :: letter :: more =>
      if letter = 's' || letter = 'f' then
        seqArguments { args with options := (letter, String.ofList more) :: args.options } rest
      else if letter.isDigit || letter = '.' then
        seqArguments { args with operands := args.operands ++ [argument] } rest
      else if argument = "--equal-width" then
        seqArguments { args with options := ('w', "") :: args.options } rest
      else
        .error letter
    | _ => seqArguments { args with operands := args.operands ++ [argument] } rest
termination_by _ args => args.length

/-- A number in a format of `seq`, which has one conversion. -/
def seqFormat (format : String) (digits : Int) (places : Nat) : String :=
  let before := format.toList.takeWhile (· ≠ '%')
  let spec := (format.toList.drop before.length).drop 1
  let flags := spec.takeWhile fun c => ['-', '+', ' ', '0', '#'].contains c
  let rest := spec.drop flags.length
  let width := rest.takeWhile Char.isDigit
  let rest := rest.drop width.length
  let (precision, rest) : Option Nat × List Char := match rest with
    | '.' :: more =>
      let precision := more.takeWhile Char.isDigit
      (some (Text.ofDigits precision), more.drop precision.length)
    | rest => (none, rest)
  let places' := match precision, rest.head? with
    | some precision, some 'f' => precision
    | none, some 'f' => 6
    | _, _ => places
  let value := if places' ≥ places then digits * (Nat.pow 10 (places' - places))
    else digits / (Nat.pow 10 (places - places'))
  let width := Text.ofDigits width
  let body := Decimal.render value places' (if flags.contains '0' then width else 0)
  let fill := String.ofList (List.replicate (width - body.length) ' ')
  String.ofList before ++ (if flags.contains '-' then body ++ fill else fill ++ body) ++
    String.ofList (rest.drop 1)

def seq : Program := fun args => do
  match seqArguments {} args with
  | .error letter => refuse "seq" ("invalid option -- " ++ quote (String.singleton letter)) 1
  | .ok args =>
    match args.operands.find? fun text => (Decimal.parse? text).isNone with
    | some text => refuse "seq" ("invalid floating point argument: " ++ quote text) 1
    | none =>
      let one : Decimal := ⟨1, 0⟩
      let count (first step last : Decimal) : Sh Nat := do
        if step.digits = 0 then
          refuse "seq" ("invalid Zero increment value: " ++
            quote (args.operands[1]?.getD "0")) 1
        else
          let places := max first.places step.places
          let scale := max places last.places
          let unit : Int := (Nat.pow 10 (scale - places))
          let start := first.scaled scale
          let stride := step.scaled scale
          let stop := last.scaled scale
          let bound := ((stop - start) / stride).toNat + 2
          let numbers := (countUp start stride stop bound).map (· / unit)
          let width := if args.has 'w' then
              ((numbers.map fun number => (Decimal.render number places 0).length).foldl max 0)
            else
              0
          let shown := numbers.map fun number => match args.value? 'f' with
            | some format => seqFormat format number places
            | none => Decimal.render number places width
          unless shown.isEmpty do
            say (((args.value? 's').getD "\n").intercalate shown ++ "\n")
          return 0
      match args.operands.filterMap Decimal.parse? with
      | [last] => count one one last
      | [first, last] => count first one last
      | [first, step, last] => count first step last
      | [] => refuse "seq" "missing operand" 1
      | _ => refuse "seq" ("extra operand " ++ quote (args.operands[3]?.getD "")) 1

/-! ## Expressions -/

namespace Expr

/-- Why an expression has no value. -/
inductive Problem where
  | missingAfter (word : String)
  | unexpected (word : String)
  | expectingParen (word : String)
  | notNumber
  | divisionByZero
  | badPattern (problem : Regex.Problem)

def Problem.message : Problem → String
  | .missingAfter word => "syntax error: missing argument after " ++ quote word
  | .unexpected word => "syntax error: unexpected argument " ++ quote word
  | .expectingParen word => "syntax error: expecting ')' after " ++ quote word
  | .notNumber => "non-integer argument"
  | .divisionByZero => "division by zero"
  | .badPattern problem => problem.message

/-- The words that are left, and the one before them. -/
structure Cursor where
  before : String
  words : List String

abbrev Reader := StateT Cursor (Except Problem)

/-- The whole number that a text spells. -/
def integer? (text : String) : Option Int :=
  match text.toList with
  | '-' :: digits => (Text.natOfDigits? digits).map fun value => -(value : Int)
  | digits => (Text.natOfDigits? digits).map fun value => (value : Int)

/-- Whether a value counts as nothing: an empty text or a zero. -/
def isNull (text : String) : Bool :=
  text = "" || integer? text = some 0

/-- Takes the next word. -/
def next : Reader String := do
  let cursor ← get
  match cursor.words with
  | [] => throw (.missingAfter cursor.before)
  | word :: words =>
    set (Cursor.mk word words)
    return word

/-- Takes the next word if it is one of some. -/
def next? (words : List String) : Reader (Option String) := do
  match (← get).words with
  | word :: _ => if words.contains word then some <$> next else return none
  | [] => return none

/-- What a pattern matches at the start of a text: its first group, or how many characters. -/
def matchText (text pattern : String) : Except Problem String :=
  match Regex.parse { extended := false, lenient := true } pattern with
  | .error problem => .error (.badPattern problem)
  | .ok regex =>
    let hasGroup := (pattern.splitOn "\\(").length > 1
    match regex.matchAt? {} text.toList (Regex.spotAt text.toList 0) with
    | some found =>
      if hasGroup then .ok (String.ofList (found.group text.toList 1))
      else .ok (Nat.repr found.last)
    | none => .ok (if hasGroup then "" else "0")

/-- The result of arithmetic on two texts. -/
def arithmetic (operator left right : String) : Except Problem String :=
  match integer? left, integer? right with
  | some a, some b =>
    match operator with
    | "+" => .ok (toString (a + b))
    | "-" => .ok (toString (a - b))
    | "*" => .ok (toString (a * b))
    | "/" => if b = 0 then .error .divisionByZero else .ok (toString (a.tdiv b))
    | _ => if b = 0 then .error .divisionByZero else .ok (toString (a.tmod b))
  | _, _ => .error .notNumber

/-- The result of a comparison, of numbers if both are. -/
def comparison (operator left right : String) : String :=
  let order : Ordering := match integer? left, integer? right with
    | some a, some b => compare a b
    | _, _ => compare left right
  let holds : Bool := match operator with
    | "<" => order = .lt
    | "<=" => order ≠ .gt
    | "=" | "==" => order = .eq
    | "!=" => order ≠ .eq
    | ">=" => order ≠ .lt
    | _ => order = .gt
  if holds then "1" else "0"

mutual

/-- The first of two values that is not null. -/
def disjunction : (bound : Nat) → Reader String
  | 0 => throw .notNumber
  | bound + 1 => do disjunctionMore (← conjunction bound) bound
termination_by structural bound => bound

/-- What follows the first value of a disjunction. -/
def disjunctionMore (left : String) : (bound : Nat) → Reader String
  | 0 => throw .notNumber
  | bound + 1 => do
    match ← next? ["|"] with
    | none => return left
    | some _ =>
      let right ← conjunction bound
      disjunctionMore (if !isNull left then left else if isNull right then "0" else right) bound
termination_by structural bound => bound

/-- The first of two values, if none is null. -/
def conjunction : (bound : Nat) → Reader String
  | 0 => throw .notNumber
  | bound + 1 => do conjunctionMore (← comparisons bound) bound
termination_by structural bound => bound

/-- What follows the first value of a conjunction. -/
def conjunctionMore (left : String) : (bound : Nat) → Reader String
  | 0 => throw .notNumber
  | bound + 1 => do
    match ← next? ["&"] with
    | none => return left
    | some _ =>
      let right ← comparisons bound
      conjunctionMore (if isNull left || isNull right then "0" else left) bound
termination_by structural bound => bound

/-- Values that are compared. -/
def comparisons : (bound : Nat) → Reader String
  | 0 => throw .notNumber
  | bound + 1 => do comparisonsMore (← sums bound) bound
termination_by structural bound => bound

/-- What follows the first value of a comparison. -/
def comparisonsMore (left : String) : (bound : Nat) → Reader String
  | 0 => throw .notNumber
  | bound + 1 => do
    match ← next? ["<", "<=", "=", "==", "!=", ">=", ">"] with
    | none => return left
    | some operator =>
      let right ← sums bound
      comparisonsMore (comparison operator left right) bound
termination_by structural bound => bound

/-- Sums and differences. -/
def sums : (bound : Nat) → Reader String
  | 0 => throw .notNumber
  | bound + 1 => do sumsMore (← products bound) bound
termination_by structural bound => bound

/-- What follows the first value of a sum. -/
def sumsMore (left : String) : (bound : Nat) → Reader String
  | 0 => throw .notNumber
  | bound + 1 => do
    match ← next? ["+", "-"] with
    | none => return left
    | some operator =>
      let right ← products bound
      sumsMore (← arithmetic operator left right) bound
termination_by structural bound => bound

/-- Products, quotients and remainders. -/
def products : (bound : Nat) → Reader String
  | 0 => throw .notNumber
  | bound + 1 => do productsMore (← matchings bound) bound
termination_by structural bound => bound

/-- What follows the first value of a product. -/
def productsMore (left : String) : (bound : Nat) → Reader String
  | 0 => throw .notNumber
  | bound + 1 => do
    match ← next? ["*", "/", "%"] with
    | none => return left
    | some operator =>
      let right ← matchings bound
      productsMore (← arithmetic operator left right) bound
termination_by structural bound => bound

/-- Texts that are matched with patterns. -/
def matchings : (bound : Nat) → Reader String
  | 0 => throw .notNumber
  | bound + 1 => do matchingsMore (← primary bound) bound
termination_by structural bound => bound

/-- What follows a text that is matched. -/
def matchingsMore (left : String) : (bound : Nat) → Reader String
  | 0 => throw .notNumber
  | bound + 1 => do
    match ← next? [":"] with
    | none => return left
    | some _ =>
      let right ← primary bound
      matchingsMore (← matchText left right) bound
termination_by structural bound => bound

/-- A value, an expression in parentheses, or a function of values. -/
def primary : (bound : Nat) → Reader String
  | 0 => throw .notNumber
  | bound + 1 => do
    match ← next with
    | "(" =>
      let value ← disjunction bound
      match ← next? [")"] with
      | some _ => return value
      | none =>
        let cursor ← get
        match cursor.words with
        | word :: _ => throw (.unexpected word)
        | [] => throw (.expectingParen cursor.before)
    | ")" => throw (.unexpected ")")
    | "+" => next
    | "length" => return Nat.repr (← primary bound).length
    | "match" =>
      let text ← primary bound
      let pattern ← primary bound
      let result : Except Problem String := matchText text pattern
      result
    | "index" =>
      let text ← primary bound
      let wanted ← primary bound
      let before := text.toList.takeWhile fun c => !wanted.toList.contains c
      return Nat.repr (if before.length < text.length then before.length + 1 else 0)
    | "substr" =>
      let text ← primary bound
      let start ← primary bound
      let count ← primary bound
      match integer? start, integer? count with
      | some start, some count =>
        if start ≤ 0 || count ≤ 0 then return ""
        else return String.ofList ((text.toList.drop (start.toNat - 1)).take count.toNat)
      | _, _ => return ""
    | word => return word
termination_by structural bound => bound

end

/-- The value of words as an expression. -/
def evaluate (words : List String) : Except Problem String := do
  let (value, cursor) ← (disjunction (16 * (words.length + 2))).run ⟨"", words⟩
  match cursor.words with
  | [] => return value
  | word :: _ => throw (.unexpected word)

end Expr

def expr : Program := fun args => do
  let args := if args.head? = some "--" then args.tail else args
  if args.isEmpty then
    refuse "expr" "missing operand" 2
  else
    match Expr.evaluate args with
    | .ok value =>
      say (value ++ "\n")
      return if Expr.isNull value then 1 else 0
    | .error problem =>
      complain "expr" problem.message
      return 2

/-- The programs on numbers by their names. -/
def numberPrograms : List (String × Program) :=
  [("seq", seq), ("expr", expr)]

end Desugar.Utility
