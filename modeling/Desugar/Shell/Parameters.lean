import Desugar.Shell.Arithmetic
import Desugar.Shell.Cursor
import Desugar.Shell.Fields
import Desugar.Shell.Options

/-!
# Parameters

What the parameters of a shell are worth: its variables, its arguments and those that a sign names.
Along with them, what a tilde stands for and how an arithmetic expression is worked out, since both
depend on variables alone.
-/

namespace Desugar.Shell.Sh

/-- The character that joins parameters. -/
def joiner : Sh String := do
  match ← value? "IFS" with
  | none => return " "
  | some separators => return String.ofList (separators.toList.take 1)

/-- The value of a parameter. -/
def param? (name : String) : Sh (Option String) := do
  let state ← get
  match name with
  | "#" => return some (Nat.repr state.params.length)
  | "?" => return some (Nat.repr state.status)
  | "$" => return some (Nat.repr state.process)
  | "-" => return some (Options.shown state)
  | "!" => return state.background.map Nat.repr
  | "@" | "*" =>
    if state.params.isEmpty then return none
    else return some ((← joiner).intercalate state.params)
  | _ =>
    match Text.natOfDigits? name.toList with
    | some 0 => return some state.name
    | some index => return state.params[index - 1]?
    | none => value? name

/-- The value of a parameter that a script may insist on. -/
def demandParam (name : String) : Sh String := do
  match ← param? name with
  | some value => return value
  | none =>
    if name ≠ "@" && name ≠ "*" && (← isOn 'u') then
      fail (name ++ ": parameter not set")
    else
      return ""

/-- The pieces of a value. -/
def valuePieces (inQuotes whole : Bool) (value : String) : List Piece :=
  if inQuotes then Piece.ofText value true
  else if whole then Piece.ofText value false
  else Piece.ofSplittable value

/-- The pieces of a parameter. -/
def paramPieces (inQuotes whole : Bool) (name : String) : Sh (List Piece) := do
  let params := (← get).params
  if name = "@" && inQuotes && !whole then
    return ((params.map fun param => Piece.ofText param true).intersperse [.cut]).flatten
  else if (name = "@" || name = "*") && !inQuotes && !whole then
    return ((params.map Piece.ofSplittable).intersperse [.gap]).flatten
  else
    return valuePieces inQuotes whole (← demandParam name)

/-- Text without the line ends at its end. -/
def stripNewlines (text : String) : String :=
  String.ofList (text.toList.reverse.dropWhile (· = '\n')).reverse

/-- The home directory that a tilde and a name stand for. -/
def homeOf? (name : String) : Sh (Option String) := do
  match name with
  | "" => value? "HOME"
  | "root" => return some "/root"
  | _ => return none

/-- A word with a tilde at its start replaced. -/
def expandTilde (word : Word) : Sh Word := do
  match word with
  | .text content :: parts =>
    match content.toList with
    | '~' :: cs =>
      let name := cs.takeWhile (· ≠ '/')
      let rest := cs.drop name.length
      if rest.isEmpty && !parts.isEmpty then
        return word
      else
        match ← homeOf? (String.ofList name) with
        | some home => return .quoted home :: .text (String.ofList rest) :: parts
        | none => return word
    | _ => return word
  | _ => return word

/-- The value of a text as an arithmetic expression. -/
def evaluate (text : String) : Sh String := do
  let state ← get
  match Arithmetic.evaluate (fun name => (state.vars.lookup name).bind Variable.value) text with
  | .ok (value, assigned) =>
    for (name, value) in assigned do
      assign name (toString value)
    return toString value
  | .error (.expecting what) =>
    fail ("arithmetic expression: expecting " ++ what ++ ": \"" ++ text ++ "\"")
  | .error .divisionByZero =>
    fail ("arithmetic expression: division by zero: \"" ++ text ++ "\"")
  | .error (.illegalNumber value) => fail ("Illegal number: " ++ value)

end Desugar.Shell.Sh
