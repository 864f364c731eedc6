import Desugar.Shell.Redirection
import Desugar.Utility.Quoting

/-!
# Programs for scripts

What the programs that a script can call have in common: how they read their options, name what went
wrong, and take their input.
-/

namespace Desugar.Utility

open Shell

/-- Which letters are options of a program. -/
structure OptionSpec where
  /-- The letters without a value. -/
  flags : String := ""
  /-- The letters with a value. -/
  valued : String := ""
  /-- The letters with a value that can only be in the same argument, and may be empty. -/
  attached : String := ""
  /-- Long names and the letters that they stand for. -/
  long : List (String × Char) := []

/-- The options of a call, with their values, and its other arguments. -/
structure Arguments where
  options : List (Char × String) := []
  operands : List String := []
  deriving Repr

namespace Arguments

def has (args : Arguments) (letter : Char) : Bool :=
  args.options.any (·.1 = letter)

/-- The value of an option, the last one given. -/
def value? (args : Arguments) (letter : Char) : Option String :=
  (args.options.reverse.find? (·.1 = letter)).map Prod.snd

/-- All values of an option in order. -/
def values (args : Arguments) (letter : Char) : List String :=
  (args.options.filter (·.1 = letter)).map Prod.snd

end Arguments

/-- The options in the letters of one argument.  The last letter may want a value that is the next
argument, and is given apart. -/
def OptionSpec.letters (spec : OptionSpec) :
    List Char → Except Char (List (Char × String) × Option Char)
  | [] => .ok ([], none)
  | letter :: more =>
    if spec.attached.toList.contains letter then
      .ok ([(letter, String.ofList more)], none)
    else if spec.valued.toList.contains letter then
      if more.isEmpty then .ok ([], some letter)
      else .ok ([(letter, String.ofList more)], none)
    else if spec.flags.toList.contains letter then do
      let (options, wanting) ← spec.letters more
      return ((letter, "") :: options, wanting)
    else
      .error letter

/-- What is wrong with options. -/
inductive OptionError where
  | unknown (letter : Char)
  | unknownLong (name : String)
  | valueMissing (letter : Char)
  deriving Repr

/-- The options and operands of a call.  Options may follow operands, and `--` ends them. -/
def OptionSpec.parse (spec : OptionSpec) :
    (wanting : Option Char) → List String → Except OptionError Arguments
  | some letter, [] => .error (.valueMissing letter)
  | none, [] => .ok {}
  | some letter, value :: rest => do
    let args ← spec.parse none rest
    return { args with options := (letter, value) :: args.options }
  | none, "--" :: rest => .ok { operands := rest }
  | none, argument :: rest =>
    match argument.toList with
    | '-' :: '-' :: name =>
      let key := String.ofList (name.takeWhile (· ≠ '='))
      let value := String.ofList ((name.dropWhile (· ≠ '=')).drop 1)
      match spec.long.lookup key with
      | some letter => do
        let isWanting := spec.valued.toList.contains letter && !name.contains '='
        let args ← spec.parse (if isWanting then some letter else none) rest
        if isWanting then return args
        else return { args with options := (letter, value) :: args.options }
      | none => .error (.unknownLong key)
    | '-' :: c :: more =>
      match spec.letters (c :: more) with
      | .error letter => .error (.unknown letter)
      | .ok (options, wanting) => do
        let args ← spec.parse wanting rest
        return { args with options := options ++ args.options }
    | _ => do
      let args ← spec.parse none rest
      return { args with operands := argument :: args.operands }

/-- The line that points to the help of a program. -/
def tryHelp (name : String) : String :=
  "Try " ++ quote (name ++ " --help") ++ " for more information."

/-- Complains in the name of a program. -/
def complain (name message : String) : Sh Unit :=
  Sh.complain (name ++ ": " ++ message)

/-- Complains about a call that makes no sense, and points to the help. -/
def refuse (name message : String) (status : Nat) : Sh Nat := do
  complain name message
  Sh.complain (tryHelp name)
  return status

/-- A program that works on options and operands.  It refuses options that it does not know. -/
def withOptions (name : String) (refusal : Nat) (spec : OptionSpec)
    (body : Arguments → Sh Nat) : Program := fun args => do
  match spec.parse none args with
  | .ok args => body args
  | .error (.unknown letter) =>
    refuse name ("invalid option -- " ++ quote (String.singleton letter)) refusal
  | .error (.unknownLong long) =>
    refuse name ("unrecognized option " ++ quote ("--" ++ long)) refusal
  | .error (.valueMissing letter) =>
    refuse name ("option requires an argument -- " ++ quote (String.singleton letter)) refusal

/-- Runs an action on each operand.  The status is the largest of theirs. -/
def forAll (action : String → Sh Nat) : List String → Sh Nat
  | [] => return 0
  | operand :: others => do
    let first ← action operand
    let rest ← forAll action others
    return max first rest

/-- How a program says that it cannot open a file. -/
def openProblem (name file reason : String) : String :=
  match name with
  | "tac" => "failed to open " ++ quotedName file ++ " for reading: " ++ reason
  | "rev" => "cannot open " ++ file ++ ": " ++ reason
  | "cmp" => file ++ ": " ++ reason
  | _ => shownName file ++ ": " ++ reason

/-- The content of an operand, where `-` is the input.  What cannot be read is complained about. -/
def readOperand (name operand : String) : Sh (Option String) := do
  let result ← if operand = "-" then Sh.readAll 0 else Sh.readFile operand
  match result with
  | .ok content => return some content
  | .error error =>
    complain name (openProblem name operand error.reason)
    return none

/-- The contents of operands, or of the input where there are none, and the status. -/
def readOperands (name : String) (operands : List String) : Sh (List String × Nat) := do
  let mut contents := []
  let mut status := 0
  for operand in (if operands.isEmpty then ["-"] else operands) do
    match ← readOperand name operand with
    | some content => contents := contents ++ [content]
    | none => status := 1
  return (contents, status)

/-- The lines of a text, without their ends. -/
def linesOf (text : String) : List String :=
  let parts := text.splitOn "\n"
  if parts.getLast? = some "" then parts.dropLast else parts

/-- Whether a text ends in the middle of a line. -/
def isCutOff (text : String) : Bool :=
  !text.isEmpty && text.toList.getLast? ≠ some '\n'

/-- The text of lines. -/
def unlines (lines : List String) : String :=
  String.join (lines.map (· ++ "\n"))

/-- The number that a text spells in decimal digits. -/
def nat? (text : String) : Option Nat :=
  Text.natOfDigits? text.toList

end Desugar.Utility
