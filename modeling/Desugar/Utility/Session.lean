import Desugar.Shell.Builtins
import Desugar.Utility.Basic

/-!
# Programs about the session

Programs that write what they are told, or say something about the system they run on.
-/

namespace Desugar.Utility

open Shell Sh

/-- Whether an argument is options of `echo`. -/
def isEchoOption (argument : String) : Bool :=
  match argument.toList with
  | '-' :: c :: cs => (c :: cs).all fun c => c = 'n' || c = 'e' || c = 'E'
  | _ => false

/-- Writes its arguments.  Escapes count only if that is asked for. -/
def echo : Program := fun args => do
  let options := args.takeWhile isEchoOption
  let letters := options.flatMap fun option => option.toList.drop 1
  let text := " ".intercalate (args.drop options.length)
  let escapes := (letters.filter (· ≠ 'n')).getLast? = some 'e'
  let (shown, stopped) :=
    if escapes then unescapeText (text.length + 1) text.toList else (text.toList, false)
  say (String.ofList shown ++ (if letters.contains 'n' || stopped then "" else "\n"))
  return 0

def printf : Program := fun args => do
  match args with
  | [] => refuse "printf" "missing operand" 1
  | format :: args =>
    let result := Format.apply format args
    say result.output
    for complaint in result.complaints do
      complain "printf" complaint
    return if result.complaints.isEmpty && result.mistake.isNone then 0 else 1

/-- A condition as a program. -/
def condition (name : String) (words : List String) : Sh Nat := do
  let state ← get
  match Test.evaluate ⟨state.world.tree, state.world.cwd, state.executables⟩ words with
  | .ok result => return if result then 0 else 1
  | .error message =>
    complain name message
    return 2

def bracket : Program := fun args => do
  if args.getLast? = some "]" then
    condition "[" args.dropLast
  else
    complain "[" "missing ']'"
    return 2

def pwd : Program := fun _ => do
  say (placeText (← get).world.cwd ++ "\n")
  return 0

/-- Whether a text is an amount of time. -/
def isInterval (text : String) : Bool :=
  let digits := text.toList.takeWhile fun c => c.isDigit || c = '.'
  let rest := text.toList.drop digits.length
  digits.any Char.isDigit && (rest.isEmpty || ["s", "m", "h", "d"].contains (String.ofList rest))

def sleep : Program := fun args => do
  match args, args.find? (!isInterval ·) with
  | [], _ => refuse "sleep" "missing operand" 1
  | _, some text => refuse "sleep" ("invalid time interval " ++ quote text) 1
  | _, none => return 0

/-- Writes a line over and over, until the reader has had enough. -/
def yes : Program := fun args => do
  let line := (if args.isEmpty then "y" else " ".intercalate args) ++ "\n"
  let count := Stream.pipeLimit / line.length + 1
  say (String.join (List.replicate count line))
  return 141

/-- Where programs are found. -/
def which (isInstalled : String → Bool) : Program := fun args => do
  forAll (fun name => do
    if isInstalled name then
      say ("/usr/bin/" ++ name ++ "\n")
      return 0
    else
      return 1) (args.filter fun argument => !argument.startsWith "-")

/-- Writes a text, whatever it is told. -/
def fixed (text : String) : Program := fun _ => do
  say (text ++ "\n")
  return 0

def uname : Program := fun args => do
  match args with
  | [] | ["-s"] => fixed "Linux" []
  | ["-m"] => fixed "x86_64" []
  | ["-o"] => fixed "GNU/Linux" []
  | _ => fixed "Linux" []

def id : Program := fun args => do
  match args with
  | ["-u"] | ["-g"] => fixed "0" []
  | ["-un"] | ["-gn"] | ["-u", "-n"] => fixed "root" []
  | _ => fixed "uid=0(root) gid=0(root) groups=0(root)" []

/-- A program that does nothing. -/
def nothing (status : Nat) : Program := fun _ => return status

/-- The programs about the session by their names. -/
def sessionPrograms : List (String × Program) :=
  [("true", nothing 0), ("false", nothing 1), ("sync", nothing 0), ("echo", echo),
   ("printf", printf), ("test", condition "test"), ("[", bracket), ("pwd", pwd), ("sleep", sleep),
   ("yes", yes), ("whoami", fixed "root"), ("uname", uname), ("id", id)]

end Desugar.Utility
