import Desugar.Shell.State

/-!
# Options

The options of a shell, each with a letter and, for most, a name.
-/

namespace Desugar.Shell.Options

/-- The letters of the options and their names. -/
def all : List (Char × String) :=
  [('e', "errexit"), ('f', "noglob"), ('I', "ignoreeof"), ('i', "interactive"), ('m', "monitor"),
   ('n', "noexec"), ('s', "stdin"), ('x', "xtrace"), ('v', "verbose"), ('V', "vi"), ('E', "emacs"),
   ('C', "noclobber"), ('a', "allexport"), ('b', "notify"), ('u', "nounset"), ('p', "privileged")]

/-- Options without a letter, which are always off. -/
def unlettered : List String :=
  ["nolog", "debug"]

/-- The letters of the options that are on, as a parameter shows them. -/
def shown (state : State) : String :=
  String.ofList ((all.map Prod.fst).reverse.filter state.options.contains)

/-- Turns an option on or off. -/
def set (letter : Char) (enable : Bool) : Sh Unit :=
  modify fun state =>
    let others := state.options.filter (· ≠ letter)
    { state with options := if enable then letter :: others else others }

/-- Turns an option on or off by its name. -/
def setByName (name : String) (enable : Bool) : Sh Unit := do
  match all.find? fun entry => entry.2 = name with
  | some (letter, _) => set letter enable
  | none =>
    if unlettered.contains name then return
    else Sh.fail ("Illegal option " ++ (if enable then "-" else "+") ++ "o " ++ name)

/-- Turns on or off the options of some letters.  The result says whether a name is still to
follow. -/
def setLetters (enable isStart : Bool) : List Char → Sh (Bool × Bool)
  | [] => return (false, false)
  | letter :: letters => do
    if letter = 'o' then
      let (_, inline) ← setLetters enable isStart letters
      return (true, inline)
    else if letter = 'c' && isStart then
      let (named, _) ← setLetters enable isStart letters
      return (named, true)
    else if letter = 'l' && isStart then
      setLetters enable isStart letters
    else if (all.lookup letter).isSome then
      set letter enable
      setLetters enable isStart letters
    else
      Sh.fail ("Illegal option " ++ (if enable then "-" else "+") ++ String.singleton letter)

/-- Options as they are listed. -/
def listing (state : State) : String :=
  let row (name : String) (isOn : Bool) : String :=
    name ++ String.ofList (List.replicate (16 - name.length) ' ') ++
      (if isOn then "on\n" else "off\n")
  "Current option settings\n" ++
    String.join (all.map fun (letter, name) => row name (state.options.contains letter)) ++
    String.join (unlettered.map fun name => row name false)

/-- Options as the commands that would set them. -/
def commands (state : State) : String :=
  let row (name : String) (isOn : Bool) : String :=
    "set " ++ (if isOn then "-o " else "+o ") ++ name ++ "\n"
  String.join (all.map fun (letter, name) => row name (state.options.contains letter)) ++
    String.join (unlettered.map fun name => row name false)

/-- Sets the options at the start of arguments, of which there are no more than the bound.  The
result is whether a script is given inline, whether the options were ended explicitly, and the other
arguments. -/
def parseUpTo (isStart : Bool) : (bound : Nat) → List String → Sh (Bool × Bool × List String)
  | bound + 1, argument :: others => do
    match argument.toList with
    | ['-'] =>
      if isStart then
        return (false, true, others)
      else
        set 'x' false
        set 'v' false
        return (false, !others.isEmpty, others)
    | ['-', '-'] => return (false, true, others)
    | sign :: letters =>
      if sign = '-' || sign = '+' then
        let (named, inline) ← setLetters (sign = '-') isStart letters
        if named && others.isEmpty then
          let state ← get
          Sh.say (if sign = '-' then listing state else commands state)
        if named && !others.isEmpty then
          setByName (others.head?.getD "") (sign = '-')
        let others := if named then others.tail else others
        let (inlineLater, ended, operands) ← parseUpTo isStart bound others
        return (inline || inlineLater, ended, operands)
      else
        return (false, false, argument :: others)
    | [] => return (false, false, argument :: others)
  | _, args => return (false, false, args)

/-- Sets the options at the start of arguments. -/
def parse (isStart : Bool) (args : List String) : Sh (Bool × Bool × List String) :=
  parseUpTo isStart args.length args

end Desugar.Shell.Options
