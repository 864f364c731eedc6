/-!
# Command line arguments

The grammar of a command line: options with a value, arguments in order, and perhaps further
arguments behind `--`.  Options may stand between the other arguments.  The value of an option
follows it, or is attached to it: `--root dir`, `--root=dir`, `-c file`, `-cfile`, `-c=file`.

Arguments are read from left to right.  A request for the version or for help counts where it
stands, so a mistake before it is reported and one after it is not.
-/

namespace Desugar.CommandLine

/-- An option that takes a value. -/
structure OptionSpec where
  long : String
  short : Option Char
  /-- Whether the option may be given more than once. -/
  repeatable : Bool
  deriving DecidableEq, Repr

/-- The arguments that a command takes. -/
structure Grammar where
  options : List OptionSpec
  required : Nat
  optional : Nat
  /-- Whether the arguments behind `--` are a list of their own. -/
  trailing : Bool
  deriving Repr

/-- The arguments of one call. -/
structure Arguments where
  positional : List String := []
  /-- The options that were given and their values, in order. -/
  values : List (String × String) := []
  trailing : List String := []
  deriving Repr

/-- What a command line asks for. -/
inductive Request where
  | run (arguments : Arguments)
  | version
  | help
  /-- The command line is mistaken. -/
  | mistake
  deriving Repr

/-- One argument, read as far as it can be without the next one. -/
inductive Item where
  | positional (value : String)
  /-- The arguments behind this one are no options. -/
  | endOfOptions
  | option (spec : OptionSpec) (value : Option String)
  | version
  | help
  | unknown
  deriving Repr

namespace Arguments

/-- The value of an option that is given at most once. -/
def value? (arguments : Arguments) (long : String) : Option String :=
  arguments.values.lookup long

/-- The values of an option in the order in which they were given. -/
def valuesOf (arguments : Arguments) (long : String) : List String :=
  (arguments.values.filter (·.1 = long)).map (·.2)

end Arguments

namespace Grammar

/-- An argument that starts with two dashes, which are left out. -/
def longItem (grammar : Grammar) (cs : List Char) : Item :=
  let name := String.ofList (cs.takeWhile (· ≠ '='))
  let value := match cs.dropWhile (· ≠ '=') with
    | '=' :: value => some (String.ofList value)
    | _ => none
  match grammar.options.find? (·.long = name), name, value with
  | some spec, _, value => .option spec value
  | none, "version", none => .version
  | none, "help", none => .help
  | none, _, _ => .unknown

/-- An argument that starts with one dash, which is left out. -/
def shortItem (grammar : Grammar) (letter : Char) (cs : List Char) : Item :=
  match grammar.options.find? (·.short = some letter), letter with
  | some spec, _ =>
    match cs with
    | [] => .option spec none
    | '=' :: value => .option spec (some (String.ofList value))
    | value => .option spec (some (String.ofList value))
  | none, 'V' => .version
  | none, 'h' => .help
  | none, _ => .unknown

/-- Reads one argument in front of `--`. -/
def item (grammar : Grammar) (argument : String) : Item :=
  match argument.toList with
  | '-' :: '-' :: [] => .endOfOptions
  | '-' :: '-' :: cs => grammar.longItem cs
  | '-' :: letter :: cs => grammar.shortItem letter cs
  | _ => .positional argument

/-- Whether an argument can be the value of the option before it. -/
def isValue (argument : String) : Bool :=
  match argument.toList with
  | '-' :: _ :: _ => false
  | _ => true

/-- The request once all arguments are read: those that are required must be there. -/
def finish (grammar : Grammar) (arguments : Arguments) : Request :=
  if arguments.positional.length < grammar.required then .mistake else .run arguments

/-- Adds an argument that is no option, if there is room for it. -/
def addPositional (grammar : Grammar) (arguments : Arguments) (value : String) : Option Arguments :=
  if arguments.positional.length < grammar.required + grammar.optional then
    some { arguments with positional := arguments.positional ++ [value] }
  else
    none

/-- Adds the value of an option, if it may be given here. -/
def addValue (arguments : Arguments) (spec : OptionSpec) (value : String) : Option Arguments :=
  if !spec.repeatable && (arguments.value? spec.long).isSome then
    none
  else
    some { arguments with values := arguments.values ++ [(spec.long, value)] }

/-- The arguments behind `--`. -/
def addTrailing (grammar : Grammar) (arguments : Arguments) (values : List String) : Request :=
  if grammar.trailing then
    grammar.finish { arguments with trailing := values }
  else
    match values.foldlM grammar.addPositional arguments with
    | some arguments => grammar.finish arguments
    | none => .mistake

/-- Reads arguments after those that are read already. -/
def parseFrom (grammar : Grammar) (arguments : Arguments) : List String → Request
  | [] => grammar.finish arguments
  | argument :: others =>
    match grammar.item argument with
    | .positional value =>
      match grammar.addPositional arguments value with
      | some arguments => grammar.parseFrom arguments others
      | none => .mistake
    | .endOfOptions => grammar.addTrailing arguments others
    | .option spec (some value) =>
      match addValue arguments spec value with
      | some arguments => grammar.parseFrom arguments others
      | none => .mistake
    | .option spec none =>
      match others with
      | [] => .mistake
      | value :: others =>
        if isValue value then
          match addValue arguments spec value with
          | some arguments => grammar.parseFrom arguments others
          | none => .mistake
        else
          .mistake
    | .version => .version
    | .help => .help
    | .unknown => .mistake

/-- What a command line asks for. -/
def parse (grammar : Grammar) (arguments : List String) : Request :=
  grammar.parseFrom {} arguments

end Grammar

end Desugar.CommandLine
