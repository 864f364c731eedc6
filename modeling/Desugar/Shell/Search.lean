import Desugar.Shell.Builtins
import Desugar.Shell.Reader
import Desugar.Utility.Table

/-!
# Finding commands

What the name of a command means: a program in one of the directories that are searched, a file with
a script, or nothing.
-/

namespace Desugar.Shell

/-- What the name of a command means. -/
inductive Found where
  | program (name path : String)
  /-- A file with a script. -/
  | script (path : String)
  | missing
  /-- Something that cannot be run. -/
  | denied

namespace Sh

/-- The directories that programs are looked for in. -/
def searchPath : Sh (List String) := do
  return ((← value? "PATH").getD "").splitOn ":"

/-- What is at the path of a command. -/
def findAt (path : String) : Sh Found := do
  match Utility.installedAt? path with
  | some name => return .program name path
  | none =>
    match ← look fun tree cwd => tree.resolve cwd (pathOf path) with
    | .error .noEntry | .error .notDirectory => return .missing
    | .error _ => return .denied
    | .ok place =>
      if (← look fun tree _ => tree.isFile place) && (← get).executables.contains place then
        return .script path
      else
        return .denied

/-- The first program of a name in some directories. -/
def findIn (name : String) : List String → Sh Found
  | [] => return .missing
  | directory :: others => do
    match ← findAt ((Path.mk (if directory = "" then "." else directory)).child name).text with
    | .missing => findIn name others
    | .denied =>
      match ← findIn name others with
      | .missing => return .denied
      | found => return found
    | found => return found

/-- What the name of a command means, where it is no command of the shell. -/
def findProgram (name : String) : Sh Found := do
  if name.toList.contains '/' then findAt name
  else if name = "" then return .denied
  else findIn name (← searchPath)

/-- What a name is, in words, and a shorter form that a script can use. -/
def describe? (name : String) : Sh (Option (String × String)) := do
  if keywords.contains name then
    return some (name ++ " is a shell keyword", name)
  else if ((← get).functions.lookup name).isSome then
    return some (name ++ " is a shell function", name)
  else if specialCommands.contains name then
    return some (name ++ " is a special shell builtin", name)
  else if Builtin.isBuiltin name then
    return some (name ++ " is a shell builtin", name)
  else
    match ← findProgram name with
    | .program _ path | .script path => return some (name ++ " is " ++ path, path)
    | .missing | .denied => return none

/-- Says what names are, in words or in a form that a script can use. -/
def describeAll (inWords : Bool) (names : List String) : Sh Nat := do
  let mut status := 0
  for name in names do
    match ← describe? name with
    | some (words, form) => say ((if inWords then words else form) ++ "\n")
    | none =>
      if inWords then
        say (name ++ ": not found\n")
      status := 127
  return status

end Sh

end Desugar.Shell
