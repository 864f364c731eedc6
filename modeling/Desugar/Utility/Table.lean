import Desugar.Utility.Chars
import Desugar.Utility.Grep
import Desugar.Utility.Lines
import Desugar.Utility.Numbers
import Desugar.Utility.Sed
import Desugar.Utility.Session
import Desugar.Utility.Sort
import Desugar.Utility.Wrappers

/-!
# The table of programs

The programs that can be called by their names, and the directories that they are in.
-/

namespace Desugar.Utility

open Shell

/-- The programs that run no others. -/
def basePrograms : List (String × Program) :=
  sessionPrograms ++ filePrograms ++ linePrograms ++ charPrograms ++ numberPrograms ++
    [("sort", sort), ("sed", sed), ("grep", grep), ("egrep", fun args => grep ("-E" :: args)),
     ("fgrep", fun args => grep ("-F" :: args)), ("printenv", printenv)]

/-- Whether there is a program with this name. -/
def isInstalled (name : String) : Bool :=
  ["sh", "dash", "which"].contains name || (basePrograms.lookup name).isSome ||
    (wrappers.lookup name).isSome

/-- The programs that run no others, and the one that finds them all. -/
def programs : List (String × Program) :=
  ("which", which isInstalled) :: basePrograms

/-- The directories that programs are in. -/
def directories : List String :=
  ["/usr/bin", "/bin"]

/-- The name of the program that a path in one of the program directories leads to. -/
def installedAt? (path : String) : Option String :=
  directories.findSome? fun directory =>
    let start := directory ++ "/"
    if start.toList.isPrefixOf path.toList then
      let name := String.ofList (path.toList.drop start.length)
      if isInstalled name then some name else none
    else
      none

end Desugar.Utility
