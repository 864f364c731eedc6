/-!
# Paths

A path as it is written: names with slashes between them.  Paths are joined and shown as they are;
`.`, `..` and repeated slashes stay until the path is looked up.
-/

namespace Desugar

/-- A path as it is written. -/
structure Path where
  text : String
  deriving DecidableEq, Repr

namespace Path

/-- The parts of a text between slashes.  There is at least one. -/
def splitSlashes : List Char → List (List Char)
  | [] => [[]]
  | c :: cs =>
    if c = '/' then
      [] :: splitSlashes cs
    else
      match splitSlashes cs with
      | [] => [[c]]
      | part :: parts => (c :: part) :: parts

def isAbsolute (path : Path) : Bool :=
  path.text.toList.head? = some '/'

/-- Whether a path ends in a slash, and so can only mean a directory. -/
def endsInSlash (path : Path) : Bool :=
  path.text.toList.getLast? = some '/'

/-- The names of a path in order, `.` and `..` included. -/
def names (path : Path) : List String :=
  ((splitSlashes path.text.toList).filter (· ≠ [])).map String.ofList

/-- A path below another one.  An absolute path is below nothing and stays as it is. -/
def join (base path : Path) : Path :=
  if path.isAbsolute then
    path
  else if base.text = "" || base.endsInSlash then
    ⟨base.text ++ path.text⟩
  else
    ⟨base.text ++ "/" ++ path.text⟩

/-- The file `name` in the directory of the path. -/
def child (base : Path) (name : String) : Path :=
  base.join ⟨name⟩

/-- The path that the names make, from the top when `absolute`. -/
def ofNames (absolute : Bool) (names : List String) : Path :=
  ⟨(if absolute then "/" else "") ++ "/".intercalate names⟩

/-- The names that count for the parent of a path: a `.` counts only where a relative path starts
with it. -/
def significantNames (path : Path) : List String :=
  match path.names with
  | [] => []
  | name :: others =>
    (if name = "." && path.isAbsolute then [] else [name]) ++ others.filter (· ≠ ".")

/-- The extension of a file name: what follows its last dot.  A name without a dot, and one whose
only dot is at its start, has none. -/
def extension? (name : String) : Option String :=
  let reversed := name.toList.reverse
  let tail := reversed.takeWhile (· ≠ '.')
  match reversed.drop tail.length with
  | '.' :: _ :: _ => if name = ".." then none else some (String.ofList tail.reverse)
  | _ => none

end Path

end Desugar
