import Desugar.Files.Calls
import Desugar.Shell.Pattern
import Desugar.Text.Octets

/-!
# File names from patterns

A field with a pattern in it stands for the paths that it matches, in order, and for itself where it
matches none.  A dot at the start of a name has to be spelled out.
-/

namespace Desugar.Shell.Glob

/-- The parts of a field between slashes. -/
def splitSlashes : List Mark → List (List Mark)
  | [] => [[]]
  | mark :: marks =>
    if mark.char = '/' then
      [] :: splitSlashes marks
    else
      match splitSlashes marks with
      | [] => [[mark]]
      | part :: parts => (mark :: part) :: parts

/-- The paths that start as `start` does and go on as the parts of a pattern say. -/
def expandFrom (tree : FileTree) (cwd : Place) (start : String) : List (List Mark) → List String
  | [] => [start]
  | part :: parts =>
    let separate (path : String) : String := if parts.isEmpty then path else path ++ "/"
    let pattern := Pattern.ofMarks part
    if pattern.any PatternItem.isWild then
      match tree.list cwd ⟨Octets.decode (if start = "" then "." else start)⟩ with
      | .error _ => []
      | .ok names =>
        let hidden := pattern.head? = some (.char '.')
        let found := ((names ++ [".", ".."]).map Octets.encode).filter fun name =>
          pattern.matchesText name.toList && (hidden || name.toList.head? ≠ some '.')
        (found.mergeSort (fun a b => decide (a ≤ b))).flatMap fun name =>
          if parts.isEmpty || tree.isDirectoryAt cwd ⟨Octets.decode (start ++ name)⟩ then
            expandFrom tree cwd (separate (start ++ name)) parts
          else
            []
    else
      let text := String.ofList (pattern.filterMap fun item => match item with
        | .char c => some c
        | _ => none)
      let path := separate (start ++ text)
      if parts.isEmpty && !tree.pathExists cwd ⟨Octets.decode path⟩ then []
      else expandFrom tree cwd path parts

/-- The arguments that a field becomes: the paths that it matches, or its own text. -/
def expand (tree : FileTree) (cwd : Place) (marks : List Mark) : List String :=
  if (Pattern.ofMarks marks).any PatternItem.isWild then
    match expandFrom tree cwd "" (splitSlashes marks) with
    | [] => [fieldText marks]
    | paths => paths
  else
    [fieldText marks]

end Desugar.Shell.Glob
