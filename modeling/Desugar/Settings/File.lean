import Desugar.Settings.Basic
import Desugar.World

/-!
# The settings file

Where the file layer of the settings comes from.  A settings file may be named without its
extension: where there is no file with the name itself, `.toml` is added to it.
-/

namespace Desugar.Settings

/-- The path with `.toml` added to its last name, if it has one. -/
def withExtension? (path : Path) : Option Path :=
  match path.significantNames.reverse with
  | [] | "." :: _ | ".." :: _ => none
  | name :: above => some (Path.ofNames path.isAbsolute ((name ++ ".toml") :: above).reverse)

/-- The path at which a settings file is found. -/
def findFile? (tree : FileTree) (cwd : Place) (path : Path) : Option Path :=
  if tree.isFileAt cwd path then
    some path
  else
    (withExtension? path).filter (tree.isFileAt cwd ·)

/-- The file layer that a path asks for. -/
def fileLayer (tree : FileTree) (cwd : Place) (path : Path) : FileLayer :=
  match findFile? tree cwd path with
  | none => .unreadable path.text
  | some found =>
    match tree.readText cwd found with
    | .ok content => .text content
    | .error _ => .unreadable path.text

end Desugar.Settings
