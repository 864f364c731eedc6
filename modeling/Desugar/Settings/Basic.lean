import Desugar.Files.Path
import Desugar.Preprocess.Markers
import Desugar.Settings.KeyPath
import Desugar.Toml.Reader

/-!
# Settings

What can be set about preprocessing a project, and how the settings come about: what is built in, a
file on top of it, and single overrides on top of the file.  Only the result is checked, so a layer
may repair what the layer below it broke.
-/

namespace Desugar

/-- The settings for preprocessing a project. -/
structure Settings where
  /-- The lines that enclose what the preprocessor is to see. -/
  markers : Markers
  /-- The directory, relative to the project, that sources are staged in. -/
  dir : Path
  /-- The extensions of the files that are staged. -/
  extensions : List String
  /-- The names of files that are not staged. -/
  exclude : List String
  /-- The arguments that the preprocessor gets first. -/
  args : List String
  deriving DecidableEq, Repr

namespace Settings

/-- Why there are no settings. -/
inductive Error where
  /-- An override whose key is no path. -/
  | badKey (key : String)
  /-- The settings file cannot be read as text. -/
  | noFile (path : String)
  /-- The settings file is not TOML. -/
  | badFile
  | missing (key : String)
  /-- A setting with a value of the wrong kind. -/
  | badValue (key : String)
  deriving DecidableEq, Repr

/-- The message for the user. -/
def Error.message : Error → String
  | .badKey key => "invalid key '" ++ key ++ "'"
  | .noFile path => "configuration file \"" ++ path ++ "\" not found"
  | .badFile => "configuration file is not valid TOML"
  | .missing key => "missing field '" ++ key ++ "'"
  | .badValue key => "invalid value for field '" ++ key ++ "'"

/-- The settings that hold where nothing else is set. -/
def builtIn : Settings where
  markers := ⟨"#pre", "#endpre"⟩
  dir := ⟨"lyra_out"⟩
  extensions := ["rb", "h"]
  exclude := []
  args := ["-xc", "-E"]

/-- The entries of a file that says what the settings say. -/
def toEntries (settings : Settings) : List (String × Value) :=
  [("markers", .table
      [("begin", .string settings.markers.start), ("end", .string settings.markers.stop)]),
   ("staging", .table
      [("dir", .string settings.dir.text), ("extensions", .list (settings.extensions.map .string)),
       ("exclude", .list (settings.exclude.map .string))]),
   ("preprocessor", .table [("args", .list (settings.args.map .string))])]

/-- The text of a scalar: numbers and truth values are written out. -/
def Value.text? : Value → Option String
  | .string text => some text
  | .int value => some (toString value)
  | .bool value => some (if value then "true" else "false")
  | .null | .list _ | .table _ => none

/-- The texts of the items of a list. -/
def Value.texts? : Value → Option (List String)
  | .list items => items.mapM Value.text?
  | _ => none

/-- The value of a key of a table. -/
def require (table : Value) (key : String) : Except Error Value :=
  match table.get? key with
  | some value => .ok value
  | none => .error (.missing key)

/-- A member of a group of settings.  A group is a table with its members under their keys, or a
list with its members in their order. -/
def member (group : Value) (index : Nat) (key : String) : Except Error Value :=
  match group with
  | .table _ => require group key
  | .list items =>
    match items[index]? with
    | some value => .ok value
    | none => .error (.missing key)
  | _ => .error (.badValue key)

/-- The text that a member of a group is. -/
def memberText (group : Value) (index : Nat) (key : String) : Except Error String := do
  match (← member group index key).text? with
  | some text => return text
  | none => .error (.badValue key)

/-- The list of texts that a member of a group is. -/
def memberTexts (group : Value) (index : Nat) (key : String) : Except Error (List String) := do
  match (← member group index key).texts? with
  | some texts => return texts
  | none => .error (.badValue key)

/-- Checks that a value has all settings.  What is in a group besides its members does not
matter. -/
def ofValue (value : Value) : Except Error Settings := do
  let markers ← require value "markers"
  let start ← memberText markers 0 "begin"
  let stop ← memberText markers 1 "end"
  let staging ← require value "staging"
  let dir ← memberText staging 0 "dir"
  let extensions ← memberTexts staging 1 "extensions"
  let exclude ← memberTexts staging 2 "exclude"
  let preprocessor ← require value "preprocessor"
  let args ← memberTexts preprocessor 0 "args"
  return ⟨⟨start, stop⟩, ⟨dir⟩, extensions, exclude, args⟩

/-- Puts a file's entries on top of a value.  A key at the top of a file can be a path. -/
def addFile (value : Value) (entries : List (String × Value)) : Value :=
  entries.foldl (fun value entry => value.putAt (KeyPath.ofFileKey entry.1) entry.2) value

/-- Where the file layer comes from. -/
inductive FileLayer where
  /-- No file is asked for. -/
  | absent
  /-- The file at this path is asked for and cannot be read. -/
  | unreadable (path : String)
  | text (content : String)
  deriving Repr

/-- The entries of the file layer. -/
def FileLayer.entries : FileLayer → Except Error (List (String × Value))
  | .absent => .ok []
  | .unreadable path => .error (.noFile path)
  | .text content =>
    match Toml.parse? content with
    | some entries => .ok entries
    | none => .error .badFile

/-- The paths of the overrides with their values. -/
def overridePaths (overrides : List (String × Value)) : Except Error (List (KeyPath × Value)) :=
  overrides.mapM fun (key, value) =>
    match KeyPath.parse? key with
    | some path => .ok (path, value)
    | none => .error (.badKey key)

/-- The settings that the layers amount to.  A key that is no path is reported before anything
else. -/
def load (file : FileLayer) (overrides : List (String × Value)) : Except Error Settings := do
  let overrides ← overridePaths overrides
  let entries ← file.entries
  let layered := addFile (addFile (.table []) builtIn.toEntries) entries
  ofValue (overrides.foldl (fun value entry => value.putAt entry.1 entry.2) layered)

end Settings

end Desugar
