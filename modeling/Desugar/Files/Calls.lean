import Desugar.Files.Path
import Desugar.Files.Tree

/-!
# File operations

What reading and changing files at a written path does to a file tree, and how it can fail.  A path
is looked up name by name from the top or, when it is relative, from a working directory; each name
on the way must be a directory.

A name has at most 255 bytes and a path less than 4096, and neither can hold the null character.

An operation that fails leaves the tree as it was; `createAll` and `removeAll` alone may have done a
part of their work.
-/

namespace Desugar

/-- Why an operation on files, or the start of a program, failed. -/
inductive SystemError where
  | noEntry
  | argumentsTooLong
  /-- A descriptor that is not open, or not for this. -/
  | badDescriptor
  | permissionDenied
  | busy
  | exists
  | notDirectory
  | isDirectory
  | invalid
  | noSpace
  | nameTooLong
  | notEmpty
  /-- A path with a null character. -/
  | nullInPath
  /-- A program name or an argument with a null character. -/
  | nullInArgument
  /-- The content that was read as text is not UTF-8. -/
  | notText
  deriving DecidableEq, Repr

/-- What went wrong, without the number of the error. -/
def SystemError.reason : SystemError → String
  | .noEntry => "No such file or directory"
  | .argumentsTooLong => "Argument list too long"
  | .badDescriptor => "Bad file descriptor"
  | .permissionDenied => "Permission denied"
  | .busy => "Device or resource busy"
  | .exists => "File exists"
  | .notDirectory => "Not a directory"
  | .isDirectory => "Is a directory"
  | .invalid => "Invalid argument"
  | .noSpace => "No space left on device"
  | .nameTooLong => "File name too long"
  | .notEmpty => "Directory not empty"
  | .nullInPath => "file name contained an unexpected NUL byte"
  | .nullInArgument => "nul byte found in provided data"
  | .notText => "stream did not contain valid UTF-8"

/-- The number that the operating system gives an error. -/
def SystemError.number? : SystemError → Option Nat
  | .noEntry => some 2
  | .argumentsTooLong => some 7
  | .badDescriptor => some 9
  | .permissionDenied => some 13
  | .busy => some 16
  | .exists => some 17
  | .notDirectory => some 20
  | .isDirectory => some 21
  | .invalid => some 22
  | .noSpace => some 28
  | .nameTooLong => some 36
  | .notEmpty => some 39
  | .nullInPath | .nullInArgument | .notText => none

/-- The message of an error. -/
def SystemError.message (error : SystemError) : String :=
  match error.number? with
  | some number => error.reason ++ " (os error " ++ Nat.repr number ++ ")"
  | none => error.reason

namespace FileTree

variable (tree : FileTree) (cwd : Place)

/-- Whether a name has more bytes than a name can have. -/
def isLongName (name : String) : Bool :=
  name.utf8ByteSize > 255

/-- Follows names from a place on.  Each name but the last must lead to a directory, and the last to
anything. -/
def walk (here : Place) : List String → Except SystemError Place
  | [] => .ok here
  | name :: names =>
    if !tree.isDirectory here then
      .error (if (tree.node? here).isSome then .notDirectory else .noEntry)
    else if name = "." then
      walk here names
    else if name = ".." then
      walk here.dropLast names
    else if isLongName name then
      .error .nameTooLong
    else if (tree.node? (here ++ [name])).isSome then
      walk (here ++ [name]) names
    else
      .error .noEntry

/-- Where the lookup of a path starts. -/
def origin (path : Path) : Place :=
  if path.isAbsolute then [] else cwd

/-- Refuses a text that no path can have. -/
def checkPath (path : Path) : Except SystemError Unit :=
  if path.text.toList.contains '\x00' then .error .nullInPath
  else if path.text = "" then .error .noEntry
  else if path.text.utf8ByteSize ≥ 4096 then .error .nameTooLong
  else .ok ()

/-- The place of a path that leads to something. -/
def resolve (path : Path) : Except SystemError Place := do
  checkPath path
  let place ← tree.walk (origin cwd path) path.names
  if path.endsInSlash && !tree.isDirectory place then .error .notDirectory else .ok place

/-- The directory that the last name of a path stands in, and that name.  There is no name when the
path leads to the top, to `.` or to `..`. -/
def resolveLast (path : Path) : Except SystemError (Place × Option String) := do
  checkPath path
  let place ← tree.walk (origin cwd path) path.names.dropLast
  if tree.isDirectory place then
    .ok (place, path.names.getLast?.filter fun name => name ≠ "." && name ≠ "..")
  else
    .error (if (tree.node? place).isSome then .notDirectory else .noEntry)

/-- Whether a path leads to something. -/
def pathExists (path : Path) : Bool :=
  (tree.resolve cwd path).isOk

/-- Whether a path leads to a directory. -/
def isDirectoryAt (path : Path) : Bool :=
  match tree.resolve cwd path with
  | .ok place => tree.isDirectory place
  | .error _ => false

/-- Whether a path leads to a file. -/
def isFileAt (path : Path) : Bool :=
  match tree.resolve cwd path with
  | .ok place => tree.isFile place
  | .error _ => false

/-- The content of a file. -/
def read (path : Path) : Except SystemError ByteArray := do
  let place ← tree.resolve cwd path
  match tree.node? place with
  | some (.file content) => .ok content
  | some .directory => .error .isDirectory
  | some (.device _) => .ok .empty
  | none => .error .noEntry

/-- The content of a file as text. -/
def readText (path : Path) : Except SystemError String := do
  match String.fromUTF8? (← tree.read cwd path) with
  | some text => .ok text
  | none => .error .notText

/-- The names inside a directory. -/
def list (path : Path) : Except SystemError (List String) := do
  let place ← tree.resolve cwd path
  if tree.isDirectory place then .ok (tree.childNames place) else .error .notDirectory

/-- The place that writing to a path writes to: an existing file, or a new name in an existing
directory. -/
def writePlace (path : Path) : Except SystemError Place := do
  let (directory, name?) ← tree.resolveLast cwd path
  match name? with
  | none => .error .isDirectory
  | some name =>
    if path.endsInSlash || tree.isDirectory (directory ++ [name]) then
      .error .isDirectory
    else if isLongName name then
      .error .nameTooLong
    else
      .ok (directory ++ [name])

/-- Writes a file, new or in place of its old content.  A device leaves no trace in the tree. -/
def write (path : Path) (content : ByteArray) : Except SystemError FileTree := do
  let place ← tree.writePlace cwd path
  match tree.node? place with
  | some (.device .full) => if content.isEmpty then .ok tree else .error .noSpace
  | some (.device _) => .ok tree
  | _ => .ok (tree.insert place (.file content))

/-- Makes a directory in an existing directory. -/
def create (path : Path) : Except SystemError FileTree := do
  let (directory, name?) ← tree.resolveLast cwd path
  match name? with
  | none => .error .exists
  | some name =>
    if isLongName name then
      .error .nameTooLong
    else if (tree.node? (directory ++ [name])).isSome then
      .error .exists
    else
      .ok (tree.insert (directory ++ [name]) .directory)

/-- Goes on after an attempt to make a directory: one that exists already is as good as made. -/
def created (path : Path) (attempt : Except SystemError FileTree) :
    Except SystemError Unit × FileTree :=
  match attempt with
  | .ok tree => (.ok (), tree)
  | .error error => (if tree.isDirectoryAt cwd path then .ok () else .error error, tree)

/-- Makes the directory that the names lead to, the last name first, and those above it as
needed. -/
def createNames (absolute : Bool) (tree : FileTree) :
    List String → Except SystemError Unit × FileTree
  | [] => (.ok (), tree)
  | name :: above =>
    let path := Path.ofNames absolute (name :: above).reverse
    match tree.create cwd path with
    | .error .noEntry =>
      match createNames absolute tree above with
      | (.ok (), tree) => tree.created cwd path (tree.create cwd path)
      | failed => failed
    | attempt => tree.created cwd path attempt

/-- Makes a directory and those above it as needed. -/
def createAll (path : Path) : Except SystemError Unit × FileTree :=
  if path.text = "" then
    (.ok (), tree)
  else
    match tree.create cwd path with
    | .error .noEntry =>
      match createNames cwd path.isAbsolute tree path.significantNames.reverse.tail with
      | (.ok (), tree) => tree.created cwd path (tree.create cwd path)
      | failed => failed
    | attempt => tree.created cwd path attempt

/-- Takes away a file. -/
def removeFile (path : Path) : Except SystemError FileTree := do
  let place ← tree.resolve cwd path
  if tree.isFile place then .ok (tree.erase place) else .error .isDirectory

/-- Takes away an empty directory. -/
def removeDirectory (path : Path) : Except SystemError FileTree := do
  let place ← tree.resolve cwd path
  if !tree.isDirectory place then
    .error .notDirectory
  else if place = [] then
    .error .busy
  else if path.names.getLast? = some "." then
    .error .invalid
  else if tree.childNames place ≠ [] || path.names.getLast? = some ".." then
    .error .notEmpty
  else
    .ok (tree.erase place)

/-- Takes away a directory and all below it.  What is below it goes first, and stays away even when
the directory itself cannot be removed.  When the path led through what is gone, that was all. -/
def removeAll (path : Path) : Except SystemError Unit × FileTree :=
  match tree.resolve cwd path with
  | .error error => (.error error, tree)
  | .ok place =>
    if tree.isDirectory place then
      let emptied := tree.eraseBelow place
      match emptied.removeDirectory cwd path with
      | .ok tree => (.ok (), tree)
      | .error .noEntry => (.ok (), emptied)
      | .error error => (.error error, emptied)
    else
      (.error .notDirectory, tree)

/-- Gives a file or directory another path.  A file takes the place of a file, and a directory that
of an empty directory. -/
def rename (source target : Path) : Except SystemError FileTree := do
  let (sourceDirectory, sourceName?) ← tree.resolveLast cwd source
  let (targetDirectory, targetName?) ← tree.resolveLast cwd target
  match sourceName?, targetName? with
  | some sourceName, some targetName =>
    let source' := sourceDirectory ++ [sourceName]
    let target' := targetDirectory ++ [targetName]
    let tooLong := isLongName sourceName || isLongName targetName
    match tree.node? source' with
    | none => .error (if isLongName sourceName then .nameTooLong else .noEntry)
    | some .directory =>
      if tooLong then
        .error .nameTooLong
      else if source' = target' then
        .ok tree
      else if source'.isPrefixOf target' then
        .error .invalid
      else if tree.isFile target' then
        .error .notDirectory
      else if tree.childNames target' ≠ [] then
        .error .notEmpty
      else
        .ok (tree.move source' target')
    | some _ =>
      if tooLong then
        .error .nameTooLong
      else if source.endsInSlash || target.endsInSlash then
        .error .notDirectory
      else if source' = target' then
        .ok tree
      else if target'.isPrefixOf source' then
        .error .notEmpty
      else if tree.isDirectory target' then
        .error .isDirectory
      else
        .ok (tree.move source' target')
  | _, _ => .error .busy

end FileTree

end Desugar
