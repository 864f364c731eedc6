/-!
# File trees

A file tree says what is at each place.  A place is the list of names that lead to it from the top,
so no two places are the same; the top is always a directory.

`FileTree.node?` is the view of a tree that everything else is said through.
-/

namespace Desugar

/-- The names that lead to a file or directory from the top of the tree. -/
abbrev Place := List String

/-- A file that keeps nothing of what is written to it. -/
inductive Device where
  /-- Takes everything and holds nothing. -/
  | null
  /-- Takes nothing. -/
  | full
  /-- The standard input of the program that opens it. -/
  | stdin
  /-- The standard output of the program that opens it. -/
  | stdout
  /-- The error output of the program that opens it. -/
  | stderr
  deriving DecidableEq, Repr

/-- What is at a place. -/
inductive Node where
  | file (content : ByteArray)
  | directory
  | device (device : Device)

/-- Files are equal if their bytes are. -/
def Node.decEq : (a b : Node) → Decidable (a = b)
  | .file a, .file b =>
    match ByteArray.instDecidableEq a b with
    | isTrue h => isTrue (by rw [h])
    | isFalse h => isFalse fun same => h (Node.file.inj same)
  | .directory, .directory => isTrue rfl
  | .device a, .device b =>
    match instDecidableEqDevice a b with
    | isTrue h => isTrue (by rw [h])
    | isFalse h => isFalse fun same => h (Node.device.inj same)
  | .file _, .directory | .file _, .device _ | .directory, .file _ | .directory, .device _
  | .device _, .file _ | .device _, .directory => isFalse (by simp)

instance : DecidableEq Node := Node.decEq

/-- The files and directories below the top. -/
structure FileTree where
  nodes : List (Place × Node) := []
  deriving DecidableEq

namespace FileTree

/-- What is at a place. -/
def node? (tree : FileTree) (place : Place) : Option Node :=
  if place = [] then some .directory else tree.nodes.lookup place

def isDirectory (tree : FileTree) (place : Place) : Bool :=
  tree.node? place = some .directory

def isFile (tree : FileTree) (place : Place) : Bool :=
  match tree.node? place with
  | some (.file _) => true
  | _ => false

/-- The devices that are at hand on every system, and the directory they are in. -/
def devices : List (Place × Node) :=
  [(["dev"], .directory), (["dev", "null"], .device .null), (["dev", "full"], .device .full),
   (["dev", "stdin"], .device .stdin), (["dev", "stdout"], .device .stdout),
   (["dev", "stderr"], .device .stderr)]

/-- Puts a node at a place. -/
def insert (tree : FileTree) (place : Place) (node : Node) : FileTree :=
  ⟨tree.nodes.filter (·.1 ≠ place) ++ [(place, node)]⟩

/-- Takes away what is at a place, and nothing below it. -/
def erase (tree : FileTree) (place : Place) : FileTree :=
  ⟨tree.nodes.filter (·.1 ≠ place)⟩

/-- Takes away what is below a place, and leaves the place itself. -/
def eraseBelow (tree : FileTree) (place : Place) : FileTree :=
  ⟨tree.nodes.filter fun entry => !(place.isPrefixOf entry.1 && entry.1 ≠ place)⟩

/-- Takes away what is at a place and below it. -/
def eraseAll (tree : FileTree) (place : Place) : FileTree :=
  ⟨tree.nodes.filter fun entry => !place.isPrefixOf entry.1⟩

/-- The names of what is directly inside a directory. -/
def childNames (tree : FileTree) (place : Place) : List String :=
  tree.nodes.filterMap fun entry =>
    if entry.1.dropLast = place then entry.1.getLast? else none

/-- Moves what is at and below a place to another place. -/
def move (tree : FileTree) (source target : Place) : FileTree :=
  ⟨(tree.eraseAll target).nodes.map fun entry =>
    if source.isPrefixOf entry.1 then
      (target ++ entry.1.drop source.length, entry.2)
    else
      entry⟩

end FileTree

end Desugar
