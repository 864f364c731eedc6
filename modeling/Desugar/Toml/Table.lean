import Desugar.Settings.Value

/-!
# The tables of a TOML document

A TOML document defines its tables piece by piece, by headers and by dotted keys, and no table may
be defined twice.  A `Node` remembers how a table came to be, which decides what may still be added
to it:

* a table that is only on the way to another header can get a header of its own;
* a table made by dotted keys can get further dotted keys, and no header;
* a table with a header is complete once the next header starts.
-/

namespace Desugar.Toml

open Settings

/-- How a table came to be. -/
inductive Origin where
  /-- It stands on the way to a table with a header. -/
  | implied
  /-- It stands on the way of a dotted key. -/
  | dotted
  /-- It has a header. -/
  | header
  deriving DecidableEq, Repr

/-- What a key of a table holds while the document is read. -/
inductive Node where
  | value (value : Value)
  | table (origin : Origin) (entries : List (String × Node))
  /-- An array of tables: those that are complete, and the last one. -/
  | tables (earlier : List Value) (last : List (String × Node))

/-- The keys of a table and what they hold. -/
abbrev Entries := List (String × Node)

namespace Entries

/-- Replaces what a key holds, or adds the key at the end. -/
def set (key : String) (node : Node) : Entries → Entries
  | [] => [(key, node)]
  | (other, old) :: entries =>
    if other = key then (key, node) :: entries else (other, old) :: set key node entries

end Entries

mutual

/-- The value of a node. -/
def Node.toValue : Node → Value
  | .value value => value
  | .table _ entries => .table (entriesValue entries)
  | .tables earlier last => .list (earlier ++ [.table (entriesValue last)])

/-- The values of a table's entries. -/
def entriesValue : List (String × Node) → List (String × Value)
  | [] => []
  | (key, node) :: entries => (key, node.toValue) :: entriesValue entries

end

namespace Entries

/-- Adds a key and its value.  All but the last key of a dotted key are tables, which are made as
needed; a table with a header takes no dotted keys, and no key is set twice. -/
def assign (value : Value) : List String → Entries → Option Entries
  | [], _ => none
  | [key], entries =>
    match entries.lookup key with
    | none => some (entries.set key (.value value))
    | some _ => none
  | key :: path, entries =>
    match entries.lookup key with
    | none => (assign value path []).map fun below => entries.set key (.table .dotted below)
    | some (.table .dotted below) =>
      (assign value path below).map fun below => entries.set key (.table .dotted below)
    | some (.table .implied below) =>
      if path.length = 1 then
        none
      else
        (assign value path below).map fun below => entries.set key (.table .implied below)
    | some (.tables earlier last) =>
      if path.length = 1 then
        none
      else
        (assign value path last).map fun last => entries.set key (.tables earlier last)
    | some (.table .header _) | some (.value _) => none

/-- Changes the table at a path of header keys.  Tables on the way are made as needed; of an array
of tables the last one is meant. -/
def within (change : Entries → Option Entries) : List String → Entries → Option Entries
  | [], entries => change entries
  | key :: path, entries =>
    match entries.lookup key with
    | none => (within change path []).map fun below => entries.set key (.table .implied below)
    | some (.table origin below) =>
      (within change path below).map fun below => entries.set key (.table origin below)
    | some (.tables earlier last) =>
      (within change path last).map fun last => entries.set key (.tables earlier last)
    | some (.value _) => none

/-- Gives the table of a key its header. -/
def define (key : String) (entries : Entries) : Option Entries :=
  match entries.lookup key with
  | none => some (entries.set key (.table .header []))
  | some (.table .implied below) => some (entries.set key (.table .header below))
  | some _ => none

/-- Starts a new table in the array of tables of a key. -/
def extend (key : String) (entries : Entries) : Option Entries :=
  match entries.lookup key with
  | none => some (entries.set key (.tables [] []))
  | some (.tables earlier last) =>
    some (entries.set key (.tables (earlier ++ [.table (entriesValue last)]) []))
  | some _ => none

end Entries

/-- One line of a document. -/
inductive Statement where
  /-- `[path]` -/
  | header (path : List String)
  /-- `[[path]]` -/
  | arrayHeader (path : List String)
  /-- `path = value` -/
  | assign (path : List String) (value : Value)
  deriving Repr

/-- A document that is read in part: its tables, and the path of the table that keys go to. -/
structure Document where
  entries : Entries := []
  current : List String := []

namespace Document

/-- The document after one more line, if the line defines nothing twice. -/
def add (document : Document) : Statement → Option Document
  | .header path => do
    let key ← path.getLast?
    let entries ← document.entries.within (Entries.define key) path.dropLast
    return ⟨entries, path⟩
  | .arrayHeader path => do
    let key ← path.getLast?
    let entries ← document.entries.within (Entries.extend key) path.dropLast
    return ⟨entries, path⟩
  | .assign path value => do
    let entries ← document.entries.within (Entries.assign value path) document.current
    return ⟨entries, document.current⟩

/-- The entries of the document that the lines make up. -/
def ofStatements (statements : List Statement) : Option (List (String × Value)) := do
  let document ← statements.foldlM add {}
  return entriesValue document.entries

end Document

end Desugar.Toml
