/-!
# Setting values

The values that settings are made of, before they are checked: scalars, lists and tables.  A table
is a list of entries with distinct keys.

Layers are put on top of each other by `Value.merge`: tables are merged key by key, and any other
value takes the place of the old one.  Letter case does not count in keys.
-/

namespace Desugar.Settings

/-- A value of a settings file or of an override. -/
inductive Value where
  /-- The place of a list element that was never set. -/
  | null
  | bool (value : Bool)
  | int (value : Int)
  | string (text : String)
  | list (items : List Value)
  | table (entries : List (String × Value))
  deriving Repr, Inhabited

namespace Value

/-- The lower-case form of a character of a key.  The Kelvin sign is the only character outside
ASCII whose lower-case form is an ASCII letter. -/
def lowerChar (c : Char) : Char :=
  if c.toNat = 0x212A then 'k' else c.toLower

/-- A key as tables hold it. -/
def lowerKey (key : String) : String :=
  String.ofList (key.toList.map lowerChar)

/-- The entries of a table; any other value has none. -/
def entries : Value → List (String × Value)
  | .table entries => entries
  | _ => []

/-- The items of a list; any other value has none. -/
def items : Value → List Value
  | .list items => items
  | _ => []

/-- The value of a key. -/
def get? (value : Value) (key : String) : Option Value :=
  value.entries.lookup key

/-- Replaces the value of a key, or adds the key at the end. -/
def insertEntry (key : String) (new : Value) : List (String × Value) → List (String × Value)
  | [] => [(key, new)]
  | (other, old) :: entries =>
    if other = key then (key, new) :: entries else (other, old) :: insertEntry key new entries

/-- Sets a key.  A value that is no table becomes one with this key only. -/
def insert (value : Value) (key : String) (new : Value) : Value :=
  .table (insertEntry key new value.entries)

mutual

/-- What becomes of a value when a new one is put on top of it: a table is merged into it, anything
else replaces it. -/
def merge (old : Option Value) : Value → Value
  | .table entries => mergeEntries (old.getD (.table [])) entries
  | new => new

/-- Puts the entries of a table on top of a value. -/
def mergeEntries (old : Value) : List (String × Value) → Value
  | [] => old
  | (key, new) :: entries =>
    let key := lowerKey key
    mergeEntries (old.insert key (merge (old.get? key) new)) entries

end

end Value

end Desugar.Settings
