import Desugar.Settings.Value
import Desugar.Text.Decimal

/-!
# Key paths

A key path such as `staging.exclude[0]` names one place in a settings value: a key, and then keys of
the tables and indices of the lists below it.

`Value.put` sets a value at a path.  It always succeeds: what is missing on the way is created, and
a value of the wrong kind on the way gives place to an empty table or list.
-/

namespace Desugar.Settings

/-- One step of a path. -/
inductive Segment where
  | key (name : String)
  /-- A list index; a negative one counts from the end. -/
  | index (position : Int)
  deriving DecidableEq, Repr

/-- A path into a settings value. -/
abbrev KeyPath := List Segment

namespace KeyPath

/-- The characters of a key in a path. -/
def isKeyChar (c : Char) : Bool :=
  c.isAlphanum || c = '_' || c = '-' || c = ' '

/-- The index that the characters between two square brackets spell.  Blanks around it do not
count. -/
def index? (cs : List Char) : Option Int :=
  let isSpace (c : Char) : Bool := c = ' ' || c = '\t'
  let cs := ((cs.dropWhile isSpace).reverse.dropWhile isSpace).reverse
  let value := match cs with
    | '-' :: digits => (Text.natOfDigits? digits).map fun n => -(n : Int)
    | digits => (Text.natOfDigits? digits).map fun n => (n : Int)
  value.filter Text.fits64

/-- The segments that follow the first key. -/
def segments? (cs : List Char) : Option (List Segment) :=
  match cs with
  | [] => some []
  | '.' :: cs =>
    let name := cs.takeWhile isKeyChar
    if name.isEmpty then
      none
    else
      (segments? (cs.dropWhile isKeyChar)).map (.key (String.ofList name) :: ·)
  | '[' :: cs =>
    let others := cs.dropWhile (· ≠ ']')
    if others.isEmpty then
      none
    else
      match index? (cs.takeWhile (· ≠ ']')) with
      | none => none
      | some position => (segments? others.tail).map (.index position :: ·)
  | _ => none
termination_by cs.length
decreasing_by
  · have := (List.dropWhile_sublist isKeyChar (l := cs)).length_le
    simp only [List.length_cons]
    omega
  · have := (List.dropWhile_sublist (· ≠ ']') (l := cs)).length_le
    simp only [List.length_cons, List.length_tail]
    omega

/-- The path that a text spells, if it is one. -/
def parse? (text : String) : Option KeyPath :=
  let cs := text.toList
  let name := cs.takeWhile isKeyChar
  if name.isEmpty then
    none
  else
    (segments? (cs.dropWhile isKeyChar)).map (.key (String.ofList name) :: ·)

/-- The path that a key at the top of a file stands for: a key that spells no path is the name of
one setting. -/
def ofFileKey (key : String) : KeyPath :=
  (parse? key).getD [.key key]

end KeyPath

namespace Value

/-- Changes the item at an index.  The list grows as needed, at its end or, for an index before its
start, at its front; the places in between are null. -/
def modifyItem (items : List Value) (position : Int) (change : Value → Value) : List Value :=
  if 0 ≤ position then
    let index := position.toNat
    (items ++ List.replicate (index + 1 - items.length) Value.null).modify index change
  else
    let fromEnd := position.natAbs
    (List.replicate (fromEnd - items.length) Value.null ++ items).modify
      (items.length - fromEnd) change

/-- What becomes of a value when a new one is set at a path in it.  A table set under a key is
merged into what the key has. -/
def put (new : Value) : KeyPath → Option Value → Value
  | [], _ => new
  | .key name :: path, old =>
    let old := old.getD (.table [])
    let name := lowerKey name
    let below := match path with
      | [] => merge (old.get? name) new
      | _ => put new path (old.get? name)
    old.insert name below
  | .index position :: path, old =>
    .list (modifyItem (old.getD (.list [])).items position fun item => put new path (some item))

/-- Sets the value at a path. -/
def putAt (value : Value) (path : KeyPath) (new : Value) : Value :=
  put new path (some value)

end Value

end Desugar.Settings
