import Desugar.Utility.Basic

/-!
# Sorting

Lines in the order of keys.  Lines whose keys are equal are in the order of their octets, unless the
order they came in is to be kept.
-/

namespace Desugar.Utility

open Shell Sh

namespace Sorting

/-- How keys are compared. -/
structure Order where
  numeric : Bool := false
  reverse : Bool := false
  ignoreCase : Bool := false
  skipBlanks : Bool := false
  dictionary : Bool := false
  /-- Runs of digits are compared as numbers. -/
  versions : Bool := false
  deriving DecidableEq, Repr

/-- A key: from a field and a character in it to another.  Both are counted from one. -/
structure Key where
  firstField : Nat
  firstChar : Nat
  /-- The last field and character.  Zero is the end of the line, or of the field. -/
  lastField : Nat
  lastChar : Nat
  order : Option Order
  deriving Repr

def isBlank (c : Char) : Bool :=
  c = ' ' || c = '\t'

/-- Where the fields of characters start and end, if the first character is at `start`.  Without a
separator, the blanks in front of a field belong to it. -/
def boundsFrom (separator : Option Char) (start : Nat) :
    (bound : Nat) → List Char → List (Nat × Nat)
  | 0, _ => []
  | bound + 1, cs =>
    let length := match separator with
      | some c => (cs.takeWhile (· ≠ c)).length
      | none =>
        let blanks := (cs.takeWhile isBlank).length
        blanks + ((cs.drop blanks).takeWhile (!isBlank ·)).length
    let rest := cs.drop length
    if rest.isEmpty then
      [(start, start + length)]
    else
      let step := if separator.isSome then 1 else 0
      (start, start + length) :: boundsFrom separator (start + length + step) bound (rest.drop step)

/-- Where the fields of a line start and end. -/
def fieldBounds (separator : Option Char) (line : List Char) : List (Nat × Nat) :=
  boundsFrom separator 0 (line.length + 1) line

/-- The characters of a key in a line. -/
def keyText (separator : Option Char) (key : Key) (skipBlanks : Bool) (line : List Char) :
    List Char :=
  let bounds := fieldBounds separator line
  let (start, _) := bounds[key.firstField - 1]?.getD (line.length, line.length)
  let blanks := if skipBlanks then ((line.drop start).takeWhile isBlank).length else 0
  let first := min line.length (start + blanks + (key.firstChar - 1))
  let last :=
    if key.lastField = 0 then
      line.length
    else
      match bounds[key.lastField - 1]? with
      | none => line.length
      | some (start, stop) =>
        if key.lastChar = 0 then
          stop
        else
          let blanks := if skipBlanks then ((line.drop start).takeWhile isBlank).length else 0
          min line.length (start + blanks + key.lastChar)
  (line.drop first).take (last - first)

/-- The number at the start of a text: its digits as a whole number, and how many of them are after
the point. -/
def numberOf (cs : List Char) : Int × Nat :=
  let cs := cs.dropWhile isBlank
  let (negative, cs) := match cs with
    | '-' :: cs => (true, cs)
    | cs => (false, cs)
  let whole := cs.takeWhile Char.isDigit
  let fraction := match cs.drop whole.length with
    | '.' :: rest => rest.takeWhile Char.isDigit
    | _ => []
  let digits := Text.ofDigits (whole ++ fraction)
  (if negative then -(digits : Int) else digits, fraction.length)

/-- Two numbers compared. -/
def compareNumbers (a b : List Char) : Ordering :=
  let (x, places) := numberOf a
  let (y, places') := numberOf b
  compare (x * (Nat.pow 10 places')) (y * (Nat.pow 10 places))

/-- Two texts compared, with runs of digits as numbers. -/
def compareVersions : (bound : Nat) → List Char → List Char → Ordering
  | 0, _, _ => .eq
  | _, [], [] => .eq
  | _, [], _ :: _ => .lt
  | _, _ :: _, [] => .gt
  | bound + 1, c :: cs, d :: ds =>
    if c.isDigit && d.isDigit then
      let a := (c :: cs).takeWhile Char.isDigit
      let b := (d :: ds).takeWhile Char.isDigit
      match compare (Text.ofDigits a) (Text.ofDigits b) with
      | .eq =>
        compareVersions bound ((c :: cs).drop a.length) ((d :: ds).drop b.length)
      | order => order
    else if c = d then
      compareVersions bound cs ds
    else
      compare c.toNat d.toNat

/-- Two texts compared octet by octet. -/
def compareText : List Char → List Char → Ordering
  | [], [] => .eq
  | [], _ :: _ => .lt
  | _ :: _, [] => .gt
  | c :: cs, d :: ds => (compare c.toNat d.toNat).then (compareText cs ds)

/-- Two keys compared. -/
def Order.compare (order : Order) (a b : List Char) : Ordering :=
  let prepare (cs : List Char) : List Char :=
    let cs := if order.dictionary then cs.filter fun c => c.isAlphanum || isBlank c else cs
    if order.ignoreCase then cs.map Char.toUpper else cs
  let result :=
    if order.numeric then compareNumbers a b
    else if order.versions then compareVersions (a.length + 1) a b
    else compareText (prepare a) (prepare b)
  if order.reverse then result.swap else result

/-- Two lines compared by keys, the first of which counts most. -/
def compareKeys (separator : Option Char) (standard : Order) (a b : List Char) :
    List Key → Ordering
  | [] => .eq
  | key :: keys =>
    let order := key.order.getD standard
    let text := keyText separator key order.skipBlanks
    (order.compare (text a) (text b)).then (compareKeys separator standard a b keys)

/-- The order that letters stand for. -/
def orderOf (letters : List Char) : Order where
  numeric := letters.contains 'n' || letters.contains 'g' || letters.contains 'h'
  reverse := letters.contains 'r'
  ignoreCase := letters.contains 'f'
  skipBlanks := letters.contains 'b'
  dictionary := letters.contains 'd'
  versions := letters.contains 'V'

/-- The key that an option spells. -/
def key? (text : String) : Option Key :=
  let position (cs : List Char) (standard : Nat) : Nat × Nat × List Char :=
    let field := cs.takeWhile Char.isDigit
    match cs.drop field.length with
    | '.' :: rest =>
      let char := rest.takeWhile Char.isDigit
      (Text.ofDigits field, Text.ofDigits char, rest.drop char.length)
    | rest => (Text.ofDigits field, standard, rest)
  let (firstField, firstChar, rest) := position text.toList 1
  let letters := rest.takeWhile (· ≠ ',')
  let (lastField, lastChar, more) := match rest.drop letters.length with
    | ',' :: rest => position rest 0
    | _ => (0, 0, [])
  let letters := letters ++ more
  if firstField = 0 then none
  else some ⟨firstField, firstChar, lastField, lastChar,
    if letters.isEmpty then none else some (orderOf letters)⟩

/-- Lines without those whose keys are equal to the one in front of them. -/
def dropEqual (same : String → String → Bool) : List String → List String
  | a :: b :: lines =>
    if same a b then dropEqual same (a :: lines) else a :: dropEqual same (b :: lines)
  | lines => lines
termination_by lines => lines.length

end Sorting

open Sorting in
def sort : Program := withOptions "sort" 2
    { flags := "bdfghiMnRrVcCmsuz", valued := "kotST",
      long := [("numeric-sort", 'n'), ("reverse", 'r'), ("unique", 'u'), ("key", 'k'),
        ("field-separator", 't'), ("output", 'o'), ("ignore-case", 'f'), ("stable", 's'),
        ("version-sort", 'V'), ("check", 'c')] }
    fun args => do
  let standard := orderOf (args.options.map Prod.fst)
  let separator := (args.value? 't').bind fun text =>
    if text = "\\0" then some '\x00' else text.toList.head?
  match (args.values 'k').find? fun text => (key? text).isNone with
  | some text =>
    complain "sort" ("field number is zero: invalid field specification " ++ quote text)
    return 2
  | none =>
    let keys := (args.values 'k').filterMap key?
    let keys := if keys.isEmpty then [⟨1, 1, 0, 0, none⟩] else keys
    let byKeys (a b : String) : Ordering :=
      compareKeys separator standard a.toList b.toList keys
    let whole (a b : String) : Ordering :=
      if args.has 's' || args.has 'u' then .eq
      else if standard.reverse then compareText b.toList a.toList
      else compareText a.toList b.toList
    let order (a b : String) : Ordering := (byKeys a b).then (whole a b)
    let mut lines := []
    for operand in (if args.operands.isEmpty then ["-"] else args.operands) do
      let result ← if operand = "-" then readAll 0 else readFile operand
      match result with
      | .ok text => lines := lines ++ linesOf text
      | .error .isDirectory =>
        complain "sort" ("read failed: " ++ operand ++ ": Is a directory")
        return 2
      | .error error =>
        complain "sort" ("cannot read: " ++ shownName operand ++ ": " ++ error.reason)
        return 2
    if args.has 'c' || args.has 'C' then
      let isAfter (a b : String) : Bool :=
        order a b = .gt || (args.has 'u' && byKeys a b = .eq)
      let pairs := (lines.zip lines.tail).zipIdx
      match pairs.find? fun ((a, b), _) => isAfter a b with
      | none => return 0
      | some ((_, line), index) =>
        unless args.has 'C' do
          complain "sort" (args.operands.head?.getD "-" ++ ":" ++ Nat.repr (index + 2) ++
            ": disorder: " ++ line)
        return 1
    else
      let sorted := lines.mergeSort fun a b => order a b ≠ .gt
      let sorted := if args.has 'u' then dropEqual (fun a b => byKeys a b = .eq) sorted else sorted
      match args.value? 'o' with
      | none =>
        say (unlines sorted)
        return 0
      | some target =>
        match ← openWrite .write target with
        | .ok number =>
          let _ ← emitTo number (Octets.toBytes (unlines sorted))
          return 0
        | .error error =>
          complain "sort" ("open failed: " ++ shownName target ++ ": " ++ error.reason)
          return 2

end Desugar.Utility
