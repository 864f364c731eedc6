import Desugar.Shell.Format
import Desugar.Shell.Pattern
import Desugar.Utility.Basic

/-!
# Programs on characters and fields

`cut` takes parts out of lines, and `tr` replaces, removes and squeezes characters.
-/

namespace Desugar.Utility

open Shell Sh

/-! ## Parts of lines -/

/-- A range of positions from one on. -/
structure Span where
  first : Nat
  /-- The last position, or none where the range has no end. -/
  last : Option Nat

def Span.contains (position : Nat) (span : Span) : Bool :=
  span.first ≤ position && span.last.all (position ≤ ·)

/-- The ranges of a list, or the part of it that is none. -/
def spans (what : String) : List String → Except String (List Span)
  | [] => .ok []
  | text :: texts => do
    let cs := text.toList
    let low := cs.takeWhile Char.isDigit
    let rest := cs.drop low.length
    let isRange := rest.head? = some '-'
    let high := if isRange then rest.drop 1 else []
    if (!isRange && !rest.isEmpty) || !high.all Char.isDigit then
      .error ("invalid " ++ what ++ " value " ++ quote text)
    if isRange && low.isEmpty && high.isEmpty then
      .error "invalid range with no endpoint: -"
    if (!low.isEmpty && Text.ofDigits low = 0) || (low.isEmpty && !isRange) then
      .error (if what = "field" then "fields are numbered from 1"
        else "byte/character positions are numbered from 1")
    let first := if low.isEmpty then 1 else Text.ofDigits low
    let last :=
      if !isRange then some first
      else if high.isEmpty then none
      else some (Text.ofDigits high)
    if last.any (· < first) then
      .error "invalid decreasing range"
    return ⟨first, last⟩ :: (← spans what texts)

/-- The parts of a line at wanted positions. -/
def selected {α : Type} (wanted : Nat → Bool) (parts : List α) : List α :=
  (parts.zipIdx 1).filterMap fun (part, index) => if wanted index then some part else none

def cut : Program := withOptions "cut" 1
    { flags := "nszC", valued := "bcdfO",
      long := [("output-delimiter", 'O'), ("complement", 'C'), ("only-delimited", 's'),
        ("delimiter", 'd'), ("fields", 'f'), ("characters", 'c'), ("bytes", 'b')] }
    fun args => do
  let byField := args.value? 'f'
  let list? := byField <|> args.value? 'c' <|> args.value? 'b'
  match list? with
  | none => refuse "cut" "you must specify a list of bytes, characters, or fields" 1
  | some list =>
    let what := if byField.isSome then "field" else "byte/character position"
    match spans what ((list.map fun c => if c = ' ' then ',' else c).splitOn ",") with
    | .error message => refuse "cut" message 1
    | .ok ranges =>
      let delimiter := (args.value? 'd').getD "\t"
      if delimiter.length > 1 then
        refuse "cut" "the delimiter must be a single character" 1
      else if args.has 'd' && byField.isNone then
        refuse "cut" "an input delimiter may be specified only when operating on fields" 1
      else
        let wanted (index : Nat) : Bool := ranges.any (·.contains index) != args.has 'C'
        let (contents, status) ← readOperands "cut" args.operands
        let shownLine (line : String) : Option String :=
          if byField.isSome then
            let fields := line.splitOn delimiter
            if fields.length = 1 then
              if args.has 's' then none else some line
            else
              some (((args.value? 'O').getD delimiter).intercalate (selected wanted fields))
          else
            some (String.ofList (selected wanted line.toList))
        say (String.join (contents.map fun text => unlines ((linesOf text).filterMap shownLine)))
        return status

/-! ## Characters -/

/-- A part of a list of characters. -/
inductive CharItem where
  | chars (cs : List Char)
  /-- The characters of a class. -/
  | named (name : String)
  /-- A character as often as is needed, or so many times. -/
  | fill (c : Char) (count : Nat)
  deriving Repr

/-- A character of a list, where a backslash starts an escape. -/
def listedChar (cs : List Char) : Char × List Char :=
  match cs with
  | '\\' :: rest =>
    match escapeAhead rest with
    | (c, 0) =>
      match rest with
      | d :: more => (d, more)
      | [] => (c, [])
    | (c, taken) => (c, rest.drop taken)
  | c :: rest => (c, rest)
  | [] => ('\x00', [])

/-- All characters from one to another. -/
def charsBetween (first last : Char) : List Char :=
  (List.range (last.toNat + 1 - first.toNat)).map fun offset => Char.ofNat (first.toNat + offset)

/-- The parts of a list of characters. -/
def charItems : (bound : Nat) → List Char → Except String (List CharItem)
  | 0, _ => .ok []
  | _, [] => .ok []
  | bound + 1, cs => do
    match cs with
    | '[' :: ':' :: rest =>
      let name := rest.takeWhile (· ≠ ':')
      match rest.drop name.length with
      | ':' :: ']' :: rest =>
        let name := String.ofList name
        if (charClass? name).isNone then
          .error ("invalid character class " ++ quote name)
        return .named name :: (← charItems bound rest)
      | _ => return .chars ['['] :: (← charItems bound (cs.drop 1))
    | '[' :: c :: '*' :: rest =>
      let digits := rest.takeWhile Char.isDigit
      match rest.drop digits.length with
      | ']' :: rest => return .fill c (Text.ofDigits digits) :: (← charItems bound rest)
      | _ => return .chars ['['] :: (← charItems bound (cs.drop 1))
    | _ =>
      let (first, rest) := listedChar cs
      match rest with
      | '-' :: d :: more =>
        let (last, after) := listedChar (d :: more)
        if last < first then
          .error ("range-endpoints of " ++ quote (String.ofList [first, '-', last]) ++
            " are in reverse collating sequence order")
        return .chars (charsBetween first last) :: (← charItems bound after)
      | _ => return .chars [first] :: (← charItems bound rest)

/-- All octets. -/
def allChars : List Char :=
  (List.range 256).map Char.ofNat

/-- The characters of a list.  A character that fills up is repeated to make so many. -/
def listedChars (size : Nat) (items : List CharItem) : List Char :=
  let lengthOf (item : CharItem) : Nat := match item with
    | .chars cs => cs.length
    | .named name => (allChars.filter (((charClass? name).getD fun _ => false) ·)).length
    | .fill _ count => count
  let fixed := (items.map lengthOf).foldl (· + ·) 0
  items.flatMap fun item => match item with
    | .chars cs => cs
    | .named name => allChars.filter (((charClass? name).getD fun _ => false) ·)
    | .fill c count => List.replicate (if count = 0 then size - fixed else count) c

/-- The character that one of a list is replaced by. -/
def replacement (source target : List Char) (c : Char) : Char :=
  let pairs := (source.zipIdx).reverse
  match pairs.lookup c with
  | some index => target[index]?.getD (target.getLast?.getD c)
  | none => c

/-- A text in which of some characters only the first of a row is left. -/
def squeeze (isIn : Char → Bool) : Option Char → List Char → List Char
  | _, [] => []
  | before, c :: cs =>
    if isIn c && before = some c then squeeze isIn before cs
    else c :: squeeze isIn (some c) cs

/-- Replaces, removes or squeezes the characters of the input. -/
def changeChars (args : Arguments) (first second : List CharItem) (hasSecond : Bool) :
    Sh Nat := do
  let listed := listedChars 0 first
  let source :=
    if args.has 'c' || args.has 'C' then allChars.filter (!listed.contains ·) else listed
  let target := listedChars source.length second
  match ← readAll 0 with
  | .error error =>
    complain "tr" ("read error: " ++ error.reason)
    return 1
  | .ok content =>
    let cs := content.toList
    let result :=
      if args.has 'd' then
        let kept := cs.filter (!source.contains ·)
        if args.has 's' then squeeze target.contains none kept else kept
      else if !hasSecond then
        squeeze source.contains none cs
      else
        let mapped := cs.map (replacement source target)
        if args.has 's' then squeeze target.contains none mapped else mapped
    say (String.ofList result)
    return 0

/-- Refuses a call with too few or too many lists of characters. -/
def refuseLists (message explanation : String) : Sh Nat := do
  complain "tr" message
  Sh.complain explanation
  Sh.complain (tryHelp "tr")
  return 1

def tr : Program := withOptions "tr" 1
    { flags := "cCdst", long := [("delete", 'd'), ("squeeze-repeats", 's'), ("complement", 'c')] }
    fun args => do
  let items (text : String) : Except String (List CharItem) :=
    charItems (text.length + 1) text.toList
  let deleting := args.has 'd'
  let squeezing := args.has 's'
  match args.operands with
  | [] => refuse "tr" "missing operand" 1
  | _ :: _ :: extra :: _ => refuse "tr" ("extra operand " ++ quote extra) 1
  | first :: others =>
    if others.isEmpty && deleting == squeezing then
      refuseLists ("missing operand after " ++ quote first)
        (if deleting then
          "Two strings must be given when both deleting and squeezing repeats."
        else
          "Two strings must be given when translating.")
    else if !others.isEmpty && deleting && !squeezing then
      refuseLists ("extra operand " ++ quote (others.head?.getD ""))
        "Only one string may be given when deleting without squeezing repeats."
    else
      match items first, items (others.head?.getD "") with
      | .error message, _ | _, .error message =>
        complain "tr" message
        return 1
      | .ok source, .ok target =>
        if others = [""] && !deleting then
          complain "tr" "when not truncating set1, string2 must be non-empty"
          return 1
        else
          changeChars args source target (!others.isEmpty)

/-- The programs on characters by their names. -/
def charPrograms : List (String × Program) :=
  [("cut", cut), ("tr", tr)]

end Desugar.Utility
