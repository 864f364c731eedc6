import Desugar.Utility.Basic

/-!
# Programs on lines

Parts of files by lines or bytes, counts, and lines that are put in another order, side by side or
into other widths.
-/

namespace Desugar.Utility

open Shell Sh

/-- The lines of a text with their ends.  The last one may have none. -/
def fullLines (text : String) : List String :=
  let lines := linesOf text
  if isCutOff text then lines.dropLast.map (· ++ "\n") ++ lines.getLast?.toList
  else lines.map (· ++ "\n")

/-- An amount with the sign in front of it. -/
structure Amount where
  sign : Option Char
  value : Nat

/-- The amount that a text spells.  It may end in a letter for its unit. -/
def amount? (text : String) : Option Amount :=
  let (sign, cs) := match text.toList with
    | '-' :: cs => (some '-', cs)
    | '+' :: cs => (some '+', cs)
    | cs => (none, cs)
  let digits := cs.takeWhile Char.isDigit
  let unit? : Option Nat := match cs.drop digits.length with
    | [] => some 1
    | ['b'] => some 512
    | ['k'] | ['K'] => some 1024
    | ['M'] => some 1048576
    | _ => none
  if digits.isEmpty then none
  else unit?.map fun unit => ⟨sign, Text.ofDigits digits * unit⟩

/-- The call with an amount that is written like an option turned into the option for lines. -/
def spellAmount (signs : List Char) : List String → List String
  | [] => []
  | "--" :: args => "--" :: args
  | argument :: args =>
    match argument.toList with
    | sign :: d :: cs =>
      if signs.contains sign && (d :: cs).all Char.isDigit then
        "-n" :: (String.ofList (if sign = '-' then d :: cs else sign :: d :: cs)) :: args
      else
        argument :: args
    | _ => argument :: args

/-- Shows a part of each operand, with names in front where there are several. -/
def showParts (name : String) (args : Arguments) (part : String → String) : Sh Nat := do
  let operands := if args.operands.isEmpty then ["-"] else args.operands
  let headers := (operands.length > 1 && !args.has 'q') || args.has 'v'
  let mut status := 0
  let mut isFirst := true
  for operand in operands do
    let shown := if operand = "-" then "standard input" else operand
    let header := if headers then (if isFirst then "" else "\n") ++ "==> " ++ shown ++ " <==\n"
      else ""
    let result ← if operand = "-" then readAll 0 else readFile operand
    match result with
    | .ok text =>
      say (header ++ part text)
      isFirst := false
    | .error .isDirectory =>
      say header
      complain name ("error reading " ++ quotedName shown ++ ": Is a directory")
      isFirst := false
      status := 1
    | .error error =>
      complain name ("cannot open " ++ quotedName shown ++ " for reading: " ++ error.reason)
      status := 1
  return status

/-- The amount of lines or bytes that a call asks for, or why it makes no sense. -/
def partAmount (args : Arguments) : Except String (Bool × Amount) :=
  let isAmount (option : Char × String) : Bool := option.1 = 'c' || option.1 = 'n'
  let byBytes := match args.options.reverse.find? isAmount with
    | some ('c', _) => true
    | _ => false
  let text := if byBytes then (args.value? 'c').getD "" else (args.value? 'n').getD "10"
  match amount? text with
  | some amount => .ok (byBytes, amount)
  | none =>
    .error ("invalid number of " ++ (if byBytes then "bytes" else "lines") ++ ": " ++ quote text)

/-- The units that parts are made of. -/
def unitsOf (byBytes : Bool) (text : String) : List String :=
  if byBytes then text.toList.map String.singleton else fullLines text

def partOptions : OptionSpec where
  flags := "qvzfF"
  valued := "ncs"
  long := [("lines", 'n'), ("bytes", 'c'), ("quiet", 'q'), ("verbose", 'v')]

def head : Program := fun args =>
  withOptions "head" 1 partOptions
    (fun args => do
      match partAmount args with
      | .error message =>
        complain "head" message
        return 1
      | .ok (byBytes, amount) =>
        showParts "head" args fun text =>
          let units := unitsOf byBytes text
          String.join (units.take
            (if amount.sign = some '-' then units.length - amount.value else amount.value)))
    (spellAmount ['-'] args)

def tail : Program := fun args =>
  withOptions "tail" 1 partOptions
    (fun args => do
      match partAmount args with
      | .error message =>
        complain "tail" message
        return 1
      | .ok (byBytes, amount) =>
        showParts "tail" args fun text =>
          let units := unitsOf byBytes text
          String.join (units.drop
            (if amount.sign = some '+' then amount.value - 1 else units.length - amount.value)))
    (spellAmount ['-', '+'] args)

/-! ## Counts -/

/-- How many words a text has. -/
def countWords (text : String) : Nat :=
  let isSpace (c : Char) : Bool := c = ' ' || (9 ≤ c.toNat && c.toNat < 14)
  (text.toList.foldl
    (fun (count, inWord) c => if isSpace c then (count, false)
      else (if inWord then count else count + 1, true))
    (0, false)).1

/-- How many columns a line takes. -/
def columns (line : String) : Nat :=
  line.toList.foldl
    (fun column c =>
      if c = '\t' then column / 8 * 8 + 8
      else if c.toNat < 32 || c.toNat ≥ 127 then column
      else column + 1)
    0

/-- The counts of a text that are wanted, in their order. -/
def countsOf (args : Arguments) (text : String) : List Nat :=
  let all := !(args.has 'l' || args.has 'w' || args.has 'c' || args.has 'm' || args.has 'L')
  let count (letter : Char) (inAll : Bool) (value : Nat) : List Nat :=
    if args.has letter || (all && inAll) then [value] else []
  count 'l' true (text.toList.count '\n') ++ count 'w' true (countWords text) ++
    count 'm' false text.length ++ count 'c' true text.length ++
    count 'L' false (((linesOf text).map columns).foldl max 0)

/-- A number with blanks in front. -/
def padLeft (width : Nat) (text : String) : String :=
  String.ofList (List.replicate (width - text.length) ' ') ++ text

/-- Whether an operand is a plain file. -/
def isPlainFile (operand : String) : Sh Bool := do
  if operand = "-" then
    match ← streamNumber? 0 with
    | some number =>
      match (← get).streams[number]? with
      | some (.file _ _ _) => return true
      | _ => return false
    | none => return false
  else
    look fun tree cwd => tree.isFileAt cwd (pathOf operand)

def wc : Program := withOptions "wc" 1
    { flags := "lwcmL", long := [("lines", 'l'), ("words", 'w'), ("bytes", 'c'), ("chars", 'm')] }
    fun args => do
  let operands := if args.operands.isEmpty then ["-"] else args.operands
  let mut rows : List (List Nat × String) := []
  let mut size := 0
  let mut isPlain := true
  let mut status := 0
  for operand in operands do
    let plain ← isPlainFile operand
    let result ← if operand = "-" then readAll 0 else readFile operand
    let name := if args.operands.isEmpty then "" else " " ++ operand
    match result with
    | .ok text =>
      rows := rows ++ [(countsOf args text, name)]
      isPlain := isPlain && plain
      size := size + (if plain then text.length else 0)
    | .error error =>
      complain "wc" (shownName operand ++ ": " ++ error.reason)
      status := 1
      if error = .isDirectory then
        rows := rows ++ [(countsOf args "", name)]
        isPlain := false
  let total := rows.foldl
    (fun sums row => (List.range (countsOf args "").length).map fun index =>
      let value := row.1[index]?.getD 0
      let sum := sums[index]?.getD 0
      if args.has 'L' && index + 1 = (countsOf args "").length then max sum value
      else sum + value) []
  let table := if operands.length > 1 then rows ++ [(total, " total")] else rows
  let width :=
    if operands.length = 1 && (countsOf args "").length = 1 then 1
    else max (Nat.repr size).length (if isPlain then 1 else 7)
  for (counts, name) in table do
    say (" ".intercalate (counts.map fun count => padLeft width (Nat.repr count)) ++ name ++ "\n")
  return status

/-! ## Neighbours -/

/-- What counts of a line when it is compared with its neighbour. -/
def uniqueKey (args : Arguments) (line : String) : String :=
  let isBlank (c : Char) : Bool := c = ' ' || c = '\t'
  let dropField (cs : List Char) : List Char := (cs.dropWhile isBlank).dropWhile (!isBlank ·)
  let fields := ((args.value? 'f').bind nat?).getD 0
  let cs := (List.range fields).foldl (fun cs _ => dropField cs) line.toList
  let cs := cs.drop (((args.value? 's').bind nat?).getD 0)
  let cs := match (args.value? 'w').bind nat? with
    | some width => cs.take width
    | none => cs
  String.ofList (if args.has 'i' then cs.map Char.toLower else cs)

/-- Lines with the number of times that they follow each other. -/
def runsOf (key : String → String) : List String → List (String × Nat)
  | [] => []
  | line :: lines =>
    match runsOf key lines with
    | (next, count) :: runs =>
      if key line = key next then (line, count + 1) :: runs else (line, 1) :: (next, count) :: runs
    | [] => [(line, 1)]

def uniq : Program := withOptions "uniq" 1
    { flags := "cduDiz", valued := "fsw",
      long := [("count", 'c'), ("repeated", 'd'), ("unique", 'u'), ("ignore-case", 'i')] }
    fun args => do
  match ← readOperand "uniq" (args.operands.head?.getD "-") with
  | none => return 1
  | some text =>
    let runs := (runsOf (uniqueKey args) (linesOf text)).filter fun (_, count) =>
      (!args.has 'd' || count > 1) && (!args.has 'u' || count = 1)
    let shown := unlines (runs.map fun (line, count) =>
      if args.has 'c' then padLeft 7 (Nat.repr count) ++ " " ++ line else line)
    match args.operands with
    | [_, target] =>
      match ← openWrite .write target with
      | .ok number =>
        let _ ← emitTo number (Octets.toBytes shown)
        return 0
      | .error error =>
        complain "uniq" (shownName target ++ ": " ++ error.reason)
        return 1
    | _ =>
      say shown
      return 0

/-- Whether a text of two operands holds one line before another: the columns of `comm`. -/
def compareLines (args : Arguments) : (bound : Nat) → List String → List String → List String
  | 0, _, _ => []
  | bound + 1, left, right =>
    let first := if args.has '1' then "" else "\t"
    let second := first ++ (if args.has '2' then "" else "\t")
    let onlyLeft (line : String) : List String := if args.has '1' then [] else [line]
    let onlyRight (line : String) : List String := if args.has '2' then [] else [first ++ line]
    match left, right with
    | [], [] => []
    | line :: left, [] => onlyLeft line ++ compareLines args bound left []
    | [], line :: right => onlyRight line ++ compareLines args bound [] right
    | a :: left, b :: right =>
      if a = b then
        (if args.has '3' then [] else [second ++ a]) ++ compareLines args bound left right
      else if a < b then
        onlyLeft a ++ compareLines args bound left (b :: right)
      else
        onlyRight b ++ compareLines args bound (a :: left) right

def comm : Program := withOptions "comm" 1 { flags := "123z" } fun args => do
  match args.operands with
  | [left, right] =>
    match ← readOperand "comm" left with
    | none => return 1
    | some a =>
      match ← readOperand "comm" right with
      | none => return 1
      | some b =>
        let a := linesOf a
        let b := linesOf b
        say (unlines (compareLines args (a.length + b.length + 1) a b))
        return 0
  | [] => refuse "comm" "missing operand" 1
  | [left] => refuse "comm" ("missing operand after " ++ quote left) 1
  | _ :: _ :: extra :: _ => refuse "comm" ("extra operand " ++ quote extra) 1

def cmp : Program := withOptions "cmp" 2 { flags := "sbl", valued := "n" } fun args => do
  let left := args.operands.head?.getD "-"
  let right := args.operands[1]?.getD "-"
  if args.operands.isEmpty then
    complain "cmp" "missing operand after 'cmp'"
    complain "cmp" "Try 'cmp --help' for more information."
    return 2
  match ← readOperand "cmp" left with
  | none => return 2
  | some a =>
    match ← readOperand "cmp" right with
    | none => return 2
    | some b =>
      let same := ((a.toList.zip b.toList).takeWhile fun (c, d) => c = d).length
      let line := (a.toList.take same).count '\n' + 1
      if same = a.length && same = b.length then
        return 0
      else
        unless args.has 's' do
          if same = a.length || same = b.length then
            let shorter := if same = a.length then left else right
            if same = 0 then
              complain "cmp" ("EOF on " ++ shorter ++ " which is empty")
            else
              let ended := a.toList[same - 1]? = some '\n'
              complain "cmp" ("EOF on " ++ shorter ++ " after byte " ++ Nat.repr same ++
                (if ended then ", line " ++ Nat.repr (line - 1) else ", in line " ++ Nat.repr line))
          else
            say (left ++ " " ++ right ++ " differ: char " ++ Nat.repr (same + 1) ++ ", line " ++
              Nat.repr line ++ "\n")
        return 1

/-! ## Other orders and widths -/

/-- Runs a program that makes one text of another, on each of its operands. -/
def transform (name : String) (operands : List String) (change : String → String) : Sh Nat := do
  let (contents, status) ← readOperands name operands
  say (String.join (contents.map change))
  return status

def tac : Program := withOptions "tac" 1 { flags := "br", valued := "s" } fun args => do
  let (contents, status) ← readOperands "tac" args.operands
  say (String.join (contents.map fun text => String.join (fullLines text).reverse))
  return status

def rev : Program := withOptions "rev" 1 { flags := "0" } fun args =>
  transform "rev" args.operands fun text =>
    let shown := unlines ((linesOf text).map fun line => String.ofList line.toList.reverse)
    if isCutOff text then String.ofList shown.toList.dropLast else shown

/-- Lines with numbers as `nl` writes them. -/
def numbered (all : Bool) (width step : Nat) (separator : String) (format : String) :
    Nat → List String → List String
  | _, [] => []
  | number, line :: lines =>
    if all || line ≠ "" then
      let digits := Nat.repr number
      let shown :=
        if format = "ln" then digits ++ String.ofList (List.replicate (width - digits.length) ' ')
        else if format = "rz" then
          String.ofList (List.replicate (width - digits.length) '0') ++ digits
        else padLeft width digits
      (shown ++ separator ++ line) ::
        numbered all width step separator format (number + step) lines
    else
      (String.ofList (List.replicate (width + separator.length) ' ') ++ line) ::
        numbered all width step separator format number lines

def nl : Program := withOptions "nl" 1
    { flags := "p", valued := "bdfhilnsvw", long := [("body-numbering", 'b')] }
    fun args => do
  let (contents, status) ← readOperands "nl" args.operands
  let number (letter : Char) (standard : Nat) : Nat :=
    ((args.value? letter).bind nat?).getD standard
  say (unlines (numbered ((args.value? 'b') = some "a") (number 'w' 6) (number 'i' 1)
    ((args.value? 's').getD "\t") ((args.value? 'n').getD "rn") (number 'v' 1)
    (linesOf (String.join contents))))
  return status

/-- The delimiters that a list of them spells. -/
def delimitersOf : List Char → List String
  | [] => []
  | '\\' :: 'n' :: cs => "\n" :: delimitersOf cs
  | '\\' :: 't' :: cs => "\t" :: delimitersOf cs
  | '\\' :: '\\' :: cs => "\\" :: delimitersOf cs
  | '\\' :: '0' :: cs => "" :: delimitersOf cs
  | c :: cs => String.singleton c :: delimitersOf cs

/-- Texts with delimiters between them, which are used over and over. -/
def joinWith (delimiters : List String) : Nat → List String → String
  | _, [] => ""
  | _, [text] => text
  | index, text :: texts =>
    text ++ (delimiters[index % delimiters.length]?.getD "") ++
      joinWith delimiters (index + 1) texts

def paste : Program := withOptions "paste" 1
    { flags := "sz", valued := "d", long := [("delimiters", 'd'), ("serial", 's')] }
    fun args => do
  let delimiters := delimitersOf ((args.value? 'd').getD "\t").toList
  let delimiters := if delimiters.isEmpty then [""] else delimiters
  let (contents, status) ← readOperands "paste" args.operands
  if status ≠ 0 then
    return status
  let columns := contents.map linesOf
  if args.has 's' then
    say (unlines (columns.map (joinWith delimiters 0)))
  else
    let height := (columns.map List.length).foldl max 0
    say (unlines ((List.range height).map fun row =>
      joinWith delimiters 0 (columns.map fun lines => lines[row]?.getD "")))
  return 0

/-- A line in pieces of a width.  Where `atBlanks` holds, it is broken after a blank if it can
be. -/
def foldLine (width : Nat) (atBlanks : Bool) : (bound : Nat) → List Char → List (List Char)
  | 0, cs => [cs]
  | bound + 1, cs =>
    if cs.length ≤ width then
      [cs]
    else
      let piece := cs.take width
      let kept := (piece.reverse.dropWhile fun c => c ≠ ' ' && c ≠ '\t').reverse
      let taken := if atBlanks && !kept.isEmpty then kept.length else width
      cs.take taken :: foldLine width atBlanks bound (cs.drop taken)

def fold : Program := withOptions "fold" 1
    { flags := "bs", valued := "w", long := [("width", 'w'), ("spaces", 's')] }
    fun args => do
  let width := max 1 (((args.value? 'w').bind nat?).getD 80)
  transform "fold" args.operands fun text =>
    let lines := (linesOf text).map fun line =>
      "\n".intercalate ((foldLine width (args.has 's') line.length line.toList).map String.ofList)
    if isCutOff text then "\n".intercalate lines else unlines lines

/-- The tabs of a line replaced by blanks. -/
def expandTabs (size : Nat) : Nat → List Char → List Char
  | _, [] => []
  | column, c :: cs =>
    if c = '\t' then
      let width := size - column % size
      List.replicate width ' ' ++ expandTabs size (column + width) cs
    else if c = '\n' then
      c :: expandTabs size 0 cs
    else
      c :: expandTabs size (column + 1) cs

def expand : Program := withOptions "expand" 1
    { flags := "i", valued := "t", long := [("tabs", 't')] }
    fun args =>
  transform "expand" args.operands fun text =>
    String.ofList (expandTabs (max 1 (((args.value? 't').bind nat?).getD 8)) 0 text.toList)

def tee : Program := withOptions "tee" 1 { flags := "aip", long := [("append", 'a')] }
    fun args => do
  let mut numbers := []
  let mut status := 0
  for operand in args.operands do
    match ← openWrite (if args.has 'a' then .append else .write) operand with
    | .ok number => numbers := numbers ++ [number]
    | .error error =>
      complain "tee" (shownName operand ++ ": " ++ error.reason)
      status := 1
  match ← readAll 0 with
  | .error error =>
    complain "tee" ("read error: " ++ error.reason)
    return 1
  | .ok text =>
    say text
    for number in numbers do
      let _ ← emitTo number (Octets.toBytes text)
    return status

/-- The programs on lines by their names. -/
def linePrograms : List (String × Program) :=
  [("head", head), ("tail", tail), ("wc", wc), ("uniq", uniq), ("comm", comm), ("cmp", cmp),
   ("tac", tac), ("rev", rev), ("nl", nl), ("paste", paste), ("fold", fold), ("expand", expand),
   ("tee", tee)]

end Desugar.Utility
