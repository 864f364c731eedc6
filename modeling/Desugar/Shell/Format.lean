import Desugar.Text.Decimal

/-!
# Formats

Texts with backslash escapes, and the formats of `printf`: what is in a format is shown as it is,
except for conversions, which take the arguments one after the other.  As long as arguments are left
the format is used again.
-/

namespace Desugar.Shell

/-- The characters that letters after a backslash stand for. -/
def escapes : List (Char × Char) :=
  [('\\', '\\'), ('a', '\x07'), ('b', '\x08'), ('e', '\x1b'), ('f', '\x0c'), ('n', '\n'),
   ('r', '\r'), ('t', '\t'), ('v', '\x0b')]

def isOctalDigit (c : Char) : Bool :=
  '0' ≤ c && c ≤ '7'

/-- The octet that up to three octal digits at the start of a text spell, and how many they are. -/
def octalEscape (cs : List Char) : Char × Nat :=
  let digits := (cs.take 3).takeWhile isOctalDigit
  (Char.ofNat (digits.foldl (fun value c => 8 * value + Text.digitValue c) 0 % 256), digits.length)

/-- What an escape stands for, and how many characters after the backslash it takes. -/
def escapeAhead (cs : List Char) : Char × Nat :=
  match cs with
  | [] => ('\\', 0)
  | c :: _ =>
    match escapes.lookup c with
    | some char => (char, 1)
    | none => if isOctalDigit c then octalEscape cs else ('\\', 0)

/-- A text with its escapes replaced. -/
def unescape : (bound : Nat) → List Char → List Char
  | 0, _ => []
  | _, [] => []
  | bound + 1, '\\' :: cs =>
    let (char, taken) := escapeAhead cs
    char :: unescape bound (cs.drop taken)
  | bound + 1, c :: cs => c :: unescape bound cs

/-- A text with its escapes replaced, where octal digits may follow a zero and `\c` ends all output,
which the flag tells. -/
def unescapeText : (bound : Nat) → List Char → List Char × Bool
  | 0, _ => ([], false)
  | _, [] => ([], false)
  | _, '\\' :: 'c' :: _ => ([], true)
  | bound + 1, '\\' :: cs =>
    let cs := match cs with
      | '0' :: d :: rest => if isOctalDigit d then d :: rest else cs
      | _ => cs
    let (char, taken) := escapeAhead cs
    let (text, stopped) := unescapeText bound (cs.drop taken)
    (char :: text, stopped)
  | bound + 1, c :: cs =>
    let (text, stopped) := unescapeText bound cs
    (c :: text, stopped)

/-- What `echo` writes. -/
def echoText (args : List String) : String :=
  let (newline, args) := match args with
    | "-n" :: args => (false, args)
    | args => (true, args)
  let text := (" ".intercalate args).toList
  let (shown, stopped) := unescapeText (text.length + 1) text
  String.ofList (if newline && !stopped then shown ++ ['\n'] else shown)

/-- A conversion in a format. -/
structure Conversion where
  flags : List Char
  width : Nat
  precision : Option Nat
  kind : Char
  deriving Repr

namespace Conversion

def has (conversion : Conversion) (flag : Char) : Bool :=
  conversion.flags.contains flag

/-- The text at the width of the conversion.  Zeros go between the sign and the digits. -/
def pad (conversion : Conversion) (zeros : Bool) (sign body : String) : String :=
  let fill := conversion.width - (sign.length + body.length)
  if conversion.has '-' then
    sign ++ body ++ String.ofList (List.replicate fill ' ')
  else if zeros && conversion.has '0' then
    sign ++ String.ofList (List.replicate fill '0') ++ body
  else
    String.ofList (List.replicate fill ' ') ++ sign ++ body

/-- Digits with zeros in front, up to the precision. -/
def minDigits (conversion : Conversion) (digits : String) : String :=
  match conversion.precision with
  | some 0 => if digits = "0" then "" else digits
  | some count => String.ofList (List.replicate (count - digits.length) '0') ++ digits
  | none => digits

/-- A number with a sign. -/
def signed (conversion : Conversion) (value : Int) : String :=
  let sign :=
    if value < 0 then "-"
    else if conversion.has '+' then "+"
    else if conversion.has ' ' then " "
    else ""
  conversion.pad conversion.precision.isNone sign
    (conversion.minDigits (Nat.repr value.natAbs))

/-- A number without a sign.  Negative ones are counted from the largest of 64 bits. -/
def unsigned (conversion : Conversion) (value : Int) : String :=
  let value := (value % 18446744073709551616).toNat
  let digits := String.ofList (Nat.toDigits
    (match conversion.kind with | 'o' => 8 | 'x' | 'X' => 16 | _ => 10) value)
  let digits := conversion.minDigits digits
  let (mark, digits) :=
    if conversion.has '#' && value ≠ 0 then
      match conversion.kind with
      | 'o' => ("", if digits.startsWith "0" then digits else "0" ++ digits)
      | 'x' | 'X' => ("0x", digits)
      | _ => ("", digits)
    else
      ("", digits)
  let shown := conversion.pad conversion.precision.isNone mark digits
  if conversion.kind = 'X' then shown.map Char.toUpper else shown

/-- A text, cut to the precision. -/
def text (conversion : Conversion) (value : String) : String :=
  let value := match conversion.precision with
    | some length => String.ofList (value.toList.take length)
    | none => value
  conversion.pad false "" value

end Conversion

/-- How far the output of a format has come. -/
structure FormatState where
  output : String := ""
  args : List String
  /-- Whether a conversion took an argument, or would have. -/
  converted : Bool := false
  /-- What was wrong with arguments, in order. -/
  complaints : List String := []
  /-- What is wrong with the format. -/
  mistake : Option String := none
  /-- Whether an argument ended all output. -/
  stopped : Bool := false

namespace Format

/-- The number that an argument spells, and what is wrong with it. -/
def number (signed : Bool) (text : String) : Int × Option String :=
  match text.toList with
  | '\'' :: rest | '"' :: rest => ((rest.head?.map Char.toNat).getD 0, none)
  | cs =>
    let isBlank (c : Char) : Bool := c = ' ' || (9 ≤ c.toNat && c.toNat < 14)
    let (negative, cs) := match cs.dropWhile isBlank with
      | '-' :: cs => (true, cs)
      | '+' :: cs => (false, cs)
      | cs => (false, cs)
    let (base, body) := match cs with
      | '0' :: 'x' :: d :: rest | '0' :: 'X' :: d :: rest =>
        if d.isAlphanum && Text.digitValue d < 16 then (16, d :: rest) else (8, cs)
      | '0' :: _ => (8, cs)
      | _ => (10, cs)
    let digits := body.takeWhile fun c => c.isAlphanum && Text.digitValue c < base
    let value := digits.foldl (fun value c => value * base + Text.digitValue c) 0
    let rest := body.drop digits.length
    let limit : Nat :=
      if !signed then 18446744073709551615
      else if negative then 9223372036854775808
      else 9223372036854775807
    let shown : Int := if negative then -(min value limit : Nat) else (min value limit : Nat)
    if digits.isEmpty then
      (0, if text = "" then none else some (text ++ ": expected numeric value"))
    else if !rest.isEmpty then
      (shown, some (text ++ ": not completely converted"))
    else if value > limit then
      (if signed then shown else limit, some (text ++ ": Numerical result out of range"))
    else
      (shown, none)

/-- The next argument as a number. -/
def takeNumber (signed : Bool) (state : FormatState) : Int × FormatState :=
  match state.args with
  | [] => (0, { state with converted := true })
  | argument :: args =>
    let (value, complaint?) := number signed argument
    (value, { state with
      args := args, converted := true, complaints := state.complaints ++ complaint?.toList })

/-- The next argument. -/
def takeText (state : FormatState) : String × FormatState :=
  (state.args.head?.getD "", { state with args := state.args.tail, converted := true })

def write (text : String) (state : FormatState) : FormatState :=
  { state with output := state.output ++ text }

/-- Carries out a conversion. -/
def convert (conversion : Conversion) (state : FormatState) : FormatState :=
  match conversion.kind with
  | 'd' | 'i' =>
    let (value, state) := takeNumber true state
    write (conversion.signed value) state
  | 'o' | 'u' | 'x' | 'X' =>
    let (value, state) := takeNumber false state
    write (conversion.unsigned value) state
  | 'c' =>
    let (value, state) := takeText state
    write (conversion.pad false "" (String.singleton (value.toList.head?.getD '\x00'))) state
  | 's' =>
    let (value, state) := takeText state
    write (conversion.text value) state
  | 'b' =>
    let (value, state) := takeText state
    let (shown, stopped) := unescapeText (value.length + 1) value.toList
    { write (conversion.text (String.ofList shown)) state with stopped := stopped }
  | kind =>
    { state with mistake := some ("%" ++ String.singleton kind ++ ": invalid directive") }

/-- A number in a conversion, or the next argument in the place of a star. -/
def sizeAhead (cs : List Char) (state : FormatState) : Int × List Char × FormatState :=
  match cs with
  | '*' :: rest =>
    let (value, state) := takeNumber true state
    (value, rest, state)
  | _ =>
    let digits := cs.takeWhile Char.isDigit
    (Text.ofDigits digits, cs.drop digits.length, state)

/-- The conversion after a percent sign, and what follows it. -/
def conversionAhead (cs : List Char) (state : FormatState) :
    Option Conversion × List Char × FormatState :=
  let flags := cs.takeWhile fun c => ['#', '-', '+', ' ', '0'].contains c
  let (width, cs, state) := sizeAhead (cs.drop flags.length) state
  let flags := if width < 0 then '-' :: flags else flags
  let (precision, cs, state) := match cs with
    | '.' :: rest =>
      let (precision, cs, state) := sizeAhead rest state
      (if precision < 0 then none else some precision.toNat, cs, state)
    | _ => (none, cs, state)
  match cs with
  | [] => (none, [], { state with mistake := some "missing format character" })
  | kind :: rest => (some ⟨flags, width.natAbs, precision, kind⟩, rest, state)

/-- One pass of a format. -/
def pass : (bound : Nat) → List Char → FormatState → FormatState
  | 0, _, state => state
  | _, [], state => state
  | bound + 1, '\\' :: cs, state =>
    let (char, taken) := escapeAhead cs
    pass bound (cs.drop taken) (write (String.singleton char) state)
  | bound + 1, '%' :: '%' :: cs, state => pass bound cs (write "%" state)
  | bound + 1, '%' :: cs, state =>
    let (conversion?, rest, state) := conversionAhead cs state
    match conversion? with
    | none => state
    | some conversion =>
      let state := convert conversion state
      if state.stopped || state.mistake.isSome then state else pass bound rest state
  | bound + 1, c :: cs, state => pass bound cs (write (String.singleton c) state)

/-- Passes of a format until no arguments are left. -/
def passes (format : List Char) : (bound : Nat) → FormatState → FormatState
  | 0, state => state
  | bound + 1, state =>
    let state := pass (format.length + 1) format { state with converted := false }
    if state.stopped || state.mistake.isSome || !state.converted || state.args.isEmpty then state
    else passes format bound state

/-- What a format makes of arguments. -/
def apply (format : String) (args : List String) : FormatState :=
  passes format.toList (args.length + 1) { args := args }

end Format

end Desugar.Shell
