import Desugar.Regex.Basic

/-!
# Editing scripts

The commands of a stream editor.  A script is a list of instructions; a group of them starts with an
instruction that skips the rest of it for lines that are not addressed.
-/

namespace Desugar.Utility.Sed

/-- A regular expression in a script.  An empty one means the last that was used. -/
structure Expression where
  regex : Option Regex
  manner : Regex.Manner
  deriving Repr

/-- Lines that an instruction is for. -/
inductive Address where
  | line (number : Nat)
  | last
  | matching (expression : Expression)
  /-- Every so many lines from one on. -/
  | step (first size : Nat)
  deriving Repr

/-- Where a range of lines ends. -/
inductive RangeEnd where
  | address (address : Address)
  /-- So many lines after the first. -/
  | plus (count : Nat)
  /-- At the next line whose number is a multiple. -/
  | multiple (size : Nat)
  deriving Repr

/-- The lines that an instruction is for. -/
inductive Selection where
  | all
  | one (address : Address)
  | range (first : Address) (last : RangeEnd)
  /-- From the start up to a match, which may be in the first line. -/
  | fromStart (last : Expression)
  deriving Repr

/-- How letters of a replacement are changed. -/
inductive CaseChange where
  | upper
  | lower
  | keep
  /-- Only the next letter. -/
  | nextUpper
  | nextLower
  deriving DecidableEq, Repr

/-- A part of a replacement. -/
inductive ReplacementPart where
  | text (content : List Char)
  /-- What a group matched, or for zero the whole match. -/
  | group (index : Nat)
  | case (change : CaseChange)
  deriving Repr

/-- A replacement of matches. -/
structure Substitution where
  expression : Expression
  replacement : List ReplacementPart
  /-- The first match that is replaced. -/
  first : Nat := 1
  /-- Whether the later ones are, too. -/
  all : Bool := false
  print : Bool := false
  file : Option String := none
  deriving Repr

/-- What an instruction does. -/
inductive Action where
  /-- Skips to an instruction for lines that are not addressed. -/
  | group (stop : Nat)
  | closeGroup
  | label
  | substitute (substitution : Substitution)
  | mapChars (pairs : List (Char × Char))
  | print
  | printFirst
  | delete
  | deleteFirst
  | next
  | appendNext
  | hold
  | holdAppend
  | get
  | getAppend
  | exchange
  | append (text : String)
  | insert (text : String)
  | change (text : String)
  | lineNumber
  | list
  | readFile (path : String)
  | writeFile (path : String)
  | writeFirst (path : String)
  /-- Goes to a label, or to the end. -/
  | branch (label : String)
  | branchIfReplaced (label : String)
  | branchUnlessReplaced (label : String)
  | quit (status : Nat) (silently : Bool)
  | fileName
  | zap
  deriving Repr

structure Instruction where
  selection : Selection
  negated : Bool
  action : Action
  deriving Repr

/-- A script: its instructions, and where its labels are. -/
structure Script where
  instructions : Array Instruction := #[]
  labels : List (String × Nat) := []

end Desugar.Utility.Sed
