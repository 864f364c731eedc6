/-!
# Shell scripts

The commands of a POSIX shell.  Words are kept in parts, because what is quoted and what is not
decides what becomes of the result of an expansion.

All text in a script is octets.
-/

namespace Desugar.Shell

/-- What is done with the value of a parameter.  Where `orEmpty` holds, an empty value counts as
none. -/
inductive Alteration where
  /-- The operand where there is no value. -/
  | fallback (orEmpty : Bool)
  /-- The operand where there is no value, which it then becomes. -/
  | assign (orEmpty : Bool)
  /-- An error with the operand as its message where there is no value. -/
  | demand (orEmpty : Bool)
  /-- The operand where there is a value. -/
  | replace (orEmpty : Bool)
  /-- The value without what the operand matches at its start. -/
  | dropStart (longest : Bool)
  /-- The value without what the operand matches at its end. -/
  | dropEnd (longest : Bool)
  deriving DecidableEq, Repr

/-- How a file is opened. -/
inductive Access where
  | read
  /-- An old content goes away. -/
  | write
  /-- Like `write`, even where an old content is protected. -/
  | overwrite
  | append
  | readWrite
  deriving DecidableEq, Repr

mutual

/-- A part of a word. -/
inductive Part where
  | text (content : String)
  | quoted (content : String)
  | param (name : String) (inQuotes : Bool)
  | length (name : String) (inQuotes : Bool)
  | altered (name : String) (inQuotes : Bool) (alteration : Alteration) (operand : List Part)
  /-- An expansion that is none. -/
  | malformed
  /-- The output of commands. -/
  | capture (script : List Command) (inQuotes : Bool)
  | arithmetic (expression : List Part) (inQuotes : Bool)

/-- Where a descriptor leads to for the time of a command. -/
inductive Redirect where
  | file (descriptor : Nat) (access : Access) (target : List Part)
  /-- To where another descriptor leads, or to nowhere. -/
  | duplicate (descriptor : Nat) (source : List Part)
  /-- To a text in the script, which has a number. -/
  | document (descriptor : Nat) (number : Nat)

/-- A command.  Those that can fail on their own know their line. -/
inductive Command where
  | simple (line : Nat) (assignments : List (String × List Part)) (words : List (List Part))
      (redirects : List Redirect)
  | redirected (line : Nat) (command : Command) (redirects : List Redirect)
  | subshell (line : Nat) (body : List Command)
  | group (body : List Command)
  /-- A command that nobody waits for. -/
  | background (command : Command)
  | pipeline (commands : List Command)
  | negated (command : Command)
  | both (first second : Command)
  | either (first second : Command)
  | choice (branches : List (List Command × List Command)) (otherwise : List Command)
  /-- A loop that runs as long as its condition fails, if `negated`, or succeeds. -/
  | loop (negated : Bool) (condition body : List Command)
  /-- A loop over words, or over the parameters of the script. -/
  | each (line : Nat) (name : String) (words : Option (List (List Part))) (body : List Command)
  /-- The commands under the first pattern that matches a word. -/
  | select (line : Nat) (subject : List Part) (cases : List (List (List Part) × List Command))
  | define (name : String) (body : Command)

end

/-- A word, in parts. -/
abbrev Word := List Part

instance : Inhabited Command := ⟨.group []⟩

end Desugar.Shell
