import Desugar.Text.Decimal

/-!
# Signals

The names and numbers of signals, and what those do that nobody has arranged for.
-/

namespace Desugar.Shell.Signal

/-- The names of the signals, from number one on. -/
def names : List String :=
  ["HUP", "INT", "QUIT", "ILL", "TRAP", "ABRT", "BUS", "FPE", "KILL", "USR1", "SEGV", "USR2",
   "PIPE", "ALRM", "TERM", "STKFLT", "CHLD", "CONT", "STOP", "TSTP", "TTIN", "TTOU", "URG", "XCPU",
   "XFSZ", "VTALRM", "PROF", "WINCH", "IO", "PWR", "SYS"]

/-- What a shell says when a program was ended by a signal. -/
def descriptions : List String :=
  ["Hangup", "", "Quit", "Illegal instruction", "Trace/breakpoint trap", "Aborted", "Bus error",
   "Floating point exception", "Killed", "User defined signal 1", "Segmentation fault",
   "User defined signal 2", "", "Alarm clock", "Terminated", "Stack fault", "Child exited",
   "Continued", "Stopped (signal)", "Stopped", "Stopped (tty input)", "Stopped (tty output)",
   "Urgent I/O condition", "CPU time limit exceeded", "File size limit exceeded",
   "Virtual timer expired", "Profiling timer expired", "Window changed", "I/O possible",
   "Power failure", "Bad system call"]

/-- The signal of a name or a number.  Zero is the end of the shell, and is called `EXIT`. -/
def ofText? (text : String) : Option Nat :=
  match Text.natOfDigits? text.toList with
  | some number => if number < 65 then some number else none
  | none =>
    let upper := text.map Char.toUpper
    let plain := if upper.startsWith "SIG" then (upper.drop 3).toString else upper
    if upper = "EXIT" then some 0 else (names.idxOf? plain).map (· + 1)

/-- The name of a signal. -/
def name (number : Nat) : String :=
  if number = 0 then "EXIT" else names[number - 1]?.getD (Nat.repr number)

/-- The signals that end no program. -/
def isHarmless (number : Nat) : Bool :=
  [0, 17, 18, 23, 28].contains number

/-- What a shell says when a program was ended by the signal. -/
def description (number : Nat) : String :=
  descriptions[number - 1]?.getD ("Real-time signal " ++ Nat.repr (number - 34))

end Desugar.Shell.Signal
