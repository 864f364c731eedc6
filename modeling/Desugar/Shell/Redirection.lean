import Desugar.Shell.State

/-!
# Opening files for descriptors

How a redirection opens a file.  The paths of the standard streams mean the descriptors of the
process, whatever those lead to.
-/

namespace Desugar.Shell.Sh

/-- Why a file could not be opened, in the shell's words. -/
def openReason (missing : String) (error : SystemError) : String :=
  match error with
  | .noEntry | .notDirectory => missing
  | error => error.reason

/-- The descriptor that a path stands for. -/
def descriptorAt? (path : String) : Option Nat :=
  match path with
  | "/dev/stdin" => some 0
  | "/dev/stdout" => some 1
  | "/dev/stderr" => some 2
  | _ =>
    if path.startsWith "/dev/fd/" then
      Text.natOfDigits? (path.toList.drop "/dev/fd/".length)
    else
      none

/-- The stream of what is at a place. -/
def streamAt (place : Place) (access : Access) : Sh Stream := do
  match ← look fun tree _ => tree.node? place with
  | some .directory => return .directory
  | some (.device kind) => return .device kind
  | _ => return .file place 0 access

/-- Opens a file for reading. -/
def openRead (path : String) : Sh (Except SystemError Nat) := do
  match descriptorAt? path with
  | some descriptor =>
    match ← streamNumber? descriptor with
    | some number => return .ok number
    | none => return .error .noEntry
  | none =>
    match ← look fun tree cwd => tree.resolve cwd (pathOf path) with
    | .ok place => return .ok (← openStream (← streamAt place .read))
    | .error error => return .error error

/-- Opens a file for writing, and makes it if there is none. -/
def openWrite (access : Access) (path : String) : Sh (Except SystemError Nat) := do
  match descriptorAt? path with
  | some descriptor =>
    match ← streamNumber? descriptor with
    | some number => return .ok number
    | none => return .error .noEntry
  | none =>
    match ← look fun tree cwd => tree.writePlace cwd (pathOf path) with
    | .error error => return .error error
    | .ok place =>
      let node? ← look fun tree _ => tree.node? place
      let empties := access = .write || access = .overwrite
      match node? with
      | some (.device _) => pure ()
      | some _ =>
        if empties then
          let _ ← change fun tree _ => .ok (tree.insert place (.file .empty))
      | none =>
        let _ ← change fun tree _ => .ok (tree.insert place (.file .empty))
      return .ok (← openStream (← streamAt place access))

/-- Opens a file as a redirection does.  The error is the message. -/
def openFor (access : Access) (path : String) : Sh (Except String Nat) := do
  match access with
  | .read =>
    return (← openRead path).mapError fun error =>
      "cannot open " ++ path ++ ": " ++ openReason "No such file" error
  | _ =>
    let isProtected ← if access = .write && (← isOn 'C') then
        look fun tree cwd => tree.isFileAt cwd (pathOf path)
      else
        pure false
    if isProtected then
      return .error ("cannot create " ++ path ++ ": File exists")
    else
      return (← openWrite access path).mapError fun error =>
        "cannot create " ++ path ++ ": " ++ openReason "Directory nonexistent" error

/-- The octets of a file, or of a descriptor that stands for one. -/
def readFile (path : String) : Sh (Except SystemError String) := do
  match ← openRead path with
  | .error error => return .error error
  | .ok number =>
    let state ← get
    match state.streams[number]? with
    | none => return .error .badDescriptor
    | some stream =>
      match stream.unread state.world with
      | .error error => return .error error
      | .ok (bytes, after) =>
        advance number bytes.size after
        return .ok (Octets.ofBytes bytes)

end Desugar.Shell.Sh
