import Desugar.Shell.Script
import Desugar.Text.Octets
import Desugar.World

/-!
# Streams

What a descriptor of a process leads to, and what reading and writing it does.  Descriptors that
were copied share one stream, and with it the position in a file.
-/

namespace Desugar.Shell

/-- What a descriptor leads to. -/
inductive Stream where
  /-- A file, with the position of the next byte. -/
  | file (place : Place) (offset : Nat) (access : Access)
  /-- What one command wrote for another, and how much of it was read. -/
  | pipe (content : ByteArray) (taken : Nat)
  | directory
  | device (kind : Device)

namespace Stream

/-- How much a pipe takes before its writer is stopped. -/
def pipeLimit : Nat := 1048576

/-- The content of a file with bytes written at a position. -/
def overwrite (content bytes : ByteArray) (offset : Nat) : ByteArray :=
  if offset = content.size then
    content ++ bytes
  else
    let padding : ByteArray := ⟨(List.replicate (offset - content.size) 0).toArray⟩
    content.extract 0 offset ++ padding ++ bytes ++
      content.extract (offset + bytes.size) content.size

/-- The bytes of a stream that are not read yet, and the stream when so many of them are. -/
def unread (world : World) : Stream → Except SystemError (ByteArray × (Nat → Stream))
  | .file place offset access =>
    match access, world.tree.node? place with
    | .write, _ | .overwrite, _ | .append, _ => .error .badDescriptor
    | _, some (.file content) =>
      .ok (content.extract offset content.size, fun count => .file place (offset + count) access)
    | _, _ => .ok (.empty, fun _ => .file place offset access)
  | .pipe content taken =>
    .ok (content.extract taken content.size, fun count => .pipe content (taken + count))
  | .directory => .error .isDirectory
  | .device kind => .ok (.empty, fun _ => .device kind)

/-- Writes bytes to a stream. -/
def write (world : World) (bytes : ByteArray) : Stream → Except SystemError (World × Stream)
  | .file place offset access =>
    match access, world.tree.node? place with
    | .read, _ => .error .badDescriptor
    | _, some (.file content) =>
      let offset := if access = .append then content.size else offset
      let tree := world.tree.insert place (.file (overwrite content bytes offset))
      .ok ({ world with tree := tree }, .file place (offset + bytes.size) access)
    | _, _ => .ok (world, .file place offset access)
  | .pipe content taken => .ok (world, .pipe (content ++ bytes) taken)
  | .directory => .error .badDescriptor
  | .device .stdout => .ok ({ world with stdout := world.stdout ++ bytes }, .device .stdout)
  | .device .stderr => .ok ({ world with stderr := world.stderr ++ bytes }, .device .stderr)
  | .device .full => if bytes.isEmpty then .ok (world, .device .full) else .error .noSpace
  | .device .stdin => .error .badDescriptor
  | .device .null => .ok (world, .device .null)

end Stream

end Desugar.Shell
