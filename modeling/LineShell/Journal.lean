import LineShell.Source
import LineShell.Text.Utf8

/-!
# The journal

What a shell does to its surroundings, in the order in which it happens, together with the output
that it still holds back.

* `Origin` : who wrote something, and so to which stream;
* `Event` : one thing done: octets that reached a stream, a read of the input, a segment that was
  run, a file that was saved, the end;
* `Journal.write`, `Journal.flush` : buffered output; `Journal.scope` is both;
* `Journal.report` : a line for the error stream, behind all output before it;
  `Journal.unreported` : what was done before the reports at the end;
* `Journal.sent`, `Journal.transcript` : what one stream, or a terminal, has received.
-/

namespace LineShell

/-- Who wrote something. -/
inductive Origin where
  /-- The shell, asking for a line. -/
  | prompt
  /-- The shell, at the end of a line that never came. -/
  | farewell
  | command
  /-- The shell, about a failure. -/
  | report
  /-- A child, to the given stream. -/
  | child (stream : Stream)
  deriving DecidableEq, Repr

def Origin.stream : Origin → Stream
  | prompt | farewell | command => .out
  | report => .err
  | child s => s

/-- Octets and who wrote them. -/
structure Chunk where
  origin : Origin
  bytes : Bytes
  deriving DecidableEq, Repr

/-- One thing that a shell did. -/
inductive Event where
  | wrote (chunk : Chunk)
  | read (reading : Reading)
  /-- A segment was run, as these words. -/
  | ran (segment : Text) (words : List Text)
  /-- The history was written to a file. -/
  | saved (path : Text) (bytes : Bytes)
  | closed
  deriving DecidableEq, Repr

/-- What was done, last thing first, and the output that is held back, last chunk first. -/
structure Journal where
  events : List Event
  held : List Chunk
  deriving DecidableEq, Repr

namespace Journal

def empty : Journal := ⟨[], []⟩

/-- What was done, first thing first. -/
def log (j : Journal) : List Event := j.events.reverse

def note (j : Journal) (e : Event) : Journal := { j with events := e :: j.events }

/-- Output, held back for now. -/
def write (j : Journal) (origin : Origin) (bytes : Bytes) : Journal :=
  { j with held := ⟨origin, bytes⟩ :: j.held }

/-- Everything held back reaches its stream. -/
def flush (j : Journal) : Journal := ⟨j.held.map .wrote ++ j.events, []⟩

/-- Output that reaches its stream at once. -/
def scope (j : Journal) (origin : Origin) (bytes : Bytes) : Journal := (j.write origin bytes).flush

/-- A line for the error stream, behind everything held back. -/
def report (j : Journal) (message : Text) : Journal :=
  j.flush.note (.wrote ⟨.report, Utf8.encode (message ++ ['\n'])⟩)

def isReport : Event → Bool
  | .wrote c => c.origin == .report
  | _ => false

/-- What was done before the reports at the end; nothing that is held back gets out any more. -/
def unreported (j : Journal) : Journal := ⟨j.events.dropWhile isReport, []⟩

/-- What a child wrote, behind everything held back. -/
def relay (j : Journal) (written : List (Stream × Bytes)) : Journal :=
  written.foldl (fun j (s, bytes) => j.note (.wrote ⟨.child s, bytes⟩)) j.flush

/-- The octets of an event that reached the streams `on` holds of. -/
def octets (on : Stream → Bool) : Event → Bytes
  | .wrote c => if on c.origin.stream then c.bytes else []
  | _ => []

/-- What a stream has received. -/
def sent (j : Journal) (s : Stream) : Bytes := j.log.flatMap (octets (· == s))

/-- What both streams have received, in order. -/
def transcript (j : Journal) : Bytes := j.log.flatMap (octets fun _ => true)

/-- Everything held back, in order. -/
def heldBytes (j : Journal) : Bytes := j.held.reverse.flatMap Chunk.bytes

@[simp] theorem log_note (j : Journal) (e : Event) : (j.note e).log = j.log ++ [e] := by
  simp [log, note]

@[simp] theorem log_write (j : Journal) (o : Origin) (bs : Bytes) : (j.write o bs).log = j.log := rfl

@[simp] theorem log_flush (j : Journal) : j.flush.log = j.log ++ j.held.reverse.map .wrote := by
  simp [log, flush]

@[simp] theorem held_flush (j : Journal) : j.flush.held = [] := rfl

@[simp] theorem held_note (j : Journal) (e : Event) : (j.note e).held = j.held := rfl

end Journal

end LineShell
