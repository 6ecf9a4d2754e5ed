import LineShell.Fault
import LineShell.Machine
import LineShell.Text.Lines

/-!
# Sources of lines

A `Source` is the input of a shell. It is read in blocks, as many at a time as it takes to get to the
end of a line; what has been read ahead stays with the source. A line editor at a terminal, which draws its
own prompt and can be interrupted in the middle of a line, is left out: a source is never interrupted, it
gives a line, ends or fails.

* `Source.ofBytes`, `Source.script`, `Source.input` : octets, a script file and standard input as
  sources;
* `Source.next` : the next line, without its newline and decoded by itself; a line that a failure cuts
  off is lost.
-/

namespace LineShell

/-- What a read of the input gave. Only a line editor gives anything else, a line that was interrupted. -/
inductive Reading where
  | line (raw : Text)
  | ended
  | failed (e : SysError)
  deriving DecidableEq, Repr

/-- The octets that have been read ahead, and where more come from, if from anywhere. -/
structure Source where
  ahead : Bytes
  handle : Option Handle
  deriving DecidableEq, Repr

namespace Source

variable {ω : Type}

/-- Some octets and nothing else. -/
def ofBytes (bs : Bytes) : Source := ⟨bs, none⟩

/-- A script file, or why it cannot be run. -/
def script (opened : Except SysError Handle) (path : Text) : Except Fault Source :=
  match opened with
  | .ok handle => .ok ⟨[], some handle⟩
  | .error .notFound => .error (.scriptMissing path)
  | .error .accessDenied => .error (.scriptForbidden path)
  | .error e => .error (.scriptUnopened path e)

def input : Source := ⟨[], some .input⟩

/-- How many octets a block has. -/
def blockSize : Nat := 8192

/-- How many octets are read to get at the first `n` of them: whole blocks. -/
def readTo (n : Nat) : Nat := (n + blockSize - 1) / blockSize * blockSize

/-- What the octets in front of the end of an input give. -/
def last (bs : Bytes) : Reading := if bs.isEmpty then .ended else .line (Utf8.decode bs)

def next (m : Machine ω) (w : ω) (s : Source) : Reading × Source × ω :=
  match Bytes.firstLine? s.ahead, s.handle with
  | some (line, rest), handle => (.line (Utf8.decode line), ⟨rest, handle⟩, w)
  | none, none => (last s.ahead, ⟨[], none⟩, w)
  | none, some h =>
    let found := m.readable w h
    match Bytes.firstLine? found.bytes with
    | some (line, _) =>
      let block := found.bytes.take (readTo (line.length + 1))
      let (h, w) := m.advance w h block.length
      (.line (Utf8.decode (s.ahead ++ line)), ⟨block.drop (line.length + 1), some h⟩, w)
    | none =>
      let (h, w) := m.advance w h found.bytes.length
      match found.failure with
      | some e => (.failed e, ⟨[], some h⟩, w)
      | none => (last (s.ahead ++ found.bytes), ⟨[], some h⟩, w)

/-- How many lines may be read from something that can grow while it is read. -/
def maxLines : Nat := 1000000000

/-- How many reads it takes to get to the end. -/
def reads (s : Source) : Nat := s.ahead.length + maxLines

end Source

end LineShell
