import LineShell.SysError
import LineShell.Line.Chain

/-!
# The machine

What the shell asks of the system that it runs on. A `Machine ω` answers for states of type `ω`, so
that the shell itself is a function of the state it starts in.

* `Handle` : something that is open for reading;
* `ByteStream` : the octets that can be read from it, and the failure they may end in;
* `Launch` : a program to start, with its arguments and its variables;
* `Ending` : how a child ended; `Ending.status` as a status;
* `Machine` : the requests; `Machine.readFile` : what a file holds.
-/

namespace LineShell

/-- Something that is open for reading: standard input, or a file of which `offset` octets are behind. -/
inductive Handle where
  | input
  | file (id offset : Nat)
  deriving DecidableEq, Repr

/-- What can be read: octets, and then perhaps a failure instead of the end. -/
structure ByteStream where
  bytes : Bytes
  failure : Option SysError
  deriving DecidableEq, Repr

/-- The two streams that a program writes to. -/
inductive Stream where
  | out
  | err
  deriving DecidableEq, Repr

/-- A program to start. The first argument is the name that it is called by. -/
structure Launch where
  path : Text
  arguments : List Text
  vars : List (Text × Text)
  deriving DecidableEq, Repr

/-- How a child ended. -/
inductive Ending where
  | exited (code : Nat)
  | killed (signal : Nat)
  deriving DecidableEq, Repr

/-- The status of a child: its code, or 128 and the signal that ended it. -/
def Ending.status : Ending → Status
  | exited code => code
  | killed signal => 128 + signal

/-- What a child did: what it wrote, in order, and how it ended. -/
structure ChildReport where
  written : List (Stream × Bytes)
  ending : Ending
  deriving DecidableEq, Repr

/-- A system whose states are of type `ω`. -/
structure Machine (ω : Type) where
  pid : Nat
  /-- Whether a path leads to a regular file, links followed. -/
  isFile : ω → Text → Bool
  openFile : ω → Text → Except SysError Handle
  /-- What can now be read from a handle on. -/
  readable : ω → Handle → ByteStream
  /-- Goes behind the next octets, as many as are asked for. -/
  advance : ω → Handle → Nat → Handle × ω
  /-- Makes a file hold the given octets and nothing else. -/
  writeFile : ω → Text → Bytes → Except SysError ω
  /-- Makes a directory the working directory. -/
  enter : ω → Text → Except SysError ω
  workingDirectory : ω → Except SysError Text
  /-- Starts a program and waits until it has ended. -/
  launch : ω → Launch → Except SysError (ChildReport × ω)
  /-- The signal that has ended the shell's own process, if one has. -/
  killer? : ω → Option Nat

/-- What a file holds, and the state in which it has been read; or why it cannot be opened. -/
def Machine.readFile {ω : Type} (m : Machine ω) (w : ω) (path : Text) :
    Except SysError (ByteStream × ω) :=
  (m.openFile w path).map fun handle =>
    let found := m.readable w handle
    (found, (m.advance w handle found.bytes.length).2)

end LineShell
