import LineShell.Host.Program

/-!
# What processes share

Processes see one file tree and one record of what was written. An opened file is known by its number;
several descriptors, of several processes, can lead to it. A pipe has a number of its own, and it is
open to readers and writers as long as a process holds an opened file of that kind.

* `Pipe`, `Target`, `Opened` : what was opened, and how far it has been read or written;
* `System` : the whole;
* `System.write`, `read` : through an opened file, as much as can be done at once;
* `System.isDry`, `isFull` : whether a reader or a writer has to wait;
* `System.hold`, `finish` : the processes that there are, and how the others have ended.
-/

namespace LineShell.Script

open Host

/-- Octets on their way from writers to readers. -/
structure Pipe where
  /-- The octets that come first. -/
  front : Bytes := []
  /-- What was written behind them, the last piece first. -/
  behind : List Bytes := []
  size : Nat := 0
  deriving DecidableEq, Repr

namespace Pipe

def ofBytes (bytes : Bytes) : Pipe := { front := bytes, size := bytes.length }

def bytes (p : Pipe) : Bytes :=
  if p.behind.isEmpty then p.front else p.front ++ p.behind.reverse.flatten

/-- The pipe with more octets at its end. -/
def put (p : Pipe) (bytes : Bytes) : Pipe :=
  { p with behind := bytes :: p.behind, size := p.size + bytes.length }

def drop (p : Pipe) (n : Nat) : Pipe := { front := p.bytes.drop n, size := p.size - n }

def capacity : Nat := 65536

def room (p : Pipe) : Nat := capacity - p.size

end Pipe

/-- What an opened file stands for. -/
inductive Target where
  /-- A stream of the process that started first. -/
  | stream (s : Stream)
  | node (id : Nat)
  | pipe (id : Nat)
  deriving DecidableEq, Repr

structure Opened where
  target : Target
  reads : Bool
  writes : Bool
  /-- Whether everything is written behind what the file then holds. -/
  appends : Bool := false
  /-- How many octets are behind. -/
  offset : Nat := 0
  deriving DecidableEq, Repr

namespace Target

def toRead (t : Target) : Opened := { target := t, reads := true, writes := false }

def toWrite (t : Target) : Opened := { target := t, reads := false, writes := true }

end Target

/-- What processes share. -/
structure System where
  tree : FileTree
  pipes : Array Pipe
  opened : Array Opened
  /-- What was written to the streams, last first. -/
  written : List (Stream × Bytes) := []
  /-- Whether what is written to the streams goes to files. -/
  isFiled : Bool
  /-- The processes, each with the opened files that it holds when others go on. -/
  processes : List (Nat × List Nat)
  /-- How processes have ended. -/
  ended : List (Nat × Ending) := []
  /-- The number of the youngest process. -/
  lastPid : Nat
  /-- The signals that processes have not taken yet, each with the number of the one it is for. -/
  sent : List (Nat × Nat) := []
  /-- How many commands have been run. -/
  steps : Nat := 0

namespace System

/-! ## Opened files -/

/-- One more opened file, and its number. -/
def push (s : System) (o : Opened) : Nat × System :=
  (s.opened.size, { s with opened := s.opened.push o })

/-- One more pipe that holds some octets, and its number. -/
def pushPipe (s : System) (bytes : Bytes) : Nat × System :=
  (s.pipes.size, { s with pipes := s.pipes.push (.ofBytes bytes) })

def setOpened (s : System) (id : Nat) (o : Opened) : System :=
  { s with opened := s.opened.setIfInBounds id o }

def changePipe (s : System) (id : Nat) (f : Pipe → Pipe) : System :=
  { s with pipes := s.pipes.modify id f }

def pipe? (s : System) (id : Nat) : Option (Nat × Pipe) :=
  match s.opened[id]? with
  | some { target := .pipe k, .. } => s.pipes[k]?.map fun p => (k, p)
  | _ => none

/-- Whether a process holds an opened file of a kind. -/
def isHeld (s : System) (isMeant : Opened → Bool) : Bool :=
  s.processes.any fun (_, ids) => ids.any fun id => s.opened[id]?.any isMeant

def hasWriter (s : System) (pipe : Nat) : Bool := s.isHeld fun o => o.writes && o.target == .pipe pipe

def hasReader (s : System) (pipe : Nat) : Bool := s.isHeld fun o => o.reads && o.target == .pipe pipe

def isWritten (s : System) (node : Nat) : Bool := s.isHeld fun o => o.writes && o.target == .node node

/-- Whether there is nothing to be read through an opened file as yet. -/
def isDry (s : System) (id : Nat) : Bool :=
  match s.pipe? id with
  | some (k, p) => p.size = 0 && s.hasWriter k
  | none => false

/-- Whether nothing can be written through an opened file as yet. -/
def isFull (s : System) (id : Nat) : Bool :=
  match s.pipe? id with
  | some (k, p) => p.room = 0 && s.hasReader k
  | none => false

/-! ## Writing -/

/-- Some octets with others put over them from `offset` on; what is missing before is zero. -/
def overwrite (old : Bytes) (offset : Nat) (new : Bytes) : Bytes :=
  old.take offset ++ List.replicate (offset - old.length) 0 ++ new ++ old.drop (offset + new.length)

/-- How many octets a stream has been written. -/
def streamSize (s : System) (stream : Stream) : Nat :=
  ((s.written.filter (·.1 == stream)).map (·.2.length)).foldl Nat.add 0

/-- The first of some octets to be written at an offset, as many as a limit on the size of files lets
through, and what the others come to. -/
def fitting (limit : Option Nat) (offset : Nat) (bytes : Bytes) : Bytes × Option SysError :=
  match limit with
  | none => (bytes, none)
  | some n =>
    if offset + bytes.length ≤ n then (bytes, none) else (bytes.take (n - offset), some .fileTooLarge)

/-- Writes octets through an opened file, as many as can be written at once: the octets that are left,
and what has gone wrong. Files are written up to the size `limit`. -/
def write (s : System) (limit : Option Nat) (id : Nat) (bytes : Bytes) :
    System × Bytes × Option SysError :=
  match s.opened[id]? with
  | none => (s, bytes, some .badDescriptor)
  | some o =>
    if !o.writes then (s, bytes, some .badDescriptor)
    else if bytes.isEmpty then (s, [], none)
    else match o.target with
      | .stream stream =>
        let (now, failure) :=
          if s.isFiled then fitting limit (s.streamSize stream) bytes else (bytes, none)
        let s := if now.isEmpty then s else { s with written := (stream, now) :: s.written }
        (s, bytes.drop now.length, failure)
      | .pipe k =>
        if !s.hasReader k then (s, bytes, some .brokenPipe)
        else
          let now := bytes.take (s.pipes[k]?.map (·.room) |>.getD 0)
          (s.changePipe k (·.put now), bytes.drop now.length, none)
      | .node node =>
        match s.tree.node? node with
        | some (.device .full) => (s, bytes, some .noSpace)
        | some (.file _ old) =>
          let offset := if o.appends then old.length else o.offset
          let (now, failure) := fitting limit offset bytes
          let s := s.setOpened id { o with offset := offset + now.length }
          let tree := if now.isEmpty then s.tree else s.tree.setBytes node (overwrite old offset now)
          ({ s with tree }, bytes.drop now.length, failure)
        | _ => (s, [], none)

/-! ## Reading -/

/-- What can be read through an opened file at once. -/
def readable (s : System) (id : Nat) : Except SysError Bytes :=
  match s.opened[id]? with
  | none => .error .badDescriptor
  | some o =>
    if !o.reads then .error .badDescriptor
    else match o.target with
      | .stream _ => .error .badDescriptor
      | .pipe k => .ok (s.pipes[k]?.map (·.bytes) |>.getD [])
      | .node node =>
        match s.tree.node? node with
        | some (.directory ..) => .error .isDirectory
        | _ => .ok ((s.tree.bytesOf node).drop o.offset)

/-- The system in which the next `n` octets have been read through an opened file. -/
def advance (s : System) (id n : Nat) : System :=
  match s.opened[id]? with
  | none => s
  | some o => match o.target with
    | .pipe k => s.changePipe k (·.drop n)
    | _ => s.setOpened id { o with offset := o.offset + n }

/-- Reads at most `n` octets: none at the end. -/
def read (s : System) (id n : Nat) : Except SysError (Bytes × System) :=
  (s.readable id).map fun bytes =>
    let now := bytes.take n
    (now, s.advance id now.length)

/-! ## Processes -/

/-- Whether there is a process of a number. -/
def isAlive (s : System) (pid : Nat) : Bool := s.processes.any (·.1 == pid)

/-- The system in which a process holds some opened files. -/
def hold (s : System) (pid : Nat) (ids : List Nat) : System :=
  { s with processes :=
      if s.isAlive pid then s.processes.map fun q => if q.1 == pid then (pid, ids) else q
      else s.processes ++ [(pid, ids)] }

/-- The system in which a process has ended. -/
def finish (s : System) (pid : Nat) (ending : Ending) : System :=
  { s with
    processes := s.processes.filter (·.1 != pid)
    sent := s.sent.filter (·.1 != pid)
    ended := (pid, ending) :: s.ended }

def ending? (s : System) (pid : Nat) : Option Ending := s.ended.lookup pid

/-- Sends a signal to a process, if there is one of that number. -/
def send (s : System) (pid signal : Nat) : System :=
  if s.isAlive pid then { s with sent := s.sent ++ [(pid, signal)] } else s

/-- Whether a signal has been sent to a process that has not taken it. -/
def hasSignal (s : System) (pid : Nat) : Bool := s.sent.any (·.1 == pid)

end System

end LineShell.Script
