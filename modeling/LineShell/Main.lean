import LineShell.CommandLine
import LineShell.Host.Basic

/-!
# The program

Starts the shell on a host that holds copies of the files it may ask for, the script and the history.
The run is `CommandLine.run`; around it this module reads what the run starts from and carries out
what it has done.

* `Program.invocation`, `Program.host` : what the run starts from;
* `Program.carryOut` : what becomes of one event.
-/

namespace LineShell.Program

/-- The octets of a file; none if it cannot be read. -/
def octets? (path : Text) : IO (Option Bytes) := do
  try
    let bytes ← IO.FS.readBinFile (String.ofList path)
    return some bytes.toList
  catch _ => return none

/-- The octet strings of a file in which each one ends with a NUL. -/
def strings (path : String) : IO (List Bytes) := do
  let bytes ← octets? path.toList
  return ((bytes.getD []).splitOnP (· == 0)).filter (· ≠ [])

/-- All that can be read from a stream, behind `done`. -/
partial def readAll (stream : IO.FS.Stream) (done : ByteArray) : IO ByteArray := do
  let bytes ← stream.read 65536
  if bytes.isEmpty then return done else readAll stream (done ++ bytes)

def invocation (args : List String) : IO Invocation := do
  return {
    program := Utf8.decode ((← strings "/proc/self/cmdline").headD [])
    script := Invocation.scriptOf (args.map (·.toList))
    inherited := ← strings "/proc/self/environ" }

/-- What can be read from standard input. A terminal is left alone if there is a script. -/
def input (i : Invocation) : IO Bytes := do
  let stream ← IO.getStdin
  if i.script.isSome && (← stream.isTty) then return []
  return (← readAll stream .empty).toList

/-- A host with a copy of a file in the place that its path names, if the file can be read. -/
def copyIn (h : Host) (path : Text) : IO Host := do
  match ← octets? path with
  | none => return h
  | some bytes => return h.makeFile path Host.FileTree.usualMode bytes

/-- The host at work in the working directory, with the files that the run may ask for. -/
def host (i : Invocation) : IO Host := do
  let here ← IO.currentDir
  let files := i.script.toList ++ (CommandLine.session i).historyPath.toList
  files.foldlM copyIn ((Host.withSandbox here.toString.toList).withInput (← input i))

/-- Octets are written and a saved history goes to its file, which is left alone if it cannot be
written. -/
def carryOut : Event → IO Unit
  | .wrote chunk => do
    let stream ← match chunk.origin.stream with
      | .out => IO.getStdout
      | .err => IO.getStderr
    stream.write ⟨chunk.bytes.toArray⟩
    stream.flush
  | .saved path bytes => do
    try IO.FS.writeBinFile (String.ofList path) ⟨bytes.toArray⟩
    catch _ => return
  | .read _ | .ran .. | .closed => return

end LineShell.Program

open LineShell in
/-- Runs the shell on a script, or on standard input if none is given. -/
def main (args : List String) : IO UInt32 := do
  let i ← Program.invocation args
  let r := CommandLine.run Host.machine (← Program.host i) i
  r.journal.log.forM Program.carryOut
  return r.ending.status.toNat.toUInt32
