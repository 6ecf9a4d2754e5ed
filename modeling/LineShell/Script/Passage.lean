import LineShell.Script.Grammar
import LineShell.Script.Intrinsic
import LineShell.Script.Redirection

/-!
# Running a text

A text is read up to the end of a line, which is run before anything behind it is read. A file is read
in blocks, as many as it takes to get to the end of the line, so that what a command adds to the file
that it stands in, or takes away from it, is seen if it is not in a block that has been read.

* `Situation`, `Runner` : what runs commands;
* `Origin`, `Running` : where a text comes from, and how far it has been read;
* `Run.text`, `Run.file` : runs a text line by line;
* `Run.takeSignals` : does what is to be done at signals.
-/

namespace LineShell.Script

/-- How a command is run. -/
structure Situation where
  /-- Whether its failure is looked at, so that it does not end the process. -/
  isTested : Bool
  /-- Whether nothing is run behind it, so that a program it starts takes the process over. -/
  isLast : Bool
  deriving DecidableEq, Repr

abbrev Runner := Situation → Command → Eval Unit

/-- Where a text to run comes from. -/
inductive Origin where
  /-- From an argument or a variable. -/
  | value
  /-- From what the descriptor zero leads to at the time. -/
  | input
  /-- From an opened file. -/
  | file (id : Nat)
  deriving DecidableEq, Repr

/-- A text that is being run. -/
structure Running where
  input : Input
  /-- Whether nothing more comes behind what has been read. -/
  isWhole : Bool

namespace Run

open Eval

/-! ## Reading -/

/-- How many octets are read at a time. -/
def blockSize : Nat := 8192

/-- Reads the next block of an opened file; none at its end. NULs are left out. -/
def block? (id : Nat) : Eval (Option Text) := do
  match ← readThrough false id blockSize with
  | .error _ | .ok [] => return none
  | .ok block => return some ((Text.ofOctets block).filter (· != '\x00'))

/-- Reads the next block of a text; none at its end. -/
def more? (origin : Origin) : Eval (Option Text) := do
  let id ← match origin with
    | .value => pure none
    | .input => descriptor? 0
    | .file id => pure (some id)
  match id with
  | some id => block? id
  | none => return none

/-- Shows the lines that have been read, where that is asked for. -/
def showLines (origin : Origin) (before after : Input) : Eval Unit := do
  if origin != .value && (← hasOption 'v') then
    let behind := before.rest.drop (before.rest.length - before.left)
    let read := behind.take (before.left - after.left)
    let isOpen := !read.getLast?.all (· == '\n')
    let line := if isOpen then (behind.drop read.length).takeWhile (· != '\n') ++ ['\n'] else []
    writeTo 2 (read ++ line)

/-- What a reader has made of a text. -/
abbrev Outcome := EStateM.Result Text Input Passage

/-- Whether more of the text may have to be read for an outcome. -/
def isShort : Outcome → Bool
  | .ok _ i | .error _ i => i.sawEnd

/-- What the text has up to the end of the line, with as much of it as it takes to say so. -/
def passage (origin : Origin) : Nat → Running → Eval (Running × Outcome)
  | 0, r => return (r, .ok .finish r.input)
  | n + 1, r => do
    let aliases := (← get).aliases
    let outcome := Reader.line { r.input with aliases, sawEnd := false }
    if r.isWhole || !isShort outcome then return (r, outcome)
    else match ← more? origin with
      | some t => passage origin n { r with input := r.input.append t }
      | none => passage origin n { r with isWhole := true }

/-! ## Running -/

/-- How many blocks or lines a text may have that can grow while it is run. -/
def maxLines : Nat := 1000000000

/-- Runs a text line by line, and tells whether there was anything to run. -/
def linesFrom (run : Runner) (origin : Origin) : Nat → Bool → Running → Eval Bool
  | 0, found, _ => return found
  | n + 1, found, r => do
    let (r, outcome) ← passage origin maxLines r
    match outcome with
    | .error message i => do
      showLines origin r.input i
      modify ({ · with line := i.line })
      fail ("Syntax error: ".toList ++ message)
    | .ok .finish _ => return found
    | .ok .blank i => do
      showLines origin r.input i
      linesFrom run origin n found { r with input := i }
    | .ok (.commands c) i => do
      showLines origin r.input i
      modify fun p => { p with reached := i.line, area := p.area.cleared }
      run ⟨false, false⟩ c
      linesFrom run origin n true { r with input := i }

/-- Runs a text line by line. One without commands has status zero. -/
def lines (run : Runner) (origin : Origin) (r : Running) : Eval Unit := do
  let reached := (← get).reached
  let found ← always (linesFrom run origin maxLines false r) (modify ({ · with reached }))
  if !found then setStatus 0

def text (run : Runner) (t : Text) : Eval Unit := lines run .value ⟨Input.ofText t [], true⟩

/-- Runs what can be read from somewhere. -/
def file (run : Runner) (origin : Origin) : Eval Unit := lines run origin ⟨Input.ofText [] [], false⟩

/-- Does what is to be done at a signal. The status is then as it was, unless it is given anew. -/
def takeSignal (run : Runner) (action : Text) : Eval Unit := do
  let p ← get
  let status := p.statusBefore.getD p.status
  modify ({ · with statusBefore := some status })
  let restore := modify ({ · with statusBefore := p.statusBefore })
  try text run action catch
    | .return true => do
      restore
      throw (.return true)
    | .leave n goesOn => do
      restore
      setStatus status
      throw (.leave n goesOn)
    | .return false => do
      restore
      setStatus status
      throw (.return false)
    | e => throw e
  restore
  setStatus status

/-- Does what is to be done at the signals that have come, at those of least number first. -/
def takeSignals (run : Runner) : Nat → Eval Unit
  | 0 => return
  | n + 1 => do
    let p ← get
    match p.pending.min? with
    | none => return
    | some signal => do
      modify ({ · with pending := p.pending.filter (· != signal) })
      if let some action := p.traps.lookup signal then takeSignal run action
      takeSignals run n

end Run

end LineShell.Script
