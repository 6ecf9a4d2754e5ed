import LineShell.Script.Process
import LineShell.Script.Signal
import LineShell.Script.Task
import LineShell.Script.Test

/-!
# What is done in a process

Something that is done in a process knows what is done behind it, be it that it comes to its end or
that it stops the process. So it can leave off where others have to go on first.

* `Eval` : what is done in a process;
* `Eval.always` : something that is done at the end, come what may;
* `Eval.pause`, `await`, `fork` : what others have to do with it;
* `Eval.take`, `receive` : what signals do;
* `Eval.complain`, `fail` : messages, and messages that also stop the process.
-/

namespace LineShell.Script

open Host

/-- What is done in a process, given what is done behind it and what is done if it stops the process. -/
def Eval (α : Type) : Type := Process → (α → Process → Task) → (Stop → Process → Task) → Task

namespace Eval

instance : Monad Eval where
  pure a := fun p next _ => next a p
  bind x f := fun p next stop => x p (fun a q => f a q next stop) stop

instance : MonadStateOf Process Eval where
  get := fun p next _ => next p p
  set q := fun _ next _ => next ⟨⟩ q
  modifyGet f := fun p next _ => let (a, q) := f p; next a q

instance : MonadExceptOf Stop Eval where
  throw e := fun p _ stop => stop e p
  tryCatch x handle := fun p next stop => x p next fun e q => handle e q next stop

/-- Does `last` after `body`, come what may. -/
def always {α : Type} (body : Eval α) (last : Eval Unit) : Eval α := fun p next stop =>
  body p (fun a q => last q (fun _ => next a) stop) fun e q => last q (fun _ => stop e) stop

/-- Does something in a process, and what is done behind it whether or not it stops the process. -/
def conclude {α : Type} (body : Eval α) (p : Process) (behind : Option Stop → Process → Task) : Task :=
  body p (fun _ => behind none) fun e => behind (some e)

/-- Does something else instead of all that is done behind it. -/
def become {α : Type} (rest : Process → Task) : Eval α := fun p _ _ => rest p

def setStatus (n : Nat) : Eval Unit := modify ({ · with status := n })

/-- The status of a truth. -/
def setTruth (b : Bool) : Eval Unit := setStatus (if b then 0 else 1)

def changeArea (f : WorkArea → WorkArea) : Eval Unit := modify fun p => { p with area := f p.area }

def hasOption (letter : Char) : Eval Bool := return (← get).options.contains letter

/-! ## Signals -/

/-- How the process takes a signal that is sent to it. -/
def take (signal : Nat) : Eval Unit := do
  let p ← get
  if Signal.unstoppable.contains signal then
    if !Signal.harmless.contains signal then throw (.killed signal)
  else if !p.ignored.contains signal then
    match p.traps.lookup signal with
    | some action =>
      if !action.isEmpty then
        modify ({ · with pending := p.pending.filter (· != signal) ++ [signal] })
    | none => if !Signal.harmless.contains signal then throw (.killed signal)

/-- Takes the signals that other processes have sent to this one. -/
def receive : Eval Unit := do
  let p ← get
  let (mine, sent) := p.system.sent.partition (·.1 == p.id)
  if !mine.isEmpty then
    modify ({ · with system := { p.system with sent } })
    for (_, signal) in mine do take signal

/-! ## Other processes -/

/-- Lets others go on until something is the case, or a signal has come. -/
def yield (isReady : System → Bool) : Eval Unit := fun p next _ =>
  .paused p.shown (fun s => isReady s || s.hasSignal p.id) fun s => next () { p with system := s }

/-- Lets others go on until something is the case, and takes the signals that have come. -/
def pause (isReady : System → Bool) : Eval Unit := do
  yield isReady
  receive

def maxPauses : Nat := 1000000000000

/-- Whether something is to be done at a signal, not counting that of the end of a child. -/
def isCalled (p : Process) : Bool := p.pending.any (· != Signal.childEnded)

/-- Waits for something that others do; in vain if something is to be done at a signal and the process
`isStirred` by that. -/
def awaitFrom {α : Type} (isStirred : Bool) (found? : System → Option α) : Nat → Eval (Option α)
  | 0 => return none
  | n + 1 => do
    let p ← get
    if isStirred && isCalled p then return none
    match found? p.system with
    | some a => return some a
    | none =>
      pause fun s => (found? s).isSome
      awaitFrom isStirred found? n

/-- Waits for something that others do. -/
def await {α : Type} (isStirred : Bool) (found? : System → Option α) : Eval (Option α) :=
  awaitFrom isStirred found? maxPauses

def awaitEnd (pid : Nat) : Eval Ending :=
  return (← await false (·.ending? pid)).getD (.exited 0)

/-- Starts a process as a copy of this one, changed as `f` says, and gives its number. -/
def fork (f : Process → Process) (life : Process → Task) : Eval Nat := fun p next _ =>
  let id := p.system.lastPid + 1
  let child := f { p.copied with id, parent := p.id }
  let s := p.shown.hold id child.held
  .forked { s with lastPid := id } (fun s => life { child with system := s }) fun s =>
    next id { p with system := s }

/-! ## Reading and writing -/

def descriptor? (fd : Nat) : Eval (Option Nat) := return (← get).fds.lookup fd

/-- Reads at most `n` octets through an opened file, at least one unless there is none to come, or something
is to be done at a signal and the process `isStirred` by that. -/
def readThrough (isStirred : Bool) (id n : Nat) : Eval (Except SysError Bytes) := do
  match ← await isStirred fun s => if s.isDry id then none else some () with
  | none => return .ok []
  | some _ => modifyGet fun p => match p.system.read id n with
    | .ok (bytes, system) => (.ok bytes, { p with system })
    | .error e => (.error e, p)

/-- The signal that goes with a failure to write. -/
def signalOf? : SysError → Option Nat
  | .brokenPipe => some Signal.brokenPipe
  | .fileTooLarge => some Signal.fileSize
  | _ => none

/-- Writes octets through an opened file in at most so many pieces, and gives what has gone wrong. -/
def writePieces (id : Nat) : Nat → Bytes → Eval (Option SysError)
  | 0, _ => return none
  | n + 1, bytes => do
    let p ← get
    let (system, left, failure) := p.shown.write (p.limits.get Limit.fileSize).soft id bytes
    modify ({ · with system })
    match failure with
    | some e => do
      if let some signal := signalOf? e then take signal
      return some e
    | none =>
      if left.isEmpty then return none
      discard <| await false fun s => if s.isFull id then none else some ()
      writePieces id n left

/-- Writes a text through an opened file, and gives what has gone wrong. -/
def writeThrough (id : Nat) (t : Text) : Eval (Option SysError) :=
  let bytes := Text.toOctets t
  writePieces id (bytes.length + 1) bytes

/-- Writes a text through a descriptor, and gives what has gone wrong. -/
def tryWrite (fd : Nat) (t : Text) : Eval (Option SysError) := do
  match ← descriptor? fd with
  | none => return some .badDescriptor
  | some id => writeThrough id t

/-- Writes a text through a descriptor, as far as that can be done. -/
def writeTo (fd : Nat) (t : Text) : Eval Unit := do discard <| tryWrite fd t

/-- What every complaint begins with. -/
def heading : Eval Text := do
  let p ← get
  let command := match p.within with
    | some c => c ++ ": ".toList
    | none => []
  return p.name ++ ": ".toList ++ Text.ofNat p.line ++ ": ".toList ++ command

def complain (message : Text) : Eval Unit := do
  writeTo 2 ((← heading) ++ message ++ ['\n'])

/-- Complains and stops. -/
def fail {α : Type} (message : Text) : Eval α := do
  complain message
  setStatus 2
  throw .failed

def maxNumber : Nat := 2147483647

/-- The complaint about a number that makes no sense. -/
def failNumber {α : Type} (t : Text) : Eval α := fail ("Illegal number: ".toList ++ t)

/-- The number that an argument stands for. -/
def number (t : Text) : Eval Nat :=
  match testInt t with
  | .ok n => if 0 ≤ n && n ≤ maxNumber then return n.toNat else failNumber t
  | .error _ => failNumber t

def put (t : Text) : Eval Unit := do
  let failure ← if t.isEmpty then pure none else tryWrite 1 t
  if failure.isSome then
    complain ((← get).within.getD [] ++ ": I/O error".toList)
    setStatus 1

def putLine (t : Text) : Eval Unit := put (t ++ ['\n'])

/-! ## Variables -/

def var? (name : Text) : Eval (Option Var) := return (← get).vars.find? (·.name == name)

def value? (name : Text) : Eval (Option Text) := return (← var? name).bind (·.value)

/-- The value of a variable; empty if it has none. -/
def valueD (name : String) : Eval Text := return (← value? name.toList).getD []

/-- Puts a variable in the place of the one of its name. -/
def putVar (v : Var) : Eval Unit := modify fun p =>
  { p with vars :=
      if p.vars.any (·.name == v.name) then p.vars.map fun w => if w.name == v.name then v else w
      else p.vars ++ [v] }

def dropVar (name : Text) : Eval Unit := modify fun p =>
  { p with vars := p.vars.filter (·.name != name) }

/-- The complaint about a variable that cannot be changed. -/
def failFixed {α : Type} (name : Text) : Eval α := fail (name ++ ": is read only".toList)

/-- The complaint about a name that no variable can have. -/
def failName {α : Type} (name : Text) : Eval α := fail (name ++ ": bad variable name".toList)

/-- Changes the variable of a name, which is made if there is none. -/
def changeVar (name : Text) (f : Var → Var) : Eval Unit := do
  if !isName name then failName name
  let v := (← var? name).getD ⟨name, none, false, false⟩
  putVar (f v)

/-- What another value of a variable brings with it: `getopts` starts at the place that `OPTIND` is set to,
and with another `PATH` no place of a program is known any more. -/
def follow (name value : Text) : Eval Unit := do
  if name == "OPTIND".toList then
    let n ← number value
    modify ({ · with progress := ⟨max n 1, none⟩ })
  else if name == "PATH".toList then modify ({ · with tracked := [] })

def setVar (name value : Text) : Eval Unit := do
  if (← var? name).any (·.fixed) then failFixed name
  follow name value
  let all ← hasOption 'a'
  changeVar name fun v => { v with value := some value, exported := v.exported || all }

/-- Takes a variable away. -/
def unsetVar (name : Text) : Eval Unit := do
  if !isName name then failName name
  if (← var? name).any (·.fixed) then failFixed name
  follow name []
  dropVar name

/-- Gives a variable a value that the processes started from here on are handed. -/
def setExported (name : String) (value : Text) : Eval Unit := do
  setVar name.toList value
  changeVar name.toList ({ · with exported := true })

/-- Has something put back when what is under way ends. -/
def keep (k : Kept) : Eval Unit := modify fun p =>
  match p.saved with
  | frame :: frames => { p with saved := (k :: frame) :: frames }
  | [] => p

/-- Has a variable put back when what is under way ends. -/
def keepVar (name : Text) : Eval Unit := do keep (.var name (← var? name))

/-- Puts something back. -/
def putBack : Kept → Eval Unit
  | .var name none => dropVar name
  | .var name (some v) => do
    if let some value := v.value then follow name value
    putVar v
  | .options options => modify ({ · with options })

/-- Does something and then puts back what it has kept. -/
def withFrame {α : Type} (body : Eval α) : Eval α := do
  modify fun p => { p with saved := [] :: p.saved }
  always body do
    let frame := ((← get).saved.headD [])
    modify fun p => { p with saved := p.saved.tail }
    frame.forM putBack

/-- The variables that processes started from here are handed. -/
def exports : Eval (List (Text × Text)) :=
  return (← get).vars.filterMap fun v =>
    match v.exported, v.value with
    | true, some value => some (v.name, value)
    | _, _ => none

/-! ## Files -/

/-- The node that a path leads to. -/
def find (path : Text) : Eval (Except SysError (Nat × Node)) := do
  let p ← get
  return p.system.tree.find p.cwd path

def setTree (tree : FileTree) : Eval Unit := modify fun p => { p with system := { p.system with tree } }

/-- Does something and then has the descriptors lead where they led before. -/
def withDescriptors {α : Type} (body : Eval α) : Eval α := do
  let p ← get
  modify ({ · with aside := p.held })
  always body (modify ({ · with fds := p.fds, aside := p.aside }))

/-- Lets a descriptor lead to an opened file, or nowhere. -/
def setDescriptor (fd : Nat) (id : Option Nat) : Eval Unit := modify (·.withDescriptor fd id)

/-- Opens something, and gives the number of the opened file. -/
def openFile (o : Opened) : Eval Nat :=
  modifyGet fun p =>
    let (id, system) := p.system.push o
    (id, { p with system })

/-- Makes a pipe that holds some octets, and gives the opened files of its two ends. -/
def openPipe (bytes : Bytes) : Eval (Nat × Nat) := do
  let k ← modifyGet fun p =>
    let (k, system) := p.system.pushPipe bytes
    (k, { p with system })
  return (← openFile (Target.pipe k).toRead, ← openFile (Target.pipe k).toWrite)

/-- Opens something, and lets a descriptor lead to it. -/
def openAt (fd : Nat) (o : Opened) : Eval Unit := do setDescriptor fd (some (← openFile o))

end Eval

end LineShell.Script
