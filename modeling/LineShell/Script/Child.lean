import LineShell.Script.Passage

/-!
# Children

Processes that a process starts: copies of itself, and programs.

* `Run.live` : all that a process does, given what is done in it first;
* `Run.inCopy` : starts a copy of the process that does something;
* `Run.outputOf` : what a command writes, as it is put into a word;
* `Run.startTool` : starts a tool as a process of its own;
* `Run.becomeTool` : has the process run a tool from here on.
-/

namespace LineShell.Script

open Host

namespace Run

open Eval

/-! ## Ends -/

/-- The end of a process, of which the one that has started it is told. -/
def finished (ending : Ending) (p : Process) : Task :=
  .ended ((p.system.finish p.id ending).send p.parent Signal.childEnded)

/-- The end of a process with a status. -/
def exits (status : Nat) (p : Process) : Task := finished (.exited (status % 256)) p

/-- All that a process does, given what is done in it first. It does what it has been told to do at its
end, unless a signal ends it. -/
def live (run : Runner) (body : Eval Unit) (p : Process) : Task :=
  conclude body p fun stop q =>
    match stop, q.traps.lookup 0 with
    | some (.killed signal), _ => finished (.killed signal) q
    | _, none => exits q.status q
    | _, some action =>
      let last := { q with
        traps := q.traps.filter (·.1 ≠ 0), within := none, statusBefore := some q.status }
      conclude (text run action) last fun stop r =>
        match stop with
        | some (.killed signal) => finished (.killed signal) r
        | some .exit | some .failed => exits r.status r
        | _ => exits q.status r

/-! ## Copies -/

/-- Starts a copy of the process, changed as `f` says, that does something. -/
def inCopy (run : Runner) (f : Process → Process) (body : Eval Unit) : Eval Nat := fork f (live run body)

/-- All that is still to be read through an opened file, behind `done`. -/
def collectFrom (id : Nat) : Nat → List Bytes → Eval Bytes
  | 0, done => return done.reverse.flatten
  | n + 1, done => do
    match ← readThrough false id blockSize with
    | .error _ | .ok [] => return done.reverse.flatten
    | .ok bytes => collectFrom id n (bytes :: done)

/-- Runs a command in a copy of the process, and gives what it writes less the newlines at its end. -/
def outputOf (run : Runner) (c : Command) : Eval Text := do
  discard Intrinsic.vacate
  let (source, sink) ← openPipe []
  let pid ← inCopy run (·.withDescriptor 1 (some sink)) (run ⟨false, true⟩ c)
  let p ← get
  modify ({ · with aside := source :: p.aside })
  let bytes ← always (collectFrom source maxLines []) (modify ({ · with aside := p.aside }))
  Intrinsic.reapEnd pid
  modify fun q => { q with outputStatus := q.status, status := p.status }
  let t := (Text.ofOctets bytes).filter (· != '\x00')
  return (t.reverse.dropWhile (· == '\n')).reverse

/-! ## Variables of a program -/

/-- The search path of a process that is handed none. -/
def standardPath : Text := "/usr/local/sbin:/usr/local/bin:/usr/sbin:/usr/bin:/sbin:/bin".toList

/-- The variables that every process has, whatever it is handed. -/
def usualVars : List (Text × Text) :=
  [("PATH".toList, standardPath), ("PS1".toList, "# ".toList), ("PS2".toList, "> ".toList),
    ("PS4".toList, "+ ".toList), ("OPTIND".toList, ['1'])]

/-- The variables that have their value anew in every process. -/
def ownVars (parent : Nat) : List (Text × Text) :=
  [("IFS".toList, Mark.blanks), ("PPID".toList, Text.ofNat parent)]

/-- The variables of a process that is handed some. -/
def initialVars (handed : List (Text × Text)) (parent : Nat) : List Var :=
  let own := ownVars parent
  let handed := handed.filter fun v => isName v.1
  let values := own ++ handed.reverse ++ usualVars
  let names := (values.map (·.1)).eraseDups
  names.map fun name => ⟨name, values.lookup name, (handed.lookup name).isSome, false⟩

/-! ## Programs -/

/-- The process in which a program is run that a process has become, with some variables. The signals that
it has held off are held off from the program as well. -/
def afresh (vars : List (Text × Text)) (p : Process) : Process :=
  { system := p.system
    vars := initialVars vars p.parent
    fds := p.fds
    cwd := p.cwd
    id := p.id
    pid := p.id
    parent := p.parent
    ignored := p.ignored ++ (p.traps.filter fun t => t.1 ≠ 0 && t.2.isEmpty).map (·.1)
    mask := p.mask
    limits := p.limits }

/-- Finds out where the process is: the variable `PWD` is believed if it leads there. -/
def findDirectory : Eval Unit := do
  let p ← get
  let given ← valueD "PWD"
  let leadsHere := Path.isAbsolute given &&
    (p.system.tree.findDirectory p.cwd given).toOption == some p.cwd
  let dir ← if leadsHere then pure given else
    match p.system.tree.pathOf? p.cwd with
    | some path => pure path
    | none => do
      complain ("getcwd() failed: ".toList ++ SysError.notFound.text)
      pure []
  modify ({ · with dir })
  setExported "PWD" dir

/-- The descriptor through which a file of commands is opened. -/
def textDescriptor : Nat := 10

/-- Opens a file of commands. -/
def openText (path : Text) : Eval Origin := do
  withDescriptors do
    Ready.openToRead textDescriptor path
    match ← descriptor? textDescriptor with
    | some id => return .file id
    | none => return .value

/-- Does something that may give up before its end. -/
def untilReturn (body : Eval Unit) : Eval Unit :=
  try body catch
    | .return _ => return
    | e => throw e

/-- Runs a file of commands if there is one that can be read. -/
def profile (run : Runner) (path : Text) : Eval Unit := do
  let p ← get
  if (p.system.tree.findReadable p.cwd path).toOption.isSome then
    untilReturn (file run (← openText path))

/-- The commands that every session begins with. -/
def commonProfile : Text := "/etc/profile".toList

/-- What a process does that runs a program text: its arguments say which. One that begins a session, as its
name can say too, runs the profiles first. -/
def readAndRun (run : Runner) (args : List Text) : Eval Unit := do
  findDirectory
  let name := args.headD []
  modify ({ · with name })
  let (found, rest) ← Intrinsic.setOptions ['c', 'l'] (args.length + 1) [] args.tail
  let isCommand := found.contains 'c'
  let rest := rest.getD []
  if rest.isEmpty then
    if isCommand then fail "-c requires an argument".toList
    Intrinsic.setOption true 's'
  let readsInput ← hasOption 's'
  let origin ← match rest, isCommand || readsInput with
    | path :: _, false => openText path
    | _, _ => pure .input
  let named := if isCommand then rest.tail else if readsInput then [] else rest
  modify ({ · with
    name := named.headD name
    args := if !isCommand && readsInput then rest else named.tail })
  Intrinsic.missTerminal
  if name.head? == some '-' || found.contains 'l' then
    profile run commonProfile
    profile run (Path.join (← valueD "HOME") ".profile".toList)
  if isCommand then text run (rest.headD [])
  if readsInput || !isCommand then file run origin

/-- Starts the variable `OPTIND` anew; what the process was handed in it has to be a number. -/
def startGetopts : Eval Unit := do
  discard <| number (← valueD "OPTIND")
  setVar "OPTIND".toList ['1']

/-- Writes the output of a tool, which complains under its name if that cannot be done. -/
def putOutput (name t : Text) : Eval Unit := do
  match ← if t.isEmpty then pure none else tryWrite 1 t with
  | some e => do
    writeTo 2 (name ++ ": write error: ".toList ++ e.text ++ ['\n'])
    setStatus 1
  | none => setStatus 0

/-- What a process does that runs a tool. -/
def work (run : Runner) (args : List Text) : Tool → Eval Unit
  | .shell => do
    startGetopts
    readAndRun run args
  | .echo => do
    let isStrict := (← value? "POSIXLY_CORRECT".toList).isSome
    putOutput (args.headD []) (plainEcho isStrict args.tail)
  | .succeed => setStatus 0
  | .fail => setStatus 1

/-- Starts a tool as a process of its own. -/
def startTool (run : Runner) (tool : Tool) (args : List Text) : Eval Nat := do
  discard Intrinsic.vacate
  fork (afresh (← exports)) (live run (work run args tool))

/-- Has the process run a tool from here on. -/
def becomeTool {α : Type} (run : Runner) (tool : Tool) (args : List Text) : Eval α := do
  let vars ← exports
  become fun p => live run (work run args tool) (afresh vars p)

end Run

end LineShell.Script
