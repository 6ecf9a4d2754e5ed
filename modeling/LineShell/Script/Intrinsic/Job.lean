import LineShell.Script.Intrinsic.Argument

/-!
# Processes and signals

* `Intrinsic.vacate` : the number of a new job;
* `Intrinsic.reap` : the status of a child that has ended;
* `Intrinsic.kill`, `trap` : signals;
* `Intrinsic.wait`, `listJobs`, `takeUp` : jobs.
-/

namespace LineShell.Script.Intrinsic

open Eval

/-! ## Jobs -/

/-- Makes room for a new job, and gives its number: the least one that no job has, or one that has been
waited for. -/
def vacate : Eval Nat := modifyGet fun p =>
  let isTaken := fun (n : Nat) => p.jobs.any fun job => job.place == n && !job.isGone
  let place := ((List.range (p.jobs.length + 1)).map (· + 1)).find? (!isTaken ·)
  let place := place.getD 1
  (place, { p with jobs := p.jobs.filter (·.place != place) })

/-- Changes the jobs that are meant. -/
def changeJobs (isMeant : Job → Bool) (f : Job → Job) : Eval Unit := modify fun p =>
  { p with jobs := p.jobs.map fun job => if isMeant job then f job else job }

/-- The complaint about a job, which the argument names. -/
def failJob {α : Type} (before : String) (t : Text) (behind : String) : Eval α :=
  fail (before.toList ++ t ++ behind.toList)

/-- The job that an argument names; the current one, started last, without one. No job has a text of its
own, so that it can be named by. -/
def job (t : Option Text) : Eval Job := do
  let jobs := (← get).jobs
  let orFail := fun (message : String) (found : Option Job) => match found with
    | some job => pure job
    | none => fail message.toList
  let name := t.getD []
  match t, name with
  | none, _ | _, ['%'] | _, ['%', '%'] | _, ['%', '+'] => orFail "No current job" jobs.head?
  | _, ['%', '-'] => orFail "No previous job" jobs.tail.head?
  | _, '%' :: rest =>
    let n := Text.digitsValue rest
    match rest, jobs.find? fun job => rest.all Text.isDigit && job.place == n with
    | _, some job => return job
    | ['?'], none =>
      match jobs with
      | [job] => return job
      | [] => failJob "No such job: " name ""
      | _ => failJob "" name ": ambiguous"
    | _, none => failJob "No such job: " name ""
  | _, _ => failJob "No such job: " name ""

/-! ## Children -/

/-- Tells how a child has ended if a signal has ended it, and gives its status. -/
def announce (ending : LineShell.Ending) : Eval Nat := do
  match ending with
  | .exited code => return code
  | .killed signal =>
    if signal != Signal.interrupt && signal != Signal.brokenPipe then
      writeTo 2 (Signal.description signal ++ ['\n'])
    return 128 + signal

/-- Takes a child's status for the process's own; a signal that has ended it is told. -/
def reap (ending : LineShell.Ending) : Eval Unit := do setStatus (← announce ending)

/-- Takes note of the jobs that have ended. -/
def noteJobs : Eval Unit := modify fun p =>
  { p with jobs := p.jobs.map fun job => { job with isOver := (job.ending? p.system).isSome } }

/-- Waits for the end of a child, and takes its status for the process's own. -/
def reapEnd (pid : Nat) : Eval Unit := do
  reap (← awaitEnd pid)
  noteJobs

/-- The status of a process that has ended in some way. -/
def statusAfter : LineShell.Ending → Nat
  | .exited code => code
  | .killed signal => 128 + signal

/-- The status of a process that has been stirred while it waited. -/
def stirredStatus : Eval Nat := return 128 + (← get).pending.getLast?.getD 0

/-- Waits for jobs, and gives the status of the last one that there is; `status` if there is none. -/
def waitFor (status : Nat) : List Text → Eval Nat
  | [] => return status
  | t :: rest => do
    let found ← if t.head? == some '%' then some <$> job (some t) else do
      let n ← number t
      pure ((← get).jobs.find? (·.pid == n))
    match found with
    | none => waitFor status rest
    | some job =>
      match ← await true job.ending? with
      | none => stirredStatus
      | some ending => do
        let status ← if job.isOver then pure (statusAfter ending) else announce ending
        noteJobs
        changeJobs (·.pid == job.pid) ({ · with isGone := true })
        waitFor status rest

/-- `wait [JOB...]` -/
def wait (args : List Text) : Eval Unit := do
  let (_, args) ← options "" args
  if args.isEmpty then
    let jobs := (← get).jobs
    match ← await true fun s => if jobs.all (·.ending? s |>.isSome) then some () else none with
    | none => setStatus (← stirredStatus)
    | some _ => do
      noteJobs
      changeJobs (fun _ => true) ({ · with isGone := true })
      setStatus 0
  else setStatus (← waitFor 127 args)

/-- How a job is doing. -/
def stateText : Option LineShell.Ending → Text
  | none => "Running".toList
  | some (.exited 0) => "Done".toList
  | some (.exited n) => "Done(".toList ++ Text.ofNat n ++ [')']
  | some (.killed signal) => Signal.description signal

/-- How wide the list of jobs is in front of their texts. -/
def jobWidth : Nat := 33

/-- Shows a job, which is forgotten if it has ended. -/
def showJob (onlyPid withPid : Bool) (job : Job) : Eval Unit := do
  if onlyPid then putLine (Text.ofNat job.pid)
  else
    let jobs := (← get).jobs
    let mark := if (jobs.head?.map (·.pid)) == some job.pid then '+'
      else if (jobs.tail.head?.map (·.pid)) == some job.pid then '-' else ' '
    let pid := if withPid then Text.ofNat job.pid ++ [' '] else []
    let ending := job.ending? (← get).system
    let t := '[' :: Text.ofNat job.place ++ "] ".toList ++ mark :: ' ' :: pid ++ stateText ending
    let pipes := if withPid then [] else (List.replicate (job.pids.length - 1) " | ".toList).flatten
    putLine (t ++ List.replicate (jobWidth - t.length) ' ' ++ pipes)
    if ending.isSome then modify fun p => { p with jobs := p.jobs.filter (·.pid != job.pid) }

/-- `jobs [-lp] [JOB...]` -/
def listJobs (args : List Text) : Eval Unit := do
  let (os, names) ← options "lp" args
  let last := os.getLast?.map (·.1)
  let shown := showJob (last == some 'p') (last == some 'l')
  noteJobs
  if names.isEmpty then (← get).jobs.forM shown
  for name in names do shown (← job (some name))
  setStatus 0

/-- `fg [JOB...]` and `bg [JOB...]` : no job can be taken up, for none is under control. -/
def takeUp (args : List Text) : Eval Unit := do
  let (_, names) ← options "" args
  let name := names.head?
  discard <| job name
  failJob "job " (name.getD "(null)".toList) " not created under job control"

/-! ## Signals -/

/-- The number of the process that all others come from, which takes no signal. -/
def firstPid : Nat := 1

/-- Sends a signal to a process, and tells whether there is such a process. -/
def send (signal target : Nat) : Eval Bool := do
  let p ← get
  if target = p.id then
    take signal
    return true
  else if p.system.isAlive target then
    modify ({ · with system := p.system.send target signal })
    return true
  else return target = firstPid || p.jobs.any fun job => job.pids.contains target && !job.isOver

/-- The complaint about arguments of `kill` that make no sense. -/
def failKill {α : Type} : Eval α :=
  fail ("Usage: kill [-s sigspec | -signum | -sigspec] [pid | job]... or\n".toList ++
    "kill -l [exitstatus]".toList)

/-- Lists the names of signals. -/
def listSignals : List Text → Eval Unit
  | [] => do
    putLine ['0']
    for name in Signal.names.tail do putLine name
    setStatus 0
  | t :: _ => do
    let n ← number t
    let n := if n > 128 then n - 128 else n
    if 0 < n && n < Signal.names.length then
      putLine (Signal.name n)
      setStatus 0
    else fail ("invalid signal number or exit status: ".toList ++ t)

/-- The signal that the arguments of `kill` name, none if they ask for a list, and the other arguments. -/
def signalOf (args : List Text) : Eval (Option Nat × List Text) := do
  match args with
  | ('-' :: t) :: rest =>
    match Signal.ofText? 1 t with
    | some n => return (some n, rest)
    | none => do
      let (os, rest) ← options "ls:" args
      if given os 'l' then return (none, rest)
      match os.lookup 's' with
      | some t => match Signal.ofText? 1 t with
        | some n => return (some n, rest)
        | none => fail ("invalid signal number or name: ".toList ++ t)
      | none => return (some Signal.terminate, rest)
  | args => return (some Signal.terminate, args)

/-- `kill [-SIGNAL] PID...` : a job is no group of processes that could be sent a signal. -/
def kill (args : List Text) : Eval Unit := do
  if args.isEmpty then failKill
  match ← signalOf args with
  | (none, rest) => listSignals rest
  | (some _, []) => failKill
  | (some signal, targets) => do
    setStatus 0
    for target in targets do
      let isGroup := ['%', '-'].contains (target.headD ' ')
      let n ← if target.head? == some '%' then pure (← job (some target)).pid
        else number (if isGroup then target.tail else target)
      let isSent ← if isGroup then pure false else send signal n
      if !isSent then
        complain "No such process\n".toList
        setStatus 1

/-- Has something done at signals, up to the first one that is none. -/
def setTraps (action : Text) : List Text → Eval Unit
  | [] => setStatus 0
  | t :: rest => do
    match Signal.ofText? 0 t with
    | none => do
      writeTo 2 ("trap: ".toList ++ t ++ ": bad trap\n".toList)
      setStatus 1
    | some signal => do
      modify fun p =>
        let others := p.traps.filter (·.1 != signal)
        { p with traps := if action == ['-'] then others else (signal, action) :: others }
      setTraps action rest

/-- `trap [ACTION] SIGNAL...` -/
def trap (args : List Text) : Eval Unit := do
  let (_, args) ← options "" args
  match args with
  | [] =>
    let p ← get
    for (signal, action) in p.traps.mergeSort (fun a b => a.1 ≤ b.1) do
      putLine ("trap -- ".toList ++ quote action ++ ' ' :: Signal.name signal)
    setStatus 0
  | args =>
    let (action, signals) := match args with
      | [signal] => (['-'], [signal])
      | action :: signals => (action, signals)
      | [] => ([], [])
    setTraps action signals

end LineShell.Script.Intrinsic
