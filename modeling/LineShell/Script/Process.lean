import LineShell.Script.Limit
import LineShell.Script.Syntax
import LineShell.Script.System
import LineShell.Script.WorkArea

/-!
# Processes that run a program text

* `Var` : a variable with its properties;
* `Job` : processes started in the background;
* `Tracked` : a program whose place is known;
* `Process` : the state of a process; `Process.copied` : how a copy of it begins;
* `Stop` : why a process leaves what it is doing.
-/

namespace LineShell.Script

open Host

structure Var where
  name : Text
  value : Option Text
  exported : Bool
  fixed : Bool
  deriving DecidableEq, Repr

/-- Something to be put back. -/
inductive Kept where
  | var (name : Text) (old : Option Var)
  | options (letters : Text)
  deriving DecidableEq, Repr

/-- Processes started in the background, each writing to the next one. -/
structure Job where
  /-- The number that it is called by among the jobs. -/
  place : Nat
  pids : List Nat
  /-- Whether it is known to have ended, so that nothing more is told of it. -/
  isOver : Bool := false
  /-- Whether it has been waited for, so that its place can be given away. -/
  isGone : Bool := false

def Job.pid (j : Job) : Nat := j.pids.getLast?.getD 0

/-- How a job has ended, which is how its last process has; none as long as one of them goes on. -/
def Job.ending? (j : Job) (s : System) : Option Ending :=
  if j.pids.all fun pid => (s.ending? pid).isSome then s.ending? j.pid else none

/-- A program that has been found: the place in the search path where it is. -/
structure Tracked where
  name : Text
  place : Nat
  /-- Whether the working directory has changed since, so that a path seen from there may be wrong. -/
  isStale : Bool := false
  deriving DecidableEq, Repr

/-- How far `getopts` has got. -/
structure Progress where
  /-- The place of the next argument, counted from one. -/
  place : Nat := 1
  /-- How many characters of the argument in front of it are behind, if it may hold more letters. -/
  behind : Option Nat := none
  deriving DecidableEq, Repr

/-- A process that runs a program text. -/
structure Process where
  system : System
  /-- The name that it goes by in its complaints. -/
  name : Text := "sh".toList
  args : List Text := []
  vars : List Var := []
  functions : List (Text × Command) := []
  /-- The texts that words stand for, the first one defined first. -/
  aliases : List (Text × Text) := []
  /-- The programs whose place is known, the first one found first. -/
  tracked : List Tracked := []
  /-- The opened file that each descriptor leads to. -/
  fds : List (Nat × Nat)
  /-- The opened files that it has set aside. -/
  aside : List Nat := []
  cwd : Nat
  /-- The path of the working directory as it was walked to; empty if it is not known. -/
  dir : Text := []
  id : Nat
  /-- The number of the process that the program text was started as: another one if this is a copy
  which that process has made of itself. -/
  pid : Nat
  /-- The number of the process that has started it. -/
  parent : Nat
  /-- The processes started in the background, last ones first. -/
  jobs : List Job := []
  /-- The number of the last process started in the background, here or before the copy was made. -/
  lastJob : Option Nat := none
  status : Nat := 0
  /-- The status of the last command whose output was put into a word. -/
  outputStatus : Nat := 0
  /-- The line of the command that is run. -/
  line : Nat := 0
  /-- The line up to which the text has been read. -/
  reached : Nat := 0
  /-- The command of the language that is run. -/
  within : Option Text := none
  /-- The letters of the options that are set. -/
  options : Text := []
  /-- What is done at each signal, zero being the end of the process. -/
  traps : List (Nat × Text) := []
  /-- The signals that were held off when the process started, which it cannot change. -/
  ignored : List Nat := []
  /-- The signals that came and wait for what is done at them. -/
  pending : List Nat := []
  /-- The status from before what is being done at a signal. -/
  statusBefore : Option Nat := none
  /-- What is to be put back, for each function or assignment that is under way. -/
  saved : List (List Kept) := []
  loops : Nat := 0
  /-- How many functions are under way. -/
  functionDepth : Nat := 0
  area : WorkArea := {}
  mask : Nat := 0o022
  limits : Limits := []
  progress : Progress := {}

namespace Process

/-- The opened files that a process holds. -/
def held (p : Process) : List Nat := p.fds.map (·.2) ++ p.aside

/-- The system as others see it when the process lets them go on. -/
def shown (p : Process) : System := p.system.hold p.id p.held

/-- The process with a descriptor that leads to an opened file, or nowhere. -/
def withDescriptor (p : Process) (fd : Nat) (id : Option Nat) : Process :=
  let others := p.fds.filter (·.1 != fd)
  { p with fds := match id with
    | some id => (fd, id) :: others
    | none => others }

/-- The process as a copy of it begins, which has no jobs and does nothing yet at any signal. -/
def copied (p : Process) : Process :=
  { p with
    jobs := []
    traps := p.traps.filter (·.2.isEmpty)
    pending := []
    loops := 0 }

end Process

/-- Why a process leaves what it is doing. -/
inductive Stop where
  /-- It ends. -/
  | exit
  /-- It cannot go on, and a complaint says why. -/
  | failed
  /-- It leaves loops, or goes on with the next round of the last of them. -/
  | leave (loops : Nat) (goesOn : Bool)
  /-- It leaves a function or a file, perhaps with a status that was given. -/
  | return (isGiven : Bool)
  /-- A signal ends it. -/
  | killed (signal : Nat)
  deriving DecidableEq, Repr

end LineShell.Script
