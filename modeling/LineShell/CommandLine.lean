import LineShell.Shell

/-!
# The command line

The shell started as a program: it takes its input from the script that is its first argument, or
else from standard input, and its variables from its surroundings.

* `Invocation` : how it is started; `Invocation.scriptOf` : the script among its arguments;
* `CommandLine.run` : what it does, and how it ends. A signal ends it at once: nothing that it holds back
  gets out any more, and the history is not saved.
-/

namespace LineShell

/-- How the shell is started. -/
structure Invocation where
  /-- The name that it is called by. -/
  program : Text
  script : Option Text
  /-- The inherited octet strings. -/
  inherited : List Bytes

/-- The script that the arguments name. A first one of two dashes is none. -/
def Invocation.scriptOf : List Text → Option Text
  | ['-', '-'] :: rest => rest.head?
  | args => args.head?

/-- What the shell did: how it ended, its journal and the state of the machine. -/
structure Outcome (ω : Type) where
  ending : Ending
  journal : Journal
  world : ω

namespace CommandLine

variable {ω : Type}

/-- The code that the system keeps of a status: its last eight bits. -/
def codeOf (s : Status) : Nat := (s % 256).toNat

/-- The source of the lines, or why there is none. Without a script it is standard input. -/
def source (m : Machine ω) (w : ω) (i : Invocation) : Except Fault Source :=
  match i.script with
  | none => .ok Source.input
  | some path => Source.script (m.openFile w path) path

def session (i : Invocation) : Session :=
  Session.start i.program {} (Environment.ofInherited (i.inherited.filterMap Environment.splitInherited))

/-- The report on a script that cannot be run: no line has been counted yet. -/
def refusal (i : Invocation) (fault : Fault) : Text :=
  i.program ++ ": 0: ".toList ++ fault.message

/-- Whether `exit` has been run or a signal has ended the shell. -/
def isOver (m : Machine ω) (sh : Shell ω) : Bool := sh.isLeaving || (m.killer? sh.world).isSome

/-- Starts the shell and runs it to its end. -/
def run (m : Machine ω) (w : ω) (i : Invocation) : Outcome ω :=
  match source m w i with
  | .error fault =>
    ⟨.exited (codeOf fault.status), Journal.empty.report (refusal i fault), w⟩
  | .ok source =>
    let sh := (Shell.start (session i) w).work (isOver m) m source
    match m.killer? sh.world with
    | some signal => ⟨.killed signal, sh.journal.unreported, sh.world⟩
    | none =>
      let sh := sh.close m
      ⟨.exited (codeOf sh.status), sh.journal, sh.world⟩

end CommandLine

end LineShell
