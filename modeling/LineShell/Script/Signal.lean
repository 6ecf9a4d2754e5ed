import LineShell.Text.Basic

/-!
# Signals

* `Signal.names` : the names of the signals, by their numbers;
* `Signal.ofText?` : the signal that a number or a name stands for;
* `Signal.description` : what is written about a process that a signal has ended.
-/

namespace LineShell.Script.Signal

/-- The names of the signals from zero on. The last thirty-one are counted from both their ends. -/
def names : List Text :=
  (["EXIT", "HUP", "INT", "QUIT", "ILL", "TRAP", "ABRT", "BUS", "FPE", "KILL", "USR1", "SEGV", "USR2",
    "PIPE", "ALRM", "TERM", "16", "CHLD", "CONT", "STOP", "TSTP", "TTIN", "TTOU", "URG", "XCPU",
    "XFSZ", "VTALRM", "PROF", "WINCH", "IO", "PWR", "SYS", "32", "33", "RTMIN"].map String.toList) ++
  (List.range 15).map (fun n => "RTMIN+".toList ++ Text.ofNat (n + 1)) ++
  (List.range 14).map (fun n => "RTMAX-".toList ++ Text.ofNat (14 - n)) ++ ["RTMAX".toList]

/-- The signal that ends a process unless it is told otherwise. -/
def terminate : Nat := 15

/-- The signal of a process that is cut off from its reader. -/
def brokenPipe : Nat := 13

/-- The signal of a process that uses memory which is not its own. -/
def badAddress : Nat := 11

/-- The signal of a process that uses memory which is not there. -/
def badAccess : Nat := 7

/-- The signal of a process that asks the machine for a number which there is none of. -/
def arithmetic : Nat := 8

/-- The signal of a process that writes more to a file than it may. -/
def fileSize : Nat := 25

/-- The signal of a process of which a child has ended. -/
def childEnded : Nat := 17

def interrupt : Nat := 2

/-- The signals that come from a terminal, which do not end what runs in the background. -/
def terminal : List Nat := [2, 3]

/-- The signals that no process can hold off. -/
def unstoppable : List Nat := [9, 19]

/-- The signals that do not end a process. -/
def harmless : List Nat := [0, 17, 18, 19, 20, 21, 22, 23, 28]

/-- The signal that a number or a name stands for; names count from `least` on. -/
def ofText? (least : Nat) (t : Text) : Option Nat :=
  if !t.isEmpty && t.all Text.isDigit then
    let n := Text.digitsValue t
    if n < names.length then some n else none
  else
    match names.findIdx? (· == t.map Char.toUpper) with
    | some n => if least ≤ n then some n else none
    | none => none

def name (n : Nat) : Text := names.getD n []

/-- What is written about a process that a signal has ended. -/
def description (n : Nat) : Text :=
  let known := ["Unknown signal 0", "Hangup", "Interrupt", "Quit", "Illegal instruction",
    "Trace/breakpoint trap", "Aborted", "Bus error", "Floating point exception", "Killed",
    "User defined signal 1", "Segmentation fault", "User defined signal 2", "Broken pipe",
    "Alarm clock", "Terminated", "Stack fault", "Child exited", "Continued", "Stopped (signal)",
    "Stopped", "Stopped (tty input)", "Stopped (tty output)", "Urgent I/O condition",
    "CPU time limit exceeded", "File size limit exceeded", "Virtual timer expired",
    "Profiling timer expired", "Window changed", "I/O possible", "Power failure", "Bad system call"]
  match known[n]? with
  | some t => t.toList
  | none =>
    if 34 ≤ n then "Real-time signal ".toList ++ Text.ofNat (n - 34)
    else "Unknown signal ".toList ++ Text.ofNat n

end LineShell.Script.Signal
