import LineShell.Script.Intrinsic.File
import LineShell.Script.Intrinsic.Job
import LineShell.Script.Intrinsic.Leave
import LineShell.Script.Intrinsic.Setting
import LineShell.Script.Intrinsic.Stream

/-!
# Commands of the language

The commands that a process carries out itself and that run no other command, by their names. Each sets
the status, and fails with a complaint where its arguments make no sense.
-/

namespace LineShell.Script.Intrinsic

/-- A command by its name. -/
def run? (name : Text) : Option (List Text → Eval Unit) :=
  match String.ofList name with
  | ":" | "true" => some fun _ => Eval.setStatus 0
  | "false" => some fun _ => Eval.setStatus 1
  | "[" => some checkBracketed
  | "alias" => some defineAliases
  | "bg" | "fg" => some takeUp
  | "break" => some (leave false)
  | "cd" | "chdir" => some cd
  | "continue" => some (leave true)
  | "echo" => some writeWords
  | "exit" => some exit
  | "export" => some exportVars
  | "getopts" => some getopts
  | "jobs" => some listJobs
  | "kill" => some kill
  | "local" => some keepLocal
  | "printf" => some writeFormat
  | "pwd" => some pwd
  | "read" => some read
  | "readonly" => some readonly
  | "return" => some giveUp
  | "set" => some set
  | "shift" => some shift
  | "test" => some check
  | "times" => some fun _ => do
    Eval.put "0m0.000000s 0m0.000000s\n0m0.000000s 0m0.000000s\n".toList
    Eval.setStatus 0
  | "trap" => some trap
  | "ulimit" => some ulimit
  | "umask" => some umask
  | "unalias" => some dropAliases
  | "unset" => some unset
  | "wait" => some wait
  | _ => none

end LineShell.Script.Intrinsic
