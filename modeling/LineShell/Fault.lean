import LineShell.Line.Chain
import LineShell.SysError

/-!
# Faults

Why a command, or the start of the shell, failed. `Fault.message` is what the shell reports and
`Fault.status` the status that the failure stands for.
-/

namespace LineShell

/-- Why a command, or the start of the shell, failed. -/
inductive Fault where
  | commandNotFound
  /-- The program may not be run. -/
  | accessDenied
  | badExitNumber (given : Text)
  | scriptMissing (path : Text)
  | scriptForbidden (path : Text)
  /-- The script to run could not be opened for another reason. -/
  | scriptUnopened (path : Text) (cause : SysError)
  | notStarted (cause : SysError)
  /-- `setenv` takes a name and a value. -/
  | setenvArguments
  /-- `unsetenv` takes at least one name. -/
  | unsetenvArguments
  /-- No variable can be called `name`. -/
  | badVariableName (name : Text)
  | cannotEnter (target : Text)
  /-- The directory was entered, but it has no path any more. -/
  | lostDirectory
  deriving DecidableEq, Repr

namespace Fault

def message : Fault → Text
  | commandNotFound => "command not found".toList
  | accessDenied => "access denied".toList
  | badExitNumber given => "Invalid number: ".toList ++ given
  | scriptMissing path => "Cannot access ".toList ++ path
  | scriptForbidden path => "Permission denied: ".toList ++ path
  | scriptUnopened path cause => "Cannot open ".toList ++ path ++ ": ".toList ++ cause.message
  | notStarted cause => "cannot create process: ".toList ++ cause.message
  | setenvArguments => "Number of arguments provided is not correct".toList
  | unsetenvArguments => "Incorrect number of arguments provided.".toList
  | badVariableName name => "Invalid variable name: ".toList ++ name
  | cannotEnter target => "Cannot cd to ".toList ++ target
  | lostDirectory => "cannot read the new working directory".toList

def status : Fault → Status
  | commandNotFound | scriptMissing _ => 127
  | accessDenied | scriptForbidden _ => 126
  | badExitNumber _ => 2
  | scriptUnopened .. | notStarted _ | setenvArguments | unsetenvArguments | badVariableName _
  | cannotEnter _ | lostDirectory => 1

end Fault

end LineShell
