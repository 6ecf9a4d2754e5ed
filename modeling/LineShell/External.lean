import LineShell.Builtin

/-!
# Programs

A command that is not the shell's own is a program. It is started by the path that its name stands
for, with the words of the command as its arguments and the environment's snapshot as its
variables; the shell waits until it has ended.
-/

namespace LineShell.External

variable {ω : Type}

/-- The program at `path` to be started with the words `argv`; without words it is called by its
path. -/
def launch (path : Text) (argv : List Text) (env : Environment) : Launch where
  path := path
  arguments := if argv.isEmpty then [path] else argv
  vars := env.snapshot

/-- The status that says that a program may not be run. -/
def notExecutable : Status := 126

/-- Starts the program at `path` and waits for it. A program that ends with the status
`notExecutable` counts as one that may not be run. -/
def run (m : Machine ω) (path : Text) (argv : List Text) (s : Session) (w : ω) :
    Reply ω (List (Stream × Bytes)) :=
  let refreshed := { s with env := s.env.refresh }
  match m.launch w (launch path argv s.env) with
  | .error .accessDenied => ⟨refreshed, w, [], .error .accessDenied⟩
  | .error e => ⟨refreshed, w, [], .error (.notStarted e)⟩
  | .ok (report, w') =>
    let status := report.ending.status
    ⟨refreshed, w', report.written,
      if status = notExecutable then .error .accessDenied else .ok status⟩

/-- No program looks at the current line. -/
theorem cursor_run (m : Machine ω) (path : Text) (argv : List Text) (s : Session) (w : ω) :
    (run m path argv s w).session.cursor = s.cursor := by
  unfold run
  simp only []
  split <;> rfl

end LineShell.External
