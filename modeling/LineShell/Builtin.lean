import LineShell.Fault
import LineShell.Session

/-!
# Commands of the shell

The commands that the shell runs itself, looked up by their exact names before any file.

* `Builtin` : the eight commands; `Builtin.name`, `Builtin.named?`;
* `Reply` : what running a command leaves;
* `Builtin.run` : runs one; `exit`, `env`, `help`, `history`, `setenv`, `unsetenv`, `cd` and `alias`
  have a definition each.
-/

namespace LineShell

/-- The commands that the shell runs itself. -/
inductive Builtin where
  | exit
  | env
  | help
  | history
  | setenv
  | unsetenv
  | cd
  | aliases
  deriving DecidableEq, Repr

/-- What running a command leaves: the session and the state of the machine, what was written, and
the status or the fault. -/
structure Reply (ω ρ : Type) where
  session : Session
  world : ω
  written : ρ
  result : Except Fault Status

namespace Builtin

/-- The commands in the order in which they are looked up. -/
def all : List Builtin := [exit, env, help, history, setenv, unsetenv, cd, aliases]

def name : Builtin → Text
  | exit => "exit".toList
  | env => "env".toList
  | help => "help".toList
  | history => "history".toList
  | setenv => "setenv".toList
  | unsetenv => "unsetenv".toList
  | cd => "cd".toList
  | aliases => "alias".toList

def named? (t : Text) : Option Builtin := all.find? (·.name == t)

/-! ## Leaving -/

/-- The greatest status that `exit` takes. -/
def maxExitCode : Nat := 2147483647

/-- The status that a text denotes: digits, perhaps with one `+` in front, in range. -/
def exitCode? (t : Text) : Option Status :=
  let digits := match t with
    | '+' :: rest => rest
    | t => t
  if !digits.isEmpty && digits.all Text.isDigit && Text.digitsValue digits ≤ maxExitCode then
    some (Text.digitsValue digits)
  else none

variable {ω : Type}

/-- `exit [N]` : leaves the shell, with the status `N`. -/
def runExit (argv : List Text) (s : Session) (w : ω) : Reply ω Text :=
  match argv[1]? with
  | none => ⟨{ s with stage := .leaving none }, w, [], .ok s.lastStatus⟩
  | some given =>
    match exitCode? given with
    | some code => ⟨{ s with stage := .leaving (some code) }, w, [], .ok code⟩
    | none => ⟨s, w, [], .error (.badExitNumber given)⟩

/-! ## Showing -/

/-- Texts one a line. -/
def unlines (ts : List Text) : Text := ts.flatMap (· ++ ['\n'])

/-- `env` : shows the variables. -/
def runEnv (s : Session) (w : ω) : Reply ω Text := ⟨s, w, unlines s.env.vars.texts, .ok 0⟩

/-- `help` : says that there is none. -/
def runHelp (s : Session) (w : ω) : Reply ω Text :=
  ⟨s, w, unlines ["This function has not been implemented yet.".toList], .ok 0⟩

/-- An entry of the history as it is shown. -/
def historyLine (e : Entry) : Text := Text.ofNat e.number ++ ": ".toList ++ e.text

/-- `history` : shows the history. -/
def runHistory (s : Session) (w : ω) : Reply ω Text :=
  ⟨s, w, unlines (s.history.table.entries.map historyLine), .ok 0⟩

/-! ## Variables -/

/-- `setenv NAME VALUE` : sets a variable. -/
def runSetenv (argv : List Text) (s : Session) (w : ω) : Reply ω Text :=
  match argv with
  | [_, name, value] =>
    if name.isEmpty || name.contains '=' then ⟨s, w, [], .error (.badVariableName name)⟩
    else ⟨{ s with env := s.env.set name value }, w, [], .ok 0⟩
  | _ => ⟨s, w, [], .error .setenvArguments⟩

/-- `unsetenv NAME...` : removes variables. -/
def runUnsetenv (argv : List Text) (s : Session) (w : ω) : Reply ω Text :=
  match argv with
  | _ :: name :: names =>
    ⟨{ s with env := (name :: names).foldl Environment.unset s.env }, w, [], .ok 0⟩
  | _ => ⟨s, w, [], .error .unsetenvArguments⟩

/-! ## The working directory -/

def pwd : Text := "PWD".toList

def oldpwd : Text := "OLDPWD".toList

/-- Enters `target`. The directory before is what `PWD` says, or else where the machine was. -/
def enter (m : Machine ω) (target written : Text) (s : Session) (w : ω) : Reply ω Text :=
  match m.enter w target with
  | .error _ => ⟨s, w, written, .error (.cannotEnter target)⟩
  | .ok w' =>
    let before := (s.env.get? pwd).or (m.workingDirectory w).toOption
    let env := match before with
      | some dir => s.env.set oldpwd dir
      | none => s.env
    match m.workingDirectory w' with
    | .error _ => ⟨{ s with env }, w', written, .error .lostDirectory⟩
    | .ok now => ⟨{ s with env := env.set pwd now }, w', written, .ok 0⟩

/-- `cd [DIR]` : enters a directory, the home directory without `DIR`, the one before for `-`. -/
def runCd (m : Machine ω) (argv : List Text) (s : Session) (w : ω) : Reply ω Text :=
  match argv[1]? with
  | none => enter m (((s.env.get? Session.home).or (s.env.get? pwd)).getD ['/']) [] s w
  | some ['-'] =>
    match s.env.get? oldpwd with
    | some old => enter m old (unlines [old]) s w
    | none => ⟨s, w, unlines (m.workingDirectory w).toOption.toList, .ok 1⟩
  | some dir => enter m dir [] s w

/-! ## Aliases -/

/-- One argument of `alias`: a definition changes the table, a name shows its alias. -/
def aliasArgument (a : AliasTable) (arg : Text) : AliasTable × List Text :=
  match a.define? arg with
  | some a => (a, [])
  | none => (a, (a.render? arg).toList)

/-- The arguments of `alias` one after another, and what they show. -/
def aliasArguments (a : AliasTable) : List Text → AliasTable × List Text
  | [] => (a, [])
  | arg :: args =>
    let r := aliasArgument a arg
    let r' := aliasArguments r.1 args
    (r'.1, r.2 ++ r'.2)

/-- `alias [NAME[=VALUE]...]` : shows or defines aliases. -/
def runAlias (argv : List Text) (s : Session) (w : ω) : Reply ω Text :=
  match argv with
  | _ :: arg :: args =>
    let r := aliasArguments s.aliases (arg :: args)
    ⟨{ s with aliases := r.1 }, w, unlines r.2, .ok 0⟩
  | _ => ⟨s, w, unlines s.aliases.renderAll, .ok 0⟩

/-- Runs a command with the words `argv`, the first of which is not looked at. -/
def run (m : Machine ω) (b : Builtin) (argv : List Text) (s : Session) (w : ω) : Reply ω Text :=
  match b with
  | exit => runExit argv s w
  | env => runEnv s w
  | help => runHelp s w
  | history => runHistory s w
  | setenv => runSetenv argv s w
  | unsetenv => runUnsetenv argv s w
  | cd => runCd m argv s w
  | aliases => runAlias argv s w

/-- No command looks at the current line. -/
theorem cursor_run (m : Machine ω) (b : Builtin) (argv : List Text) (s : Session) (w : ω) :
    (b.run m argv s w).session.cursor = s.cursor := by
  have henter : ∀ target written, (enter m target written s w).session.cursor = s.cursor := by
    intro target written
    unfold enter
    split
    · rfl
    · simp only []; split <;> rfl
  cases b with
  | exit =>
    simp only [run, runExit]
    split
    · rfl
    · split <;> rfl
  | env => rfl
  | help => rfl
  | history => rfl
  | setenv =>
    simp only [run, runSetenv]
    split
    · split <;> rfl
    · rfl
  | unsetenv =>
    simp only [run, runUnsetenv]
    split <;> rfl
  | cd =>
    simp only [run, runCd]
    split
    · exact henter _ _
    · split
      · exact henter _ _
      · rfl
    · exact henter _ _
  | aliases =>
    simp only [run, runAlias]
    split <;> rfl

end Builtin

end LineShell
