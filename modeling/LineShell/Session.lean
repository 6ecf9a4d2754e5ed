import LineShell.Alias
import LineShell.History
import LineShell.Variable
import LineShell.Line.Comment
import LineShell.Line.Word

/-!
# Sessions

A `Session` is all that a shell keeps from one command to the next.

* `Session.accept` : a line that was read becomes the current one;
* `Session.nextSegment` : the next segment of the current line;
* `Session.prepare` : the words of a segment, with aliases and variables put in;
* `Session.countCommand`, `Session.countLine` : the counter shown in reports;
* `Session.loadHistory`, `Session.saveHistory` : the history on disk;
* `Session.finalStatus` : the status that the shell ends with.
-/

namespace LineShell

/-- What can be set about a shell. -/
structure Settings where
  prompt : Text := "$ ".toList
  historyFile : Text := ".simple_shell_history".toList
  maxHistory : Nat := 4096
  maxAliasDepth : Nat := 10
  deriving DecidableEq, Repr

/-- Whether a shell goes on. -/
inductive Stage where
  | running
  /-- `exit` was run, with the code it was given. -/
  | leaving (code : Option Status)
  deriving DecidableEq, Repr

def Stage.isLeaving : Stage → Bool
  | running => false
  | leaving _ => true

def Stage.code : Stage → Option Status
  | running => none
  | leaving code => code

/-- All that a shell keeps from one command to the next. -/
structure Session where
  settings : Settings
  /-- The name that the shell was started by. -/
  program : Text
  /-- Whether someone is asked for each line. -/
  interactive : Bool
  /-- The words of the command that is run. -/
  argv : List Text
  /-- What is left of the current line. -/
  cursor : Line.Cursor
  lastStatus : Status
  /-- The number shown in reports. -/
  lineCount : Nat
  /-- Whether the current line has not been counted yet. -/
  uncounted : Bool
  stage : Stage
  env : Environment
  aliases : AliasTable
  history : History
  /-- Whether the history may be written; not if its file could not be read. -/
  historyWritable : Bool
  deriving DecidableEq, Repr

namespace Session

/-- A session in which nothing has happened. -/
def start (program : Text) (settings : Settings) (env : Environment) : Session where
  settings := settings
  program := program
  interactive := false
  argv := []
  cursor := .exhausted
  lastStatus := 0
  lineCount := 0
  uncounted := false
  stage := .running
  env := env
  aliases := .empty
  history := .empty settings.maxHistory
  historyWritable := true

/-- The variable that names the home directory. -/
def home : Text := "HOME".toList

/-! ## Lines and words -/

/-- A line that was read: without its comment it is recorded, unless blank, and becomes the
current one. -/
def accept (s : Session) (raw : Text) : Session :=
  let line := Line.stripComment raw
  { s with
    history := if Text.isBlank line then s.history else s.history.add line
    uncounted := true
    cursor := .load line }

/-- The next segment of the current line, if the last status lets it run. -/
def nextSegment (s : Session) : Option Text × Session :=
  let r := s.cursor.next s.lastStatus
  (r.1, { s with cursor := r.2 })

/-- What words refer to. -/
def scope (s : Session) (pid : Nat) : Scope := ⟨s.env, s.lastStatus, pid⟩

/-- The words of a segment: cut, the first one followed through the aliases, and then each one put
in place of its `$`. -/
def wordsOf (s : Session) (pid : Nat) (segment : Text) : List Text :=
  (s.scope pid).expand (s.aliases.expand s.settings.maxAliasDepth (Line.words segment)).2

/-- A segment's words become the words of the command. -/
def prepare (s : Session) (pid : Nat) (segment : Text) : Session :=
  { s with argv := s.wordsOf pid segment }

/-! ## Counting and reporting -/

/-- One more command of the shell's own. -/
def countCommand (s : Session) : Session := { s with lineCount := s.lineCount + 1 }

/-- The current line counts once, whatever it holds. -/
def countLine (s : Session) : Session :=
  if s.uncounted then { s with lineCount := s.lineCount + 1, uncounted := false } else s

/-- What a report about a command begins with. -/
def reportPrefix (s : Session) (command : Text) : Text :=
  s.program ++ ": ".toList ++ Text.ofNat s.lineCount ++ ": ".toList ++ command ++ ": ".toList

def finalStatus (s : Session) : Status := s.stage.code.getD s.lastStatus

/-! ## History on disk -/

def historyPath (s : Session) : Option Text :=
  History.path? (s.env.get? home) s.settings.historyFile

/-- The history on disk in place of the one in memory, and the state in which it has been read. A file
that cannot be read is left alone from then on. -/
def loadHistory {ω : Type} (m : Machine ω) (w : ω) (s : Session) : Session × ω :=
  match s.historyPath with
  | none => (s, w)
  | some path =>
    let opened := m.readFile w path
    let w := (opened.toOption.map (·.2)).getD w
    match s.history.load (opened.map (·.1)) with
    | (.ok _, history) => ({ s with history }, w)
    | (.error _, history) => ({ s with history, historyWritable := false }, w)

/-- Writes the history to disk, if it has a place and may be written; what was written, and the state
after it. -/
def saveHistory {ω : Type} (m : Machine ω) (w : ω) (s : Session) : Option (Text × Bytes) × ω :=
  match s.historyPath with
  | none => (none, w)
  | some path =>
    if s.historyWritable then
      match m.writeFile w path s.history.fileBytes with
      | .ok w => (some (path, s.history.fileBytes), w)
      | .error _ => (none, w)
    else (none, w)

@[simp] theorem cursor_countLine (s : Session) : s.countLine.cursor = s.cursor := by
  unfold countLine; split <;> rfl

end Session

end LineShell
