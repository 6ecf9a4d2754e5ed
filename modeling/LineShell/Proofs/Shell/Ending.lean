import LineShell.Proofs.Shell.Continuity
import LineShell.Proofs.Shell.Reports

/-!
# How a run ends

* `Builtin.leaves?` : whether words are an `exit` that succeeds, and the code that it leaves with;
  `Ran.stage_after` : nothing else leaves the shell;
* `Ran.status?` : the status of the command of a segment; `Loop.lastStatus` : the last one of them is kept;
* `Loop.Ends` : behind the first `exit` that succeeds, or else where the input ends; `Loop.ends` : one of
  the two;
* `Loop.withWriter`, `Closes` : the history is not saved before the end, and once there; `Saves` : where to, and
  which octets.

`run_ends` : the end of a whole run and its status.
-/

namespace LineShell

variable {ω : Type}

/-- A session that no command has been run in either. -/
structure Session.IsFresh (s : Session) : Prop extends s.IsNew where
  stage : s.stage = .running
  lastStatus : s.lastStatus = 0

theorem Session.isFresh_start (program : Text) (settings : Settings) (env : Environment) :
    (start program settings env).IsFresh := ⟨isNew_start program settings env, rfl, rfl⟩

/-- What is done in closing. -/
def Event.closing? : Event → Option Event
  | .saved path bytes => some (.saved path bytes)
  | .closed => some .closed
  | _ => none

/-- The machine with another way to write files. -/
def Machine.withWriter (m : Machine ω) (writeFile : ω → Text → Bytes → Except SysError ω) : Machine ω :=
  { m with writeFile }

/-! ## What leaves the shell -/

namespace Builtin

theorem name_of_named? {t : Text} {b : Builtin} (h : named? t = some b) : b.name = t := by
  simpa using List.find?_some h

theorem named?_name (b : Builtin) : named? b.name = some b := by cases b <;> decide

/-- The code that the shell is left with if these words are an `exit` that succeeds; no code is given by a
bare one. -/
def leaves? : List Text → Option (Option Status)
  | [] => none
  | name :: args =>
    if name = exit.name then
      match args with
      | [] => some none
      | given :: _ => (exitCode? given).map some
    else none

theorem leaves?_of_ne {name : Text} (h : name ≠ exit.name) (args : List Text) :
    leaves? (name :: args) = none := if_neg h

theorem leaves?_exit (given : Text) (args : List Text) :
    leaves? (exit.name :: given :: args) = (exitCode? given).map some := rfl

theorem stage_enter (m : Machine ω) (target written : Text) (s : Session) (w : ω) :
    (enter m target written s w).session.stage = s.stage := by
  obtain ⟨env, h⟩ := session_enter m target written s w
  rw [h]

theorem stage_run {b : Builtin} (hb : b ≠ exit) (m : Machine ω) (argv : List Text) (s : Session) (w : ω) :
    (b.run m argv s w).session.stage = s.stage := by
  cases b with
  | exit => exact absurd rfl hb
  | env => rfl
  | help => rfl
  | history => rfl
  | setenv =>
    simp only [run, runSetenv]
    split
    · split <;> rfl
    · rfl
  | unsetenv =>
    simp only [run, runUnsetenv]
    split <;> rfl
  | cd =>
    simp only [run, runCd]
    split
    · exact stage_enter ..
    · split
      · exact stage_enter ..
      · rfl
    · exact stage_enter ..
  | aliases =>
    simp only [run, runAlias]
    split <;> rfl

/-- What `exit` does: it leaves with the code that it is given, or bare with the last status; or it is
given no number, and changes nothing. -/
theorem runExit_cases (name : Text) (args : List Text) (s : Session) (w : ω) :
    (args = [] ∧ runExit (name :: args) s w =
      ⟨{ s with stage := .leaving none }, w, [], .ok s.lastStatus⟩) ∨
    (∃ given rest code, args = given :: rest ∧ exitCode? given = some code ∧
      runExit (name :: args) s w = ⟨{ s with stage := .leaving (some code) }, w, [], .ok code⟩) ∨
    ∃ given rest, args = given :: rest ∧ exitCode? given = none ∧
      runExit (name :: args) s w = ⟨s, w, [], .error (.badExitNumber given)⟩ := by
  cases args with
  | nil => exact .inl ⟨rfl, rfl⟩
  | cons given rest =>
    refine .inr ?_
    cases hcode : exitCode? given with
    | some code =>
      refine .inl ⟨given, rest, code, rfl, hcode, ?_⟩
      simp only [runExit, List.getElem?_cons_succ, List.getElem?_cons_zero, hcode]
    | none =>
      refine .inr ⟨given, rest, rfl, hcode, ?_⟩
      simp only [runExit, List.getElem?_cons_succ, List.getElem?_cons_zero, hcode]

end Builtin

namespace Shell

theorem stage_settle (name : Text) (result : Except Fault Status) (sh : Shell ω) :
    (sh.settle name result).session.stage = sh.session.stage := by
  obtain ⟨_, hs⟩ := session_settle name result sh
  rw [hs]

/-- The stage that these words leave behind. -/
def stageBehind (words : List Text) (stage : Stage) : Stage :=
  match Builtin.leaves? words with
  | some code => .leaving code
  | none => stage

theorem stage_answer (m : Machine ω) (name : Text) (args : List Text) (sh : Shell ω) :
    (answer m name (name :: args) sh).1.session.stage = stageBehind (name :: args) sh.session.stage := by
  have hother : name ≠ Builtin.exit.name →
      stageBehind (name :: args) sh.session.stage = sh.session.stage := by
    intro hne
    unfold stageBehind
    rw [Builtin.leaves?_of_ne hne]
  unfold answer
  cases hb : Builtin.named? name with
  | none =>
    have hne : name ≠ Builtin.exit.name := by
      rintro rfl
      rw [Builtin.named?_name] at hb
      cases hb
    obtain ⟨lineCount, uncounted, hc⟩ := session_countLine sh.session
    rw [hother hne]
    dsimp only [runProgram]
    split
    · rw [hc]
    · rw [External.session_run, hc]
  | some b =>
    obtain rfl := Builtin.name_of_named? hb
    -- `exit` is the one command of the shell's own that sets the stage
    by_cases hexit : b = .exit
    · subst hexit
      dsimp only [runBuiltin, Builtin.run]
      unfold stageBehind
      obtain ⟨rfl, hr⟩ | ⟨given, rest, code, rfl, hcode, hr⟩ | ⟨given, rest, rfl, hcode, hr⟩ :=
        Builtin.runExit_cases Builtin.exit.name args sh.session.countCommand sh.world
      · rw [hr]
        rfl
      · rw [hr, Builtin.leaves?_exit, hcode]
        rfl
      · rw [hr, Builtin.leaves?_exit, hcode]
        rfl
    · have hne : b.name ≠ Builtin.exit.name := by
        intro hname
        have := Builtin.named?_name b
        rw [hname, Builtin.named?_name] at this
        exact hexit (Option.some.inj this).symm
      rw [hother hne]
      exact Builtin.stage_run hexit ..

namespace Ran

variable (m : Machine ω) (r : Ran ω)

/-- The code that a segment leaves the shell with, if it is an `exit` that succeeds. -/
def leaves? : Option (Option Status) := Builtin.leaves? (r.words m)

/-- The status of the command of a segment; none without words. -/
def status? : Option Status := (r.outcome? m).map fun o => resultStatus o.2

theorem stage_after : (r.after m).session.stage = stageBehind (r.words m) r.shell.session.stage := by
  cases hw : r.words m with
  | nil =>
    obtain ⟨_, _, hc⟩ := session_countLine { r.shell.session with argv := [] }
    rw [after_eq_of_nil hw]
    dsimp only
    rw [hc]
    rfl
  | cons name args =>
    rw [after, execute_of_words hw]
    dsimp only
    rw [stage_settle, stage_answer]
    rfl

theorem lastStatus_after :
    (r.after m).session.lastStatus = (r.status? m).getD r.shell.session.lastStatus := by
  unfold status?
  cases hw : r.words m with
  | nil =>
    obtain ⟨houtcome, -, hs⟩ := after_of_nil hw
    rw [houtcome, hs]
    rfl
  | cons name args =>
    rw [outcome?_of_cons hw, after, execute_of_words hw]
    dsimp only
    rw [lastStatus_settle]
    rfl

/-- A bare `exit` keeps the last status. -/
theorem lastStatus_after_of_bare (h : r.leaves? m = some none) :
    (r.after m).session.lastStatus = r.shell.session.lastStatus := by
  rw [lastStatus_after, status?]
  unfold leaves? at h
  cases hw : r.words m with
  | nil =>
    rw [hw] at h
    cases h
  | cons name args =>
    rw [hw] at h
    by_cases hname : name = Builtin.exit.name
    · subst hname
      cases args with
      | nil =>
        rw [outcome?_of_cons hw]
        rfl
      | cons given rest =>
        rw [Builtin.leaves?_exit] at h
        obtain ⟨code, -, hcode⟩ := Option.map_eq_some_iff.1 h
        cases hcode
    · rw [Builtin.leaves?_of_ne hname] at h
      cases h

theorem isLeaving_after : (r.after m).isLeaving = ((r.leaves? m).isSome || r.shell.isLeaving) := by
  unfold isLeaving
  rw [stage_after]
  unfold stageBehind leaves?
  cases Builtin.leaves? (r.words m) <;> rfl

end Ran

/-! ## The last status -/

/-- The status of the last command of a trace, and `start` if there is none. -/
def lastStatus (m : Machine ω) (start : Status) (trace : List (Ran ω)) : Status :=
  ((trace.filterMap (Ran.status? m)).getLast?).getD start

theorem lastStatus_cons (m : Machine ω) (start : Status) (r : Ran ω) (trace : List (Ran ω)) :
    lastStatus m start (r :: trace) = lastStatus m ((r.status? m).getD start) trace := by
  unfold lastStatus
  cases hs : r.status? m with
  | none =>
    rw [List.filterMap_cons_none hs]
    rfl
  | some status =>
    rw [List.filterMap_cons_some hs, List.getLast?_cons]
    rfl

variable {m : Machine ω} {source : Source} {sh last : Shell ω} {trace : List (Ran ω)}

/-- The last status is that of the last command, in front of each segment and at the end. -/
theorem Loop.lastStatus (h : Loop m source sh trace last) :
    (∀ front r behind, trace = front ++ r :: behind →
      r.shell.session.lastStatus = lastStatus m sh.session.lastStatus front) ∧
    last.session.lastStatus = lastStatus m sh.session.lastStatus trace := by
  have hnil : ∀ (status : Status) front (r : Ran ω) behind, [] = front ++ r :: behind →
      r.shell.session.lastStatus = Shell.lastStatus m status front := by
    intro status front r behind h
    simp at h
  -- the last status in front of the rest is what the first segment leaves, so `ih` starts from there
  induction h using Loop.rec_turns with
  | left _ _ _ => exact ⟨hnil _, rfl⟩
  | ran _ sh _ segment trace _ _ _ ih =>
    obtain ⟨htrace, hlast⟩ := ih
    rw [show execute m segment sh.asked = (Ran.mk segment sh.asked).after m from rfl,
      Ran.lastStatus_after] at htrace hlast
    refine ⟨fun front r behind h => ?_, ?_⟩
    · cases front with
      | nil =>
        obtain ⟨rfl, -⟩ := List.cons.inj h
        rfl
      | cons first front =>
        obtain ⟨rfl, hrest⟩ := List.cons.inj h
        rw [htrace front r behind hrest, lastStatus_cons]
        rfl
    · rw [hlast, lastStatus_cons]
      rfl
  | line _ _ _ _ _ _ _ _ _ _ _ ih => exact ih
  | stopped _ _ sh failure w _ _ _ =>
    refine ⟨hnil _, ?_⟩
    rw [session_endInput]
    rfl

/-! ## The end of a loop -/

/-- How a loop ends that was not over from the start. Either the last segment of its trace was the only
`exit` that succeeded, and nothing has been done since; or there was none, and what was read last is no
line. -/
inductive Loop.Ends (m : Machine ω) : List (Ran ω) → Shell ω → Status → Prop
  | left {front : List (Ran ω)} {r : Ran ω} {code : Option Status}
      (hfront : ∀ q ∈ front, q.leaves? m = none) (hr : r.leaves? m = some code) :
      Ends m (front ++ [r]) (r.after m) (code.getD (Shell.lastStatus m 0 front))
  | stopped {trace : List (Ran ω)} {last : Shell ω} {failure : Option SysError}
      (htrace : ∀ q ∈ trace, q.leaves? m = none) (hl : last.isLeaving = false)
      (hread : last.journal.readings.getLast? = some (lastReading failure)) :
      Ends m trace last (Shell.lastStatus m 0 trace)

theorem finalStatus_of_isLeaving_eq_false {s : Session} (h : s.stage.isLeaving = false) :
    s.finalStatus = s.lastStatus := by
  unfold Session.finalStatus
  cases hs : s.stage with
  | running => rfl
  | leaving code =>
    rw [hs] at h
    cases h

theorem Ran.status_after_of_leaves? {r : Ran ω} {code : Option Status} (h : r.leaves? m = some code) :
    (r.after m).status = code.getD r.shell.session.lastStatus := by
  have hstage : (r.after m).session.stage = .leaving code := by
    rw [stage_after, stageBehind, show Builtin.leaves? (r.words m) = some code from h]
  unfold status Session.finalStatus
  rw [hstage]
  cases code with
  | none => exact r.lastStatus_after_of_bare m h
  | some code => rfl

/-- Behind an `exit` that succeeds the loop is over, and where no line can be read. -/
theorem Loop.cases_end (h : Loop m source sh trace last) (hl : sh.isLeaving = false) :
    (∃ front r code, trace = front ++ [r] ∧ last = r.after m ∧ r.leaves? m = some code ∧
      ∀ q ∈ front, q.leaves? m = none) ∨
    ((∀ q ∈ trace, q.leaves? m = none) ∧ last.isLeaving = false ∧
      ∃ failure, last.journal.readings.getLast? = some (lastReading failure)) := by
  induction h using Loop.rec_turns with
  | left _ _ hleaving =>
    rw [hl] at hleaving
    cases hleaving
  | ran _ sh _ segment trace _ _ rest ih =>
    let r : Ran ω := ⟨segment, sh.asked⟩
    -- only this segment can make the shell leave, and if it does the rest of the loop is empty
    have hafter : (r.after m).isLeaving = (r.leaves? m).isSome := by
      rw [r.isLeaving_after, show r.shell.isLeaving = false from hl, Bool.or_false]
    cases hr : r.leaves? m with
    | some code =>
      rw [hr] at hafter
      obtain ⟨rfl, rfl⟩ := rest.unique (.left hafter)
      exact .inl ⟨[], r, code, rfl, rfl, hr, List.forall_mem_nil _⟩
    | none =>
      rw [hr] at hafter
      obtain ⟨front, q, code, rfl, hlast, hq, hfront⟩ | ⟨htrace, hend⟩ := ih hafter
      · exact .inl ⟨r :: front, q, code, rfl, hlast, hq, List.forall_mem_cons.2 ⟨hr, hfront⟩⟩
      · exact .inr ⟨List.forall_mem_cons.2 ⟨hr, htrace⟩, hend⟩
  | line _ _ _ _ _ _ _ _ _ _ _ ih => exact ih hl
  | stopped _ _ _ failure _ _ _ _ =>
    refine .inr ⟨List.forall_mem_nil _, ?_, failure, ?_⟩
    · unfold isLeaving
      rw [session_endInput]
      exact hl
    · rw [readings_stopped]
      exact List.getLast?_concat ..

theorem Loop.ends (h : Loop m source sh trace last) (hl : sh.isLeaving = false)
    (hstatus : sh.session.lastStatus = 0) : Ends m trace last last.status := by
  obtain ⟨hsplit, hlast⟩ := h.lastStatus
  rw [hstatus] at hsplit hlast
  obtain ⟨front, r, code, rfl, rfl, hr, hfront⟩ | ⟨htrace, hnot, failure, hread⟩ := h.cases_end hl
  · rw [Ran.status_after_of_leaves? hr, hsplit front r [] rfl]
    exact .left hfront hr
  · rw [status, finalStatus_of_isLeaving_eq_false hnot, hlast]
    exact .stopped htrace hnot hread

/-! ## Saving and closing -/

theorem execute_withWriter (writeFile : ω → Text → Bytes → Except SysError ω) (segment : Text)
    (sh : Shell ω) : execute (m.withWriter writeFile) segment sh = execute m segment sh := by
  have hrun : ∀ (b : Builtin) argv s w, b.run (m.withWriter writeFile) argv s w = b.run m argv s w := by
    intro b argv s w
    cases b <;> rfl
  unfold execute command
  simp only [runBuiltin, hrun]
  rfl

/-- No file is written up to the end of a loop. -/
theorem Loop.withWriter (h : Loop m source sh trace last)
    (writeFile : ω → Text → Bytes → Except SysError ω) :
    Loop (m.withWriter writeFile) source sh trace last := by
  induction h with
  | left hl => exact .left hl
  | ran hl hn _ ih =>
    rw [← execute_withWriter writeFile] at ih
    exact .ran hl hn ih
  | line hl hn hr _ ih => exact .line hl hn hr ih
  | ended hl hn hr => exact .ended hl hn hr
  | failed hl hn hr => exact .failed hl hn hr

theorem closings_invariant (m : Machine ω) :
    Invariant m fun sh => sh.journal.view Event.closing? = [] where
  withCursor _ _ h := h
  execute segment sh h := by
    rw [view_execute (fun _ => rfl), h]
    rfl
  ask sh h := by rw [view_ask (fun _ => rfl), h]
  next _ _ h := h
  receive raw sh _ h := by
    rw [view_receive, h]
    rfl
  endInput failure sh h := by
    rw [view_endInput (fun _ => rfl), h]
    rfl

/-- What becomes of the history of a shell when it is closed, what is told of that, and the state after it. Where
there is a home directory and the history may be written, its lines are written to the file there; a write that
fails is not told of. -/
inductive Saves (m : Machine ω) (sh : Shell ω) : List Event → ω → Prop
  | saved {home path : Text} {bytes : Bytes} {w : ω} (hhome : sh.session.env.get? Session.home = some home)
      (hne : home ≠ []) (hwritable : sh.session.historyWritable = true)
      (hpath : path = Path.join home sh.session.settings.historyFile)
      (hbytes : bytes = Bytes.ofLines sh.session.history.texts) (hw : m.writeFile sh.world path bytes = .ok w) :
      Saves m sh [.saved path bytes] w
  | refused {home path : Text} {bytes : Bytes} {e : SysError} (hhome : sh.session.env.get? Session.home = some home)
      (hne : home ≠ []) (hwritable : sh.session.historyWritable = true)
      (hpath : path = Path.join home sh.session.settings.historyFile)
      (hbytes : bytes = Bytes.ofLines sh.session.history.texts) (hw : m.writeFile sh.world path bytes = .error e) :
      Saves m sh [] sh.world
  | locked (hwritable : sh.session.historyWritable = false) : Saves m sh [] sh.world
  | homeless (hhome : (sh.session.env.get? Session.home).getD [] = []) : Saves m sh [] sh.world

theorem saves_saveHistory (m : Machine ω) (sh : Shell ω) :
    Saves m sh ((sh.session.saveHistory m sh.world).1.map fun p => Event.saved p.1 p.2).toList
      (sh.session.saveHistory m sh.world).2 := by
  unfold Session.saveHistory
  obtain hnone | ⟨home, hne, hhome⟩ : (sh.session.env.get? Session.home).getD [] = [] ∨
      ∃ home, home ≠ [] ∧ sh.session.env.get? Session.home = some home := by
    cases sh.session.env.get? Session.home with
    | none => exact .inl rfl
    | some home => exact (em (home = [])).imp id fun hne => ⟨home, hne, rfl⟩
  · have hp : sh.session.historyPath = none := historyPath_eq_none hnone
    rw [hp]
    exact .homeless hnone
  · rw [historyPath_eq hne hhome]
    dsimp only
    cases hwritable : sh.session.historyWritable with
    | false => exact .locked hwritable
    | true =>
      rw [if_pos rfl]
      cases hw : m.writeFile sh.world (Path.join home sh.session.settings.historyFile)
          sh.session.history.fileBytes with
      | ok w => exact .saved hhome hne hwritable rfl rfl hw
      | error e => exact .refused hhome hne hwritable rfl rfl hw

/-- Closing a shell at the end of its loop. Nothing has been saved so far, nor closed; then the history is
saved, and behind it everything is sent. -/
structure Closes (m : Machine ω) (last : Shell ω) : Prop where
  before : last.journal.view Event.closing? = []
  saves : ∃ told, Saves m last told (close m last).world ∧
    (close m last).journal.log = last.journal.log ++ told ++ [.closed]
  held : (close m last).journal.held = []

theorem isLeaving_close (m : Machine ω) (sh : Shell ω) : (close m sh).isLeaving = sh.isLeaving := rfl

theorem closes (hheld : last.journal.held = [])
    (hbefore : last.journal.view Event.closing? = []) : Closes m last where
  before := hbefore
  saves := ⟨_, saves_saveHistory m last, log_close m hheld⟩
  held := rfl

/-- A run from a fresh session, of whatever source and with whatever children. The loop ends behind the
first `exit` that succeeds, with its code or, if it is bare, the status of the last command in front of it;
if there is none, where the input ends, with the status of the last command of all. With either end the
history, the last of the lines that were loaded and accepted, is saved and everything sent then and not before: how
files are written makes no difference up to the end. The loop over some octets does end, and has read them all if it
was not left. A run is such a loop, unless it reads as many lines as it may. -/
theorem run_ends (m : Machine ω) (s : Session) (hs : s.IsFresh) (w : ω) :
    (∀ source trace last, Loop m source (remember m (start s w)) trace last →
      Loop.Ends m trace last (close m last).status ∧ Closes m last ∧
      Remembers (remember m (start s w)).session.history.texts s.settings.maxHistory
        (remember m (start s w)).session.historyWritable last ∧
      ∀ writeFile, Loop (m.withWriter writeFile) source (remember (m.withWriter writeFile) (start s w))
        trace last) ∧
    (∀ bs, ∃ trace last, Loop m (.ofBytes bs) (remember m (start s w)) trace last ∧
      run m (.ofBytes bs) (start s w) = close m last ∧
      (last.isLeaving = false → last.journal.raws = Bytes.textLines bs)) ∧
    ∀ source, (∃ trace last, Loop m source (remember m (start s w)) trace last ∧
        run m source (start s w) = close m last) ∨
      ∃ raws : List Text, raws.length = source.reads ∧
        (run m source (start s w)).journal.readings = raws.map .line := by
  refine ⟨fun source trace last hloop => ?_, fun bs => ?_, fun source => exists_loop_run_or_lines m source _⟩
  · obtain ⟨_, _, hr⟩ := session_remember m (start s w)
    have hl : (remember m (start s w)).isLeaving = false := by
      unfold isLeaving
      rw [hr]
      exact congrArg Stage.isLeaving hs.stage
    have hstatus : (remember m (start s w)).session.lastStatus = 0 := by
      rw [hr]
      exact hs.lastStatus
    have hheld : last.journal.held = [] := (hloop.forall_ran (held_invariant m) rfl).2
    have hbefore := (hloop.forall_ran (closings_invariant m) rfl).2
    have hremembers := (hloop.forall_ran (remembers_invariant m _ _ _) (remembers_remember_of_isNew m hs.toIsNew w)).2
    exact ⟨hloop.ends hl hstatus, closes hheld hbefore, hremembers, hloop.withWriter⟩
  · obtain ⟨trace, last, hloop, hr⟩ := exists_loop_run m bs (start s w)
    obtain ⟨rest, hlines, hrest, -⟩ := raws_run m bs hs.toIsNew w
    rw [hr] at hlines hrest
    rw [raws_close] at hlines
    refine ⟨trace, last, hloop, hr, fun hl => ?_⟩
    cases rest with
    | nil => rw [hlines, List.append_nil]
    | cons raw rest =>
      have hleft := hrest (by simp)
      rw [isLeaving_close, hl] at hleft
      cases hleft

/-- A bare `exit` behind one that fails, a failed gate, an empty segment and a blank line. -/
theorem run_ends_with_bare_exit :
    let m := Bench.machine
    let s := Session.start "sh".toList {} .empty
    let bs := Utf8.encode "exit x; ; /bin/false && /bin/true # c\n\nexit; /bin/true\n/bin/true\n".toList
    let r := run m (.ofBytes bs) (start s Bench.plain)
    s.IsFresh ∧ r.status = 1 ∧
      r.journal.commands.map (·.2) =
        [["exit".toList, "x".toList], [], ["/bin/false".toList], ["exit".toList]] ∧
      ∃ trace last, Loop m (.ofBytes bs) (remember m (start s Bench.plain)) trace last ∧
        r = close m last ∧ Loop.Ends m trace last 1 ∧ Closes m last := by
  intro m s bs r
  have hs : s.IsFresh := Session.isFresh_start ..
  have hstatus : r.status = 1 := by decide +kernel
  obtain ⟨hall, hoctets, -⟩ := run_ends m s hs Bench.plain
  obtain ⟨trace, last, hloop, hr, -⟩ := hoctets bs
  obtain ⟨hends, hcloses, -⟩ := hall _ _ _ hloop
  rw [← hr] at hends
  exact ⟨hs, hstatus, by decide +kernel, trace, last, hloop, hr, hstatus ▸ hends, hcloses⟩

end Shell

end LineShell
