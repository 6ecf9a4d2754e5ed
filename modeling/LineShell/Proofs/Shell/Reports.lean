import LineShell.Proofs.Failure
import LineShell.Proofs.Shell.Tally

/-!
# Reports

* `Journal.reports` : what the shell has reported; no output is held back in front of it
  (`held_invariant`);
* `Ran.outcome?` : the result of the command of a segment; `Ran.Answered` : what the shell makes of it;
* `Loop.reports` : the reports of a loop are those of the segments that it runs, and then that of a read that
  fails.

`run_reports` : the counter and the reports of a whole run.
-/

namespace LineShell

variable {ω : Type}

/-- The status that a fault has of its own; the commands of the shell fail without one, but for `exit`. -/
def Fault.ownStatus? : Fault → Option Status
  | setenvArguments | unsetenvArguments | badVariableName _ | cannotEnter _ | lostDirectory => none
  | f => some f.status

theorem Fault.status_eq (f : Fault) : f.status = f.ownStatus?.getD 1 := by cases f <;> rfl

def Event.report? : Event → Option Bytes
  | .wrote ⟨.report, bytes⟩ => some bytes
  | _ => none

namespace Journal

/-- What the shell has reported on the error stream. -/
def reports (j : Journal) : List Bytes := j.view Event.report?

theorem reports_note {e : Event} (h : e.report? = none) (j : Journal) :
    (j.note e).reports = j.reports := by
  unfold reports
  rw [view_note, h]
  exact List.append_nil _

/-! ## Output that is not held back -/

variable {j : Journal} (h : j.held = [])

include h

theorem flush_of_held : j.flush = j := by
  unfold flush
  rw [h]
  exact congrArg (Journal.mk j.events) h.symm

theorem reports_flush : j.flush.reports = j.reports := by rw [flush_of_held h]

theorem reports_scope (origin : Origin) (ho : origin ≠ .report) (bytes : Bytes) :
    (j.scope origin bytes).reports = j.reports := by
  have hscope : j.scope origin bytes = j.note (.wrote ⟨origin, bytes⟩) := by
    unfold scope write flush note
    rw [h]
    rfl
  rw [hscope, reports_note]
  cases origin <;> first | rfl | exact absurd rfl ho

theorem reports_report (message : Text) :
    (j.report message).reports = j.reports ++ [Utf8.encode (message ++ ['\n'])] := by
  rw [report, flush_of_held h]
  exact view_note ..

theorem reports_relay (written : List (Stream × Bytes)) : (j.relay written).reports = j.reports := by
  refine (view_relay_flush (fun _ _ => rfl) j written).trans ?_
  rw [flush_of_held h]
  rfl

end Journal

namespace Shell

/-! ## What becomes of a command -/

/-- Runs a command; the shell behind it and its result. -/
def answer (m : Machine ω) (name : Text) (argv : List Text) (sh : Shell ω) :
    Shell ω × Except Fault Status :=
  match Builtin.named? name with
  | some b => runBuiltin m b argv sh
  | none => runProgram m name argv sh

/-- The status that a command's result stands for. -/
def resultStatus : Except Fault Status → Status
  | .ok status => status
  | .error f => f.status

theorem lastStatus_settle (name : Text) (result : Except Fault Status) (sh : Shell ω) :
    (sh.settle name result).session.lastStatus = resultStatus result := by
  cases result <;> rfl

/-- The shell that runs the command of a segment. -/
def opened (segment : Text) (words : List Text) (sh : Shell ω) : Shell ω :=
  ⟨{ sh.session with argv := [] }, sh.world, sh.journal.note (.ran segment words)⟩

theorem command_eq_settle (m : Machine ω) (name : Text) (argv : List Text) (sh : Shell ω) :
    sh.command m name argv = (answer m name argv sh).1.settle name (answer m name argv sh).2 := by
  unfold command answer
  cases Builtin.named? name <;> rfl

theorem journal_answer (m : Machine ω) (name : Text) (argv : List Text) {sh : Shell ω}
    (h : sh.journal.held = []) :
    (answer m name argv sh).1.journal.held = [] ∧
      (answer m name argv sh).1.journal.reports = sh.journal.reports := by
  unfold answer
  cases Builtin.named? name with
  | some b =>
    refine ⟨rfl, ?_⟩
    exact Journal.reports_scope h .command (by decide) _
  | none =>
    dsimp only [runProgram]
    split
    · exact ⟨h, rfl⟩
    · exact ⟨(Journal.relay_flush ..).2, Journal.reports_relay h _⟩

theorem program_answer (m : Machine ω) (name : Text) (argv : List Text) (sh : Shell ω) :
    (answer m name argv sh).1.session.program = sh.session.program := by
  have hcommand : (sh.command m name argv).session.program = sh.session.program := by
    obtain ⟨_, _, _, _, _, _, hs⟩ := session_command m name argv sh
    rw [hs]
  obtain ⟨_, hs⟩ := session_settle name (answer m name argv sh).2 (answer m name argv sh).1
  rw [command_eq_settle, hs] at hcommand
  exact hcommand

theorem stage_answer_of_error {m : Machine ω} {name : Text} {argv : List Text} {sh : Shell ω} {f : Fault}
    (h : (answer m name argv sh).2 = .error f) :
    (answer m name argv sh).1.session.stage = sh.session.stage := by
  unfold answer at h ⊢
  cases hb : Builtin.named? name with
  | some b =>
    rw [hb] at h
    have herror : (b.run m argv sh.session.countCommand sh.world).result = .error f := h
    show (b.run m argv sh.session.countCommand sh.world).session.stage = _
    obtain ⟨-, hs, -⟩ | ⟨-, -, -, -, hs⟩ := Builtin.run_error herror
    · rw [hs]
      rfl
    · rw [hs]
      rfl
  | none =>
    have hcount : sh.session.countLine.stage = sh.session.stage := by
      obtain ⟨_, _, hc⟩ := session_countLine sh.session
      rw [hc]
    dsimp only [runProgram]
    split
    · exact hcount
    · rw [External.session_run]
      exact hcount

namespace Ran

def after (m : Machine ω) (r : Ran ω) : Shell ω := execute m r.segment r.shell

/-- The words of a segment that was run. -/
def words (m : Machine ω) (r : Ran ω) : List Text := r.shell.session.wordsOf m.pid r.segment

/-- The name and the result of the command that was run; none without words. -/
def outcome? (m : Machine ω) (r : Ran ω) : Option (Text × Except Fault Status) :=
  match r.shell.session.wordsOf m.pid r.segment with
  | [] => none
  | name :: args =>
    some (name, (answer m name (name :: args) (r.shell.opened r.segment (name :: args))).2)

end Ran

/-- What is reported of a command that fails. -/
def complaint (program : Text) (n : Nat) (name : Text) (f : Fault) : Bytes :=
  Utf8.encode (program ++ ": ".toList ++ Text.ofNat n ++ ": ".toList ++ name ++ ": ".toList ++ f.message ++
    ['\n'])

/-- A segment without words and a command that gives a status are not reported, one that fails is, with
the counter behind it; then the last status is the fault's, and the shell goes on. -/
structure Ran.Answered (m : Machine ω) (program : Text) (r : Ran ω) : Prop where
  wordless : r.outcome? m = none →
    (r.after m).journal.reports = r.shell.journal.reports ∧
    (r.after m).session.lastStatus = r.shell.session.lastStatus
  done : ∀ name status, r.outcome? m = some (name, .ok status) →
    (r.after m).journal.reports = r.shell.journal.reports ∧ (r.after m).session.lastStatus = status
  failed : ∀ name f, r.outcome? m = some (name, .error f) →
    (r.after m).journal.reports = r.shell.journal.reports ++
      [complaint program (r.after m).session.lineCount name f] ∧
    (r.after m).session.lastStatus = f.ownStatus?.getD 1 ∧
    (r.after m).session.stage = r.shell.session.stage

theorem execute_of_words {m : Machine ω} {segment name : Text} {args : List Text} {sh : Shell ω}
    (h : sh.session.wordsOf m.pid segment = name :: args) :
    let r := answer m name (name :: args) (sh.opened segment (name :: args))
    execute m segment sh = { r.1.settle name r.2 with
      session := { (r.1.settle name r.2).session with argv := name :: args } } := by
  unfold execute
  rw [h]
  dsimp only
  rw [← command_eq_settle]
  rfl

theorem Ran.after_eq_of_nil {m : Machine ω} {r : Ran ω} (hw : r.words m = []) :
    r.after m = ⟨{ r.shell.session with argv := [] }.countLine, r.shell.world,
      r.shell.journal.note (.ran r.segment [])⟩ := by
  unfold after execute
  rw [show r.shell.session.wordsOf m.pid r.segment = [] from hw]

theorem Ran.outcome?_of_cons {m : Machine ω} {r : Ran ω} {name : Text} {args : List Text}
    (hw : r.words m = name :: args) : r.outcome? m =
      some (name, (answer m name (name :: args) (r.shell.opened r.segment (name :: args))).2) := by
  unfold outcome?
  rw [show r.shell.session.wordsOf m.pid r.segment = name :: args from hw]

theorem Ran.after_of_nil {m : Machine ω} {r : Ran ω}
    (hw : r.shell.session.wordsOf m.pid r.segment = []) :
    r.outcome? m = none ∧ (r.after m).journal.reports = r.shell.journal.reports ∧
      (r.after m).session.lastStatus = r.shell.session.lastStatus := by
  have hafter := after_eq_of_nil hw
  obtain ⟨_, _, hc⟩ := session_countLine { r.shell.session with argv := [] }
  refine ⟨?_, ?_, ?_⟩
  · unfold outcome?
    rw [hw]
  · rw [hafter]
    exact Journal.reports_note rfl _
  · rw [hafter]
    dsimp only
    rw [hc]

/-- With words, some shell has run the command, without reporting anything, and settles its result. -/
theorem Ran.after_of_cons {m : Machine ω} {r : Ran ω} {name : Text} {args : List Text}
    (hw : r.shell.session.wordsOf m.pid r.segment = name :: args) (h : r.shell.journal.held = []) :
    ∃ a : Shell ω × Except Fault Status, r.outcome? m = some (name, a.2) ∧
      r.after m = { a.1.settle name a.2 with
        session := { (a.1.settle name a.2).session with argv := name :: args } } ∧
      a.1.journal.held = [] ∧ a.1.journal.reports = r.shell.journal.reports ∧
      a.1.session.program = r.shell.session.program ∧
      ∀ f, a.2 = .error f → a.1.session.stage = r.shell.session.stage := by
  obtain ⟨hheld, hreports⟩ := @journal_answer ω m name (name :: args)
    (r.shell.opened r.segment (name :: args)) h
  exact ⟨answer m name (name :: args) (r.shell.opened r.segment (name :: args)), outcome?_of_cons hw,
    execute_of_words hw, hheld, hreports.trans (Journal.reports_note rfl _), program_answer ..,
    fun f hf => stage_answer_of_error hf⟩

theorem reports_settle_error {sh : Shell ω} (h : sh.journal.held = []) (name : Text) (f : Fault) :
    (sh.settle name (.error f)).journal.reports = sh.journal.reports ++
      [complaint sh.session.program sh.session.lineCount name f] :=
  Journal.reports_report h _

theorem Ran.answered (m : Machine ω) {r : Ran ω} (h : r.shell.journal.held = []) :
    r.Answered m r.shell.session.program := by
  cases hw : r.shell.session.wordsOf m.pid r.segment with
  | nil =>
    obtain ⟨ho, hsame⟩ := after_of_nil hw
    refine ⟨fun _ => hsame, fun name status hsome => ?_, fun name f hsome => ?_⟩
    · simp [ho] at hsome
    · simp [ho] at hsome
  | cons name args =>
    obtain ⟨a, ho, hafter, hheld, hreports, hprogram, hstage⟩ := after_of_cons hw h
    refine ⟨fun hnone => ?_, fun name' status hsome => ?_, fun name' f hsome => ?_⟩
    · simp [ho] at hnone
    · obtain ⟨rfl, hs⟩ : name = name' ∧ a.2 = .ok status := by simpa [ho] using hsome
      rw [hafter, hs]
      exact ⟨hreports, rfl⟩
    · obtain ⟨rfl, hf⟩ : name = name' ∧ a.2 = .error f := by simpa [ho] using hsome
      have hreport := reports_settle_error hheld name f
      rw [hreports, hprogram] at hreport
      rw [hafter, hf]
      exact ⟨hreport, f.status_eq, hstage f hf⟩

/-- What is reported of a segment. -/
def Ran.report? (m : Machine ω) (r : Ran ω) : Option Bytes :=
  match r.outcome? m with
  | some (name, .error f) =>
    some (complaint r.shell.session.program (r.after m).session.lineCount name f)
  | _ => none

theorem Ran.reports_after (m : Machine ω) {r : Ran ω} (h : r.shell.journal.held = []) :
    (r.after m).journal.reports = r.shell.journal.reports ++ (r.report? m).toList := by
  have hr := Ran.answered m h
  unfold report?
  cases ho : r.outcome? m with
  | none => simpa using (hr.wordless ho).1
  | some p =>
    obtain ⟨name, status | f⟩ := p
    · simpa using (hr.failed name _ ho).1
    · simpa using (hr.done name _ ho).1

/-- The same, with what comes behind the segment. -/
theorem Ran.reports_after_append (m : Machine ω) {r : Ran ω} (h : r.shell.journal.held = [])
    (trace : List (Ran ω)) :
    (r.after m).journal.reports ++ trace.filterMap (Ran.report? m) =
      r.shell.journal.reports ++ (r :: trace).filterMap (Ran.report? m) := by
  rw [Ran.reports_after m h, List.append_assoc, List.filterMap_cons]
  cases r.report? m <;> rfl

/-! ## All along a run -/

theorem held_invariant (m : Machine ω) : Invariant m fun sh => sh.journal.held = [] where
  withCursor _ _ h := h
  execute segment sh h := by
    cases hw : sh.session.wordsOf m.pid segment with
    | nil =>
      unfold execute
      rw [hw]
      exact h
    | cons name args =>
      rw [execute_of_words hw]
      dsimp only
      cases (answer m name (name :: args) (sh.opened segment (name :: args))).2 with
      | ok status => exact (@journal_answer ω m name (name :: args) (sh.opened segment (name :: args)) h).1
      | error f => rfl
  ask sh _ := by
    unfold ask
    dsimp only
    split <;> rfl
  next _ _ h := h
  receive _ _ _ h := h
  endInput failure sh h := by
    cases failure with
    | none =>
      unfold endInput
      dsimp only
      split
      · rfl
      · exact h
    | some e => rfl

theorem reports_ask {sh : Shell ω} (h : sh.journal.held = []) :
    sh.ask.journal.reports = sh.journal.reports := by
  unfold ask
  dsimp only
  split
  · exact Journal.reports_scope h .prompt (by decide) _
  · exact Journal.reports_flush h

/-- A line that was asked for and read is no cause for a report. -/
theorem reports_receive {sh : Shell ω} (h : sh.journal.held = []) (raw : Text) (w : ω) :
    ({ sh.ask with world := w }.receive raw).journal.reports = sh.journal.reports :=
  (Journal.reports_note rfl _).trans (reports_ask h)

/-- What is reported of a read that fails. -/
def unreadReport (program : Text) (e : SysError) : Bytes :=
  Utf8.encode (program ++ ": ".toList ++ e.message ++ ['\n'])

/-- What is reported of a read; only one that fails is. -/
def readReport? (program : Text) : Reading → Option Bytes
  | .failed e => some (unreadReport program e)
  | _ => none

theorem reports_endInput (failure : Option SysError) {sh : Shell ω} (h : sh.journal.held = []) :
    (sh.endInput failure).journal.reports =
      sh.journal.reports ++ (readReport? sh.session.program (lastReading failure)).toList := by
  have hnote : ∀ reading, (sh.journal.note (.read reading)).held = [] := fun _ => h
  cases failure with
  | none =>
    unfold endInput
    dsimp only
    rw [show (readReport? sh.session.program (lastReading none)).toList = [] from rfl, List.append_nil]
    split
    · rw [Journal.reports_scope (hnote _) .farewell (by decide), Journal.reports_note rfl]
    · exact Journal.reports_note rfl _
  | some e =>
    refine (Journal.reports_report (hnote _) _).trans ?_
    rw [Journal.reports_note rfl]
    rfl

/-- Closing tells of the history if it is saved, and of the end. -/
theorem log_close (m : Machine ω) {sh : Shell ω} (h : sh.journal.held = []) :
    (close m sh).journal.log = sh.journal.log ++
      ((sh.session.saveHistory m sh.world).1.map fun p => Event.saved p.1 p.2).toList ++ [.closed] := by
  unfold close
  dsimp only
  rw [Journal.log_note]
  cases (sh.session.saveHistory m sh.world).1 with
  | none =>
    rw [Journal.flush_of_held h]
    exact congrArg (· ++ [Event.closed]) (List.append_nil _).symm
  | some p =>
    have hnote : (sh.journal.note (.saved p.1 p.2)).held = [] := h
    dsimp only
    rw [Journal.flush_of_held hnote, Journal.log_note]
    rfl

theorem reports_close (m : Machine ω) {sh : Shell ω} (h : sh.journal.held = []) :
    (sh.close m).journal.reports = sh.journal.reports := by
  unfold Journal.reports Journal.view
  rw [log_close m h]
  cases (sh.session.saveHistory m sh.world).1 <;> simp [Event.report?]

theorem Loop.isLeaving_ran {m : Machine ω} {source : Source} {sh last : Shell ω} {trace : List (Ran ω)}
    (h : Loop m source sh trace last) : ∀ r ∈ trace, r.shell.isLeaving = false := by
  induction h using Loop.rec_turns with
  | left _ _ _ => exact List.forall_mem_nil _
  | ran _ _ _ _ _ hl _ _ ih => exact List.forall_mem_cons.2 ⟨hl, ih⟩
  | line _ _ _ _ _ _ _ _ _ _ _ ih => exact ih
  | stopped _ _ _ _ _ _ _ _ => exact List.forall_mem_nil _

theorem program_execute (m : Machine ω) (segment : Text) (sh : Shell ω) :
    (execute m segment sh).session.program = sh.session.program := by
  obtain ⟨_, _, _, _, _, _, _, hs⟩ := session_execute m segment sh
  rw [hs]

/-- A loop reports what its segments give cause to, and at last a read that fails; no read of octets does. -/
theorem Loop.reports {m : Machine ω} {source : Source} {sh last : Shell ω} {trace : List (Ran ω)}
    (h : Loop m source sh trace last) (hheld : sh.journal.held = []) :
    ∃ readings, last.journal.readings = sh.journal.readings ++ readings ∧
      (source.handle = none → ∀ e, .failed e ∉ readings) ∧
      last.journal.reports = sh.journal.reports ++ trace.filterMap (Ran.report? m) ++
        readings.filterMap (readReport? sh.session.program) := by
  induction h using Loop.rec_turns with
  | left _ _ _ => exact ⟨[], by simp⟩
  | ran _ sh _ segment trace _ _ _ ih =>
    obtain ⟨readings, hread, hplain, hreports⟩ := ih ((held_invariant m).execute segment sh.asked hheld)
    refine ⟨readings, hread.trans (congrArg (· ++ _) (readings_execute m segment sh.asked)), hplain, ?_⟩
    rw [hreports, program_execute]
    exact congrArg (· ++ _) (@Ran.reports_after_append ω m ⟨segment, sh.asked⟩ hheld trace)
  | line _ _ sh _ raw w _ _ _ hr _ ih =>
    have hreceive : ({ sh.asked.ask with world := w }.receive raw).journal.reports = sh.journal.reports :=
      reports_receive hheld raw w
    obtain ⟨readings, hread, hplain, hreports⟩ := ih ((held_invariant m).ask sh.asked hheld)
    refine ⟨.line raw :: readings, ?_, fun hsource e he => ?_, hreceive ▸ hreports⟩
    · rw [hread, readings_line, List.append_assoc]
      rfl
    · obtain he | he := List.mem_cons.1 he
      · cases he
      · exact hplain (Source.handle_next hsource hr) e he
  | stopped _ _ sh failure w _ _ hr =>
    have hask : sh.asked.ask.journal.held = [] := (held_invariant m).ask sh.asked hheld
    refine ⟨[lastReading failure], readings_stopped failure sh.asked w, fun hsource e he => ?_, ?_⟩
    · cases failure with
      | none => simp [lastReading] at he
      | some e' => exact absurd hr (Source.next_ne_failed hsource)
    · have hasked : sh.asked.ask.journal.reports = sh.journal.reports := reports_ask hheld
      refine (@reports_endInput ω failure ⟨_, w, _⟩ hask).trans ?_
      show sh.asked.ask.journal.reports ++ _ = _
      rw [hasked, List.filterMap_nil, List.append_nil]
      cases failure <;> rfl

/-- The counter of a session that starts anew is the tally wherever something is run, and each segment that is run
is answered. The reports of a loop are those that its segments give cause to, and at last that of a read that fails.
In front of octets there is a loop that ends, and no read fails. A run is such a loop, unless it reads as many lines
as it may. -/
theorem run_reports (m : Machine ω) (s : Session) (hs : s.IsNew) (w : ω) :
    (∀ source trace last, Loop m source (remember m (start s w)) trace last →
      last.session.lineCount = last.journal.tally ∧
      (close m last).session.lineCount = (close m last).journal.tally ∧
      (close m last).journal.reports = trace.filterMap (Ran.report? m) ++
        (close m last).journal.readings.filterMap (readReport? s.program) ∧
      ∀ r ∈ trace,
        r.shell.session.lineCount = r.shell.journal.tally ∧
        (r.after m).session.lineCount = (r.after m).journal.tally ∧
        r.shell.isLeaving = false ∧ r.Answered m s.program) ∧
    (∀ bs, ∃ trace,
      Loop m (.ofBytes bs) (remember m (start s w)) trace (work isLeaving m (.ofBytes bs) (start s w)) ∧
      (run m (.ofBytes bs) (start s w)).session.lineCount =
        (run m (.ofBytes bs) (start s w)).journal.tally ∧
      (run m (.ofBytes bs) (start s w)).journal.reports = trace.filterMap (Ran.report? m)) ∧
    ∀ source, (∃ trace last, Loop m source (remember m (start s w)) trace last ∧
        run m source (start s w) = close m last) ∨
      ∃ raws : List Text, raws.length = source.reads ∧
        (run m source (start s w)).journal.readings = raws.map .line := by
  have hcounts : Counts (remember m (start s w)) := .of_isNew hs m w
  have hprogram : (remember m (start s w)).session.program = s.program ∧
      (remember m (start s w)).session.settings = s.settings := by
    obtain ⟨_, _, hr⟩ := session_remember m (start s w)
    rw [hr]
    exact ⟨rfl, rfl⟩
  have hheld : (remember m (start s w)).journal.held = [] := rfl
  have hreports : ∀ source trace last, Loop m source (remember m (start s w)) trace last →
      (source.handle = none → ∀ e, .failed e ∉ (close m last).journal.readings) ∧
      (close m last).journal.reports = trace.filterMap (Ran.report? m) ++
        (close m last).journal.readings.filterMap (readReport? s.program) := by
    intro source trace last hloop
    obtain ⟨readings, hread, hplain, hreports⟩ := hloop.reports hheld
    have hread' : (close m last).journal.readings = readings := (readings_close m last).trans hread
    have hlast : last.journal.held = [] := (hloop.forall_ran (held_invariant m) hheld).2
    rw [hread', reports_close m hlast, hreports, hprogram.1]
    exact ⟨hplain, rfl⟩
  refine ⟨fun source trace last hloop => ?_, fun bs => ?_, fun source => exists_loop_run_or_lines m source _⟩
  · obtain ⟨htrace, hlast⟩ := hloop.forall_ran (counts_invariant m) hcounts
    obtain ⟨hnames, -⟩ := hloop.forall_ran (named_invariant m s.program s.settings) hprogram
    obtain ⟨hhelds, -⟩ := hloop.forall_ran (held_invariant m) hheld
    refine ⟨hlast.lineCount, (hlast.close m).lineCount, (hreports _ _ _ hloop).2,
      fun r hr => ⟨(htrace r hr).lineCount, ?_, hloop.isLeaving_ran r hr, ?_⟩⟩
    · exact ((htrace r hr).execute m r.segment).lineCount
    · exact (hnames r hr).1 ▸ Ran.answered m (hhelds r hr)
  · obtain ⟨trace, hloop⟩ := exists_loop m bs (start s w)
    have hwork := (hloop.forall_ran (counts_invariant m) hcounts).2
    obtain ⟨hplain, hrun⟩ := hreports _ _ _ hloop
    have hnone : (close m (work isLeaving m (.ofBytes bs) (start s w))).journal.readings.filterMap
        (readReport? s.program) = [] := by
      refine List.filterMap_eq_nil_iff.2 fun reading hr => ?_
      cases reading with
      | failed e => exact absurd hr (hplain rfl e)
      | _ => rfl
    rw [hnone, List.append_nil] at hrun
    exact ⟨trace, hloop, (hwork.close m).lineCount, hrun⟩

/-- Four commands fail, of which the first is no command of the shell's own. -/
theorem run_reports_of_four_faults :
    let m := Bench.machine
    let s := Session.start "sh".toList {} (.ofPairs [("PATH".toList, "/bin".toList)])
    let bs := Utf8.encode "nope; true\n\n# x\nsetenv; cd /a || exit x\ntrue && false\n".toList
    let reports := ["sh: 1: nope: command not found\n".toList,
      "sh: 2: setenv: Number of arguments provided is not correct\n".toList,
      "sh: 3: cd: Cannot cd to /a\n".toList, "sh: 4: exit: Invalid number: x\n".toList].map Utf8.encode
    let r := run m (.ofBytes bs) (start s Bench.plain)
    s.IsNew ∧ r.session.lineCount = 5 ∧ r.journal.reports = reports ∧
      ∃ trace, Loop m (.ofBytes bs) (remember m (start s Bench.plain)) trace
          (work isLeaving m (.ofBytes bs) (start s Bench.plain)) ∧
        trace.filterMap (Ran.report? m) = reports ∧ ∀ r ∈ trace, r.Answered m s.program := by
  intro m s bs reports r
  have hs : s.IsNew := Session.isNew_start ..
  have hreports : r.journal.reports = reports := by decide +kernel
  obtain ⟨hall, hoctets, -⟩ := run_reports m s hs Bench.plain
  obtain ⟨trace, hloop, -, htrace⟩ := hoctets bs
  refine ⟨hs, by decide +kernel, hreports, trace, hloop, htrace.symm.trans hreports, fun r hr => ?_⟩
  obtain ⟨-, -, -, htrace'⟩ := hall _ _ _ hloop
  obtain ⟨-, -, -, hanswered⟩ := htrace' r hr
  exact hanswered

end Shell

end LineShell
