import LineShell.CommandLine
import LineShell.Proofs.Command.Places
import LineShell.Proofs.Shell.Ending
import LineShell.Proofs.Shell.Order

/-!
# Runs whose input cannot be read

A read may fail at any point of a run: at once, if the script is a directory, or behind any number of lines.

* `Loop.of_failed` : the loop stops at the first read that fails, and nothing comes behind it;
* `exists_loop_of_failed` : a run that meets such a read is a loop that ends;
* `Unread` : what such a run does, up to its status; `Fails` : the same, and its status says so.

`run_unread` : it does just that, but its status is that of the last command.
-/

namespace LineShell.Shell

variable {ω : Type} {m : Machine ω} {source : Source} {sh last : Shell ω} {trace : List (Ran ω)}
  {s : Session} {w : ω} {e : SysError}

/-! ## The loop -/

/-- Where a read fails the loop ends. All that was read before are lines. -/
theorem Loop.of_failed (h : Loop m source sh trace last) (hheld : sh.journal.held = [])
    (hnot : .failed e ∉ sh.journal.readings) (hfailed : .failed e ∈ last.journal.readings) :
    ∃ (front : Shell ω) (w : ω) (raws : List Text),
      last = ({ front.ask with world := w } : Shell ω).endInput (some e) ∧ front.isLeaving = false ∧
      front.journal.held = [] ∧ front.journal.readings = sh.journal.readings ++ raws.map .line := by
  induction h using Loop.rec_turns with
  | left _ _ _ => exact absurd hfailed hnot
  | ran _ sh _ segment _ _ _ _ ih =>
    have hreadings : (execute m segment sh.asked).journal.readings = sh.journal.readings :=
      readings_execute m segment sh.asked
    obtain ⟨front, w, raws, hlast, hl, hfront, hread⟩ :=
      ih ((held_invariant m).execute segment sh.asked hheld) (hreadings ▸ hnot) hfailed
    exact ⟨front, w, raws, hlast, hl, hfront, hread.trans (congrArg (· ++ _) hreadings)⟩
  | line _ _ sh _ raw w _ _ _ _ _ ih =>
    have hreadings : ({ sh.asked.ask with world := w }.receive raw).journal.readings =
        sh.journal.readings ++ [.line raw] := readings_line raw sh.asked w
    obtain ⟨front, w', raws, hlast, hl, hfront, hread⟩ :=
      ih ((held_invariant m).ask sh.asked hheld) (by simpa [hreadings] using hnot) hfailed
    refine ⟨front, w', raw :: raws, hlast, hl, hfront, ?_⟩
    rw [hread, hreadings, List.append_assoc]
    rfl
  | stopped _ _ sh failure w hl _ _ =>
    have hread : .failed e ∈ sh.journal.readings ++ [lastReading failure] :=
      readings_stopped failure sh.asked w ▸ hfailed
    have hlast : lastReading failure = .failed e := by simpa [hnot, eq_comm] using hread
    obtain rfl : failure = some e := by
      cases failure with
      | none => cases hlast
      | some e' => rw [Reading.failed.inj hlast]
    exact ⟨sh.asked, w, [], rfl, hl, hheld, (List.append_nil _).symm⟩

/-- Nothing in a loop leaves a shell that has not been left in the end. -/
theorem Loop.leaves?_of_isLeaving_eq_false (h : Loop m source sh trace last) (hl : last.isLeaving = false) :
    ∀ r ∈ trace, r.leaves? m = none := by
  have hrunning : sh.isLeaving = false := by
    refine Bool.eq_false_iff.2 fun hleaving => ?_
    obtain ⟨-, hlast⟩ := h.unique (.left hleaving)
    rw [← hlast, hleaving] at hl
    cases hl
  obtain ⟨front, r, code, -, rfl, hr, -⟩ | ⟨hnone, -⟩ := h.cases_end hrunning
  · rw [r.isLeaving_after, hr] at hl
    cases hl
  · exact hnone

theorem exists_loop_of_failed (hnot : .failed e ∉ sh.journal.readings)
    (hfailed : .failed e ∈ (run m source sh).journal.readings) :
    ∃ trace last, Loop m source (remember m sh) trace last ∧ run m source sh = close m last := by
  obtain hloop | ⟨raws, -, hread⟩ := exists_loop_run_or_lines m source sh
  · exact hloop
  · simp [hread, hnot] at hfailed

/-! ## The whole run -/

theorem log_failed (m : Machine ω) {sh : Shell ω} (hheld : sh.journal.held = []) (e : SysError) (w : ω) :
    ({ sh.ask with world := w }.endInput (some e)).journal.log =
      sh.journal.log ++ sh.session.manner.ahead.map .wrote ++
        [.read (.failed e), .wrote ⟨.report, unreadReport sh.session.program e⟩] := by
  rw [log_endInput m sh hheld, List.append_assoc]
  rfl

theorem filterMap_readReport? (program : Text) (raws : List Text) (e : SysError) :
    (raws.map Reading.line ++ [Reading.failed e]).filterMap (readReport? program) = [unreadReport program e] := by
  have hlines : (raws.map Reading.line).filterMap (readReport? program) = [] := by
    rw [List.filterMap_map]
    exact List.filterMap_eq_nil_iff.2 fun _ _ => rfl
  rw [List.filterMap_append, hlines]
  rfl

/-- What a run does whose input fails, up to its status. The read that fails comes behind lines only, and the
report of it is the last that is done before closing, which saves the history as at any end; no other report
is about it. The segments in front of it were run, and no `exit` was among them that succeeded. -/
structure Unread (m : Machine ω) (s : Session) (e : SysError) (trace : List (Ran ω)) (last : Shell ω) :
    Prop where
  readings : ∃ raws : List Text, last.journal.readings = raws.map .line ++ [.failed e]
  log : ∃ before, last.journal.log =
    before ++ [.read (.failed e), .wrote ⟨.report, unreadReport s.program e⟩]
  reports : last.journal.reports = trace.filterMap (Ran.report? m) ++ [unreadReport s.program e]
  commands : last.journal.commands = trace.map (Ran.command m)
  leaves : ∀ r ∈ trace, r.leaves? m = none
  closes : Closes m last

theorem Loop.unread (h : Loop m source (remember m (start s w)) trace last)
    (hfailed : .failed e ∈ last.journal.readings) :
    Unread m s e trace last ∧ last.status = Shell.lastStatus m s.lastStatus trace := by
  obtain ⟨_, _, hr⟩ := session_remember m (start s w)
  have hheld : (remember m (start s w)).journal.held = [] := rfl
  have hnot : .failed e ∉ (remember m (start s w)).journal.readings := List.not_mem_nil
  obtain ⟨readings, hlist, -, hreports⟩ := h.reports hheld
  obtain ⟨front, w', raws, rfl, hl, hfront, hread⟩ := h.of_failed hheld hnot hfailed
  -- the failure is met in the shell `front`, which has not been left and is called as from the start
  have hprogram : front.session.program = s.program := by
    have hnamed : (remember m (start s w)).session.program = s.program ∧
        (remember m (start s w)).session.settings = s.settings := by
      rw [hr]
      exact ⟨rfl, rfl⟩
    exact (h.forall_ran (named_invariant m s.program s.settings) hnamed).2.1
  have hstays : ({ front.ask with world := w' }.endInput (some e)).isLeaving = false := hl
  have hclosings := (h.forall_ran (closings_invariant m) rfl).2
  have hstatus := h.lastStatus.2
  rw [hr] at hstatus
  have hreadings : ({ front.ask with world := w' }.endInput (some e)).journal.readings =
      raws.map .line ++ [.failed e] := by
    rw [readings_stopped, hread]
    rfl
  obtain rfl : raws.map Reading.line ++ [.failed e] = readings := hreadings.symm.trans hlist
  refine ⟨⟨⟨raws, hreadings⟩, ⟨_, hprogram ▸ log_failed m hfront e w'⟩, ?_, h.commands,
    h.leaves?_of_isLeaving_eq_false hstays, closes rfl hclosings⟩, ?_⟩
  · rw [hreports, filterMap_readReport?, hr]
    rfl
  · rw [status, finalStatus_of_isLeaving_eq_false hstays, hstatus]
    rfl

/-- What is expected of a run whose input fails: its status says so as well. -/
def Fails (m : Machine ω) (source : Source) (s : Session) (w : ω) (e : SysError) : Prop :=
  ∃ trace last, Loop m source (remember m (start s w)) trace last ∧
    run m source (start s w) = close m last ∧ Unread m s e trace last ∧
    (run m source (start s w)).status ≠ 0

/-- A run whose input fails stops there, reports the failure once and saves the history. Its status is that of
the last command, or the one that it was started with: the failure has no part in it, and so the run ends as
expected exactly if that command failed. -/
theorem run_unread (m : Machine ω) (source : Source) (s : Session) (w : ω) (e : SysError)
    (h : .failed e ∈ (run m source (start s w)).journal.readings) :
    ∃ trace last, Loop m source (remember m (start s w)) trace last ∧
      run m source (start s w) = close m last ∧ Unread m s e trace last ∧
      (run m source (start s w)).status = lastStatus m s.lastStatus trace ∧
      (Fails m source s w e ↔ lastStatus m s.lastStatus trace ≠ 0) := by
  have hnot : .failed e ∉ (start s w).journal.readings := List.not_mem_nil
  obtain ⟨trace, last, hloop, hrun⟩ := exists_loop_of_failed hnot h
  rw [hrun, readings_close] at h
  obtain ⟨hunread, hstatus⟩ := hloop.unread h
  have hclosed : (run m source (start s w)).status = lastStatus m s.lastStatus trace := by
    rw [hrun]
    exact hstatus
  refine ⟨trace, last, hloop, hrun, hunread, hclosed, ?_⟩
  rw [← hclosed]
  constructor
  · rintro ⟨_, _, -, -, -, hne⟩
    exact hne
  · exact fun hne => ⟨trace, last, hloop, hrun, hunread, hne⟩

/-- A script that cannot be read behind its first line, the command of which has failed. -/
theorem run_unread_behind_failed_command :
    let m : Machine Bench :=
      { Bench.machine with readable := fun b handle => { b.readable handle with failure := some .isDirectory } }
    let s := Session.start "sh".toList {} .empty
    let w : Bench := { Bench.plain with files := [("/s".toList, Utf8.encode "nope\n".toList)] }
    let r := run m ⟨[], some (.file 0 0)⟩ (start s w)
    .failed .isDirectory ∈ r.journal.readings ∧ r.status = 127 ∧
      r.journal.reports = ["sh: 1: nope: command not found\n".toList,
        "sh: Is a directory (os error 21)\n".toList].map Utf8.encode ∧
      Fails m ⟨[], some (.file 0 0)⟩ s w .isDirectory := by
  intro m s w r
  have hfailed : .failed .isDirectory ∈ r.journal.readings := by decide +kernel
  have hstatus : r.status = 127 := by decide +kernel
  obtain ⟨trace, last, -, -, -, hlast, hiff⟩ := run_unread m ⟨[], some (.file 0 0)⟩ s w .isDirectory hfailed
  refine ⟨hfailed, hstatus, by decide +kernel, hiff.2 ?_⟩
  rw [← hlast, show (run m ⟨[], some (.file 0 0)⟩ (start s w)).status = 127 from hstatus]
  decide

theorem script_directory :
    Source.script (Host.machine.openFile Host.overlaid "p".toList) "p".toList = .ok ⟨[], some (.file 2 0)⟩ := by
  cbv

theorem ending_commandLine {i : Invocation} (hsource : CommandLine.source m w i = .ok source)
    (hkiller : m.killer?
      ((start (CommandLine.session i) w).work (CommandLine.isOver m) m source).world = none) :
    (CommandLine.run m w i).ending = .exited (CommandLine.codeOf
      (((start (CommandLine.session i) w).work (CommandLine.isOver m) m source).close m).status) := by
  simp only [CommandLine.run, hsource, hkiller]

/-- A script that is a directory can be opened, and cannot be read; the shell ends as if all were well. -/
theorem not_fails_of_directory :
    let m := Host.machine
    let s := Session.start "sh".toList {} .empty
    let source : Source := ⟨[], some (.file 2 0)⟩
    let r := run m source (start s Host.overlaid)
    Source.script (m.openFile Host.overlaid "p".toList) "p".toList = .ok source ∧
      .failed .isDirectory ∈ r.journal.readings ∧
      r.journal.reports = [Utf8.encode "sh: Is a directory (os error 21)\n".toList] ∧ r.status = 0 ∧
      ¬ Fails m source s Host.overlaid .isDirectory ∧
      (CommandLine.run m Host.overlaid ⟨"sh".toList, some "p".toList, []⟩).ending = .exited 0 := by
  intro m s source r
  have hstatus : r.status = 0 := by decide +kernel
  refine ⟨script_directory, by decide +kernel, by decide +kernel, hstatus, ?_, ?_⟩
  · rintro ⟨_, _, -, -, -, hne⟩
    exact hne hstatus
  · let i : Invocation := ⟨"sh".toList, some "p".toList, []⟩
    have hsource : CommandLine.source m Host.overlaid i = .ok source := script_directory
    have hkiller : m.killer? ((start (CommandLine.session i) Host.overlaid).work
        (CommandLine.isOver m) m source).world = none := by decide +kernel
    exact (ending_commandLine hsource hkiller).trans (by decide +kernel)

end LineShell.Shell
