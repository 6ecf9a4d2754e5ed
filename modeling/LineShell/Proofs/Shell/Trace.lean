import LineShell.Proofs.Shell.Course
import LineShell.Proofs.Shell.Invariant

/-!
# All along a run

* `Loop.forall_ran` : what every step keeps holds in front of each segment that is run, and at the end;
* `exists_loop` : working through octets is a loop that ends, whatever has been started before;
  `exists_loop_or_lines` : so it is with any source, unless as many lines are read as may be;
* `Session.IsNew` : a session that has neither read nor recorded a line;
* `session_remember` : loading the history changes nothing but the history;
* `named_invariant` : the shell's name and its settings stay as they are.
-/

namespace LineShell

structure Session.IsNew (s : Session) : Prop where
  cursor : s.cursor = .exhausted
  lineCount : s.lineCount = 0
  uncounted : s.uncounted = false
  history : s.history = .empty s.settings.maxHistory
  historyWritable : s.historyWritable = true

theorem Session.isNew_start (program : Text) (settings : Settings) (env : Environment) :
    (start program settings env).IsNew := ⟨rfl, rfl, rfl, rfl, rfl⟩

namespace Shell

variable {ω : Type} {m : Machine ω} {source : Source} {sh last : Shell ω} {trace : List (Ran ω)}

theorem Loop.forall_ran {P : Shell ω → Prop} (hP : Invariant m P) (h : Loop m source sh trace last)
    (hs : P sh) : (∀ r ∈ trace, P r.shell) ∧ P last := by
  have hasked : ∀ sh : Shell ω, P sh → P sh.asked := fun sh hsh => hP.withCursor _ sh hsh
  have hread : ∀ (sh : Shell ω) (source source' : Source) (reading : Reading) (w : ω), P sh →
      source.next m sh.world = (reading, source', w) → P { sh.asked.ask with world := w } := by
    intro sh source source' reading w hsh hr
    obtain rfl : (source.next m sh.world).2.2 = w := by rw [hr]
    exact hP.next source sh.asked.ask (hP.ask _ (hasked sh hsh))
  induction h using Loop.rec_turns with
  | left _ _ _ => exact ⟨List.forall_mem_nil _, hs⟩
  | ran _ sh _ segment _ _ _ _ ih =>
    obtain ⟨htrace, hlast⟩ := ih (hP.execute segment _ (hasked sh hs))
    exact ⟨List.forall_mem_cons.2 ⟨hasked sh hs, htrace⟩, hlast⟩
  | line source source' sh _ raw w _ _ _ hr _ ih =>
    have hraw : '\n' ∉ raw := Source.not_mem_of_next (congrArg Prod.fst hr)
    exact ih (hP.receive raw _ hraw (hread sh source source' (.line raw) w hs hr))
  | stopped source source' sh failure w _ _ hr =>
    exact ⟨List.forall_mem_nil _, hP.endInput failure _ (hread sh source source' _ w hs hr)⟩

theorem exists_loop (m : Machine ω) (bs : Bytes) (sh : Shell ω) :
    ∃ trace, Loop m (.ofBytes bs) (remember m sh) trace (work isLeaving m (.ofBytes bs) sh) := by
  obtain ⟨front, hfront, -⟩ :=
    drain_course m (Nat.lt_succ_self (remember m sh).session.cursor.size)
  obtain ⟨trace, hloop, -⟩ := feedLines_course m (show Bytes.textLines bs = _ from rfl)
    (finishLine_done isLeaving m (remember m sh))
  rw [work_ofBytes]
  exact ⟨front ++ trace, hfront _ _ _ hloop⟩

theorem exists_loop_run (m : Machine ω) (bs : Bytes) (sh : Shell ω) :
    ∃ trace last, Loop m (.ofBytes bs) (remember m sh) trace last ∧
      run m (.ofBytes bs) sh = close m last := by
  obtain ⟨trace, hloop⟩ := exists_loop m bs sh
  unfold run
  exact ⟨trace, _, hloop, rfl⟩

/-! ## What was read -/

theorem readings_execute (m : Machine ω) (segment : Text) (sh : Shell ω) :
    (execute m segment sh).journal.readings = sh.journal.readings :=
  (view_execute (fun _ => rfl) ..).trans (List.append_nil _)

theorem readings_ask (sh : Shell ω) : sh.ask.journal.readings = sh.journal.readings :=
  view_ask (fun _ => rfl) sh

theorem readings_receive (raw : Text) (sh : Shell ω) :
    (sh.receive raw).journal.readings = sh.journal.readings ++ [.line raw] := view_receive raw sh

theorem readings_finishLine (m : Machine ω) (sh : Shell ω) :
    (finishLine isLeaving m sh).journal.readings = sh.journal.readings :=
  view_drain (fun _ => rfl) (fun _ _ => rfl) isLeaving m _ sh

theorem readings_close (m : Machine ω) (sh : Shell ω) : (close m sh).journal.readings = sh.journal.readings :=
  view_close (fun _ => rfl) (fun _ _ => rfl) rfl m sh

theorem readings_line (raw : Text) (sh : Shell ω) (w : ω) :
    ({ sh.ask with world := w }.receive raw).journal.readings = sh.journal.readings ++ [.line raw] :=
  (readings_receive raw _).trans (congrArg (· ++ _) (readings_ask sh))

theorem readings_stopped (failure : Option SysError) (sh : Shell ω) (w : ω) :
    ({ sh.ask with world := w }.endInput failure).journal.readings =
      sh.journal.readings ++ [lastReading failure] := by
  refine (view_endInput (fun _ => rfl) failure _).trans ?_
  exact congrArg (· ++ [lastReading failure]) (readings_ask sh)

/-! ## Any source -/

theorem exists_loop_of_feed (m : Machine ω) (fuel : Nat) {source : Source} {sh : Shell ω}
    (hdone : sh.isLeaving = true ∨ sh.session.cursor = .exhausted) :
    (∃ trace, Loop m source sh trace (feed isLeaving m fuel source sh)) ∨
      ∃ raws : List Text, raws.length = fuel ∧
        (feed isLeaving m fuel source sh).journal.readings = sh.journal.readings ++ raws.map .line := by
  induction fuel generalizing source sh with
  | zero => exact .inr ⟨[], rfl, (List.append_nil _).symm⟩
  | succ fuel ih =>
    rw [feed]
    by_cases hl : sh.isLeaving = true
    · rw [if_pos hl]
      exact .inl ⟨[], .left hl⟩
    · rw [if_neg hl]
      have hn := nextSegment_of_exhausted (hdone.resolve_left hl)
      replace hl : sh.isLeaving = false := Bool.eq_false_iff.2 hl
      obtain ⟨reading, source', w, hr⟩ : ∃ reading source' w, source.next m sh.world = (reading, source', w) :=
        ⟨_, _, _, rfl⟩
      have hr' : source.next m sh.ask.world = (reading, source', w) := hr
      dsimp only
      rw [hr']
      cases reading with
      | line raw =>
        dsimp only
        obtain ⟨trace, hloop⟩ | ⟨raws, hlength, hread⟩ :=
          @ih source' (finishLine isLeaving m ({ sh.ask with world := w }.receive raw))
            (finishLine_done isLeaving m _)
        · obtain ⟨front, hfront, -⟩ := drain_course m
            (Nat.lt_succ_self ({ sh.ask with world := w }.receive raw).session.cursor.size)
          exact .inl ⟨front ++ trace, .line hl hn hr (hfront _ _ _ hloop)⟩
        · refine .inr ⟨raw :: raws, congrArg (· + 1) hlength, ?_⟩
          rw [hread, readings_finishLine, readings_line, List.append_assoc]
          rfl
      | ended => exact .inl ⟨[], .ended hl hn hr⟩
      | failed e' => exact .inl ⟨[], .failed hl hn hr⟩

/-- To work through a source is a loop that ends, unless as many lines are read as a run reads at most. -/
theorem exists_loop_or_lines (m : Machine ω) (source : Source) (sh : Shell ω) :
    (∃ trace, Loop m source (remember m sh) trace (work isLeaving m source sh)) ∨
      ∃ raws : List Text, raws.length = source.reads ∧
        (run m source sh).journal.readings = sh.journal.readings ++ raws.map .line := by
  obtain ⟨front, hfront, -⟩ := drain_course m (Nat.lt_succ_self (remember m sh).session.cursor.size)
  obtain ⟨trace, hloop⟩ | ⟨raws, hlength, hread⟩ :=
    exists_loop_of_feed m source.reads (finishLine_done isLeaving m (remember m sh))
  · exact .inl ⟨front ++ trace, hfront _ _ _ hloop⟩
  · refine .inr ⟨raws, hlength, ?_⟩
    rw [run, readings_close, work, hread, readings_finishLine]
    rfl

theorem exists_loop_run_or_lines (m : Machine ω) (source : Source) (sh : Shell ω) :
    (∃ trace last, Loop m source (remember m sh) trace last ∧ run m source sh = close m last) ∨
      ∃ raws : List Text, raws.length = source.reads ∧
        (run m source sh).journal.readings = sh.journal.readings ++ raws.map .line :=
  (exists_loop_or_lines m source sh).imp_left fun ⟨trace, hloop⟩ => ⟨trace, _, hloop, rfl⟩

/-! ## What stays -/

theorem session_remember (m : Machine ω) (sh : Shell ω) :
    ∃ history historyWritable,
      (remember m sh).session = { sh.session with history, historyWritable } := by
  unfold remember Session.loadHistory
  cases sh.session.historyPath with
  | none => exact ⟨sh.session.history, sh.session.historyWritable, rfl⟩
  | some path =>
    dsimp only
    cases sh.session.history.load ((m.readFile sh.world path).map (·.1)) with
    | mk result history => cases result <;> exact ⟨_, _, rfl⟩

theorem session_endInput (failure : Option SysError) (sh : Shell ω) :
    (sh.endInput failure).session = sh.session := by cases failure <;> rfl

/-- The name that the shell was started by and its settings stay as they are. -/
theorem named_invariant (m : Machine ω) (program : Text) (settings : Settings) :
    Invariant m fun sh => sh.session.program = program ∧ sh.session.settings = settings where
  withCursor _ _ h := h
  execute segment sh h := by
    obtain ⟨_, _, _, _, _, _, _, hs⟩ := session_execute m segment sh
    rw [hs]
    exact h
  ask _ h := h
  next _ _ h := h
  receive _ _ _ h := h
  endInput failure sh h := by
    rw [session_endInput]
    exact h

end Shell

end LineShell
