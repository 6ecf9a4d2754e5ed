import LineShell.Proofs.Line.Operators
import LineShell.Proofs.Shell.Continuity
import LineShell.Proofs.Shell.Order

/-!
# What `history` shows

* `Journal.Current` : a segment is of the line that was read last, which is not blank; `Loop.current` : so
  is every segment that is run;
* `regular_invariant` : the entries of the history have their places as numbers all along a run;
* `Ran.Recalls` : what a `history` shows: the last of the lines that were loaded and accepted, each with
  its number, up to the line that it stands in.

`run_recalls` : every `history` of a run does.
-/

namespace LineShell

variable {ω : Type}

/-- The segment is a piece of the line that was read last, and that one is not blank. -/
def Journal.Current (j : Journal) (segment : Text) : Prop :=
  ∃ raw, j.raws.getLast? = some raw ∧ Text.isBlank (Line.stripComment raw) = false ∧
    segment ∈ Line.pieces (Line.stripComment raw)

/-- Texts with their places in front of them. -/
def numberedLines (ts : List Text) : List Text :=
  ts.zipIdx.map fun p => Text.ofNat p.2 ++ ": ".toList ++ p.1

theorem History.Regular.historyLines {cap : Nat} {h : History} (hr : h.Regular cap) :
    h.table.entries.map Builtin.historyLine = numberedLines h.texts := by
  rw [hr.numbered.entries, List.map_map]
  rfl

namespace Shell

variable {m : Machine ω} {source : Source} {sh last : Shell ω} {trace : List (Ran ω)}

/-! ## The current line -/

theorem current_receive (raw : Text) (sh : Shell ω) :
    ∀ p ∈ (sh.receive raw).session.cursor.pieces, (sh.receive raw).journal.Current p := by
  intro p hp
  have hcursor : (sh.receive raw).session.cursor = .load (Line.stripComment raw) := rfl
  rw [hcursor, Line.Cursor.load] at hp
  split at hp
  · cases hp
  · next hb =>
    refine ⟨raw, ?_, Bool.eq_false_iff.2 hb, hp⟩
    rw [raws_receive]
    exact List.getLast?_concat ..

theorem Loop.current (h : Loop m source sh trace last)
    (hc : ∀ p ∈ sh.session.cursor.pieces, sh.journal.Current p) :
    ∀ r ∈ trace, r.shell.journal.Current r.segment := by
  induction h using Loop.rec_turns with
  | left _ _ _ => exact List.forall_mem_nil _
  | ran _ sh _ segment _ _ hn _ ih =>
    -- what is left behind the segment was left in front of it, and no line has been read since
    have hnext : sh.session.cursor.next sh.session.lastStatus = (some segment, sh.asked.session.cursor) :=
      Prod.ext hn rfl
    rw [Line.Cursor.pieces_of_next hnext] at hc
    obtain ⟨hsegment, hrest⟩ := List.forall_mem_cons.1 hc
    refine List.forall_mem_cons.2 ⟨hsegment, ih fun p hp => ?_⟩
    rw [cursor_execute] at hp
    unfold Journal.Current
    rw [raws_execute]
    exact hrest p hp
  | line _ _ _ _ _ _ _ _ _ _ _ ih => exact ih (current_receive _ _)
  | stopped _ _ _ _ _ _ _ _ => exact List.forall_mem_nil _

/-! ## The history -/

theorem regular_invariant (m : Machine ω) (cap : Nat) :
    Invariant m fun sh => sh.session.history.Regular cap where
  withCursor _ _ h := h
  execute segment sh h := by
    obtain ⟨_, _, _, _, _, _, _, hs⟩ := session_execute m segment sh
    rw [hs]
    exact h
  ask _ h := h
  next _ _ h := h
  receive raw sh _ h := by
    rw [history_receive]
    split
    · exact h
    · exact h.add _
  endInput failure sh h := by
    rw [session_endInput]
    exact h

theorem regular_remember (m : Machine ω) {s : Session} (hs : s.IsNew) (w : ω) :
    (remember m (start s w)).session.history.Regular s.settings.maxHistory := by
  have hnew : s.history.Regular s.settings.maxHistory := by
    rw [hs.history]
    exact History.regular_empty _
  cases hp : (start s w).session.historyPath with
  | none =>
    rw [remember_of_none m hp]
    exact hnew
  | some path =>
    rw [(remember_of_some m hp).1]
    exact hnew.load _

/-- What running a `history` shows: the last of the lines `known` and of those that have been accepted,
each behind its place; the last of them is the line that the segment is of, if any line is kept. -/
structure Ran.Recalls (m : Machine ω) (known : List Text) (cap : Nat) (r : Ran ω) : Prop where
  shown : (r.after m).journal.log = r.shell.journal.log ++ [.ran r.segment (r.words m),
    .wrote ⟨.command, Utf8.encode (Builtin.unlines
      (numberedLines ((known ++ accepted r.shell.journal.raws).rtake cap)))⟩]
  latest : 0 < cap → ∃ raw, r.shell.journal.raws.getLast? = some raw ∧
    r.segment ∈ Line.pieces (Line.stripComment raw) ∧
    ((known ++ accepted r.shell.journal.raws).rtake cap).getLast? = some (Line.stripComment raw)

/-- A `history` shows the history and reports nothing. -/
theorem Ran.output_of_history {r : Ran ω} {args : List Text}
    (hw : r.words m = Builtin.history.name :: args) : r.output m = [⟨.command, Utf8.encode (Builtin.unlines
      (r.shell.session.history.table.entries.map Builtin.historyLine))⟩] := by
  have hnamed : Builtin.named? Builtin.history.name = some .history := by decide
  have hreport : r.report? m = none := by
    unfold report? outcome? answer
    rw [show r.shell.session.wordsOf m.pid r.segment = _ from hw]
    dsimp only
    rw [hnamed]
    rfl
  unfold output commandOutput
  rw [hw, hreport]
  dsimp only
  rw [hnamed]
  rfl

theorem Ran.recalls {r : Ran ω} {known : List Text} {cap : Nat} {writable : Bool} {args : List Text}
    (hw : r.words m = Builtin.history.name :: args) (hheld : r.shell.journal.held = [])
    (hr : Remembers known cap writable r.shell) (hregular : r.shell.session.history.Regular cap)
    (hc : r.shell.journal.Current r.segment) : r.Recalls m known cap where
  shown := by
    rw [r.log_after m hheld, output_of_history hw, hregular.historyLines, hr.texts]
    rfl
  latest hcap := by
    obtain ⟨raw, hraw, hb, hsegment⟩ := hc
    refine ⟨raw, hraw, hsegment, ?_⟩
    obtain ⟨front, hfront⟩ := List.getLast?_eq_some_iff.1 hraw
    have haccepted : accepted (front ++ [raw]) = accepted front ++ [Line.stripComment raw] := by
      simp [accepted, hb]
    rw [getLast?_rtake hcap, hfront, haccepted, ← List.append_assoc]
    exact List.getLast?_concat ..

/-- Whatever is done with a new history, its entries have their places as numbers and are the last of those
that it was given. In a loop from a new session every `history` shows the last of the lines that were loaded
and accepted, numbered from zero, up to the line that it stands in. A run is such a loop, over octets always, and
with any source unless it reads as many lines as it may. -/
theorem run_recalls (m : Machine ω) (s : Session) (hs : s.IsNew) (w : ω) :
    (∀ (cap : Nat) (calls : List History.Call) (w : ω), (History.ofCalls m cap w calls).1.Keeps cap) ∧
    (∀ source trace last, Loop m source (remember m (start s w)) trace last →
      ∀ r ∈ trace, ∀ args, r.words m = Builtin.history.name :: args →
        r.Recalls m (remember m (start s w)).session.history.texts s.settings.maxHistory) ∧
    (∀ bs, ∃ trace last, Loop m (.ofBytes bs) (remember m (start s w)) trace last ∧
      run m (.ofBytes bs) (start s w) = close m last) ∧
    ∀ source, (∃ trace last, Loop m source (remember m (start s w)) trace last ∧
        run m source (start s w) = close m last) ∨
      ∃ raws : List Text, raws.length = source.reads ∧
        (run m source (start s w)).journal.readings = raws.map .line := by
  refine ⟨fun cap calls w => (History.regular_ofCalls m cap w calls).keeps, ?_, fun bs => ?_, fun source => ?_⟩
  · intro source trace last hloop r hr args hw
    have hcursor : (remember m (start s w)).session.cursor = .exhausted :=
      (cursor_remember m _).trans hs.cursor
    have hnone : ∀ p ∈ (remember m (start s w)).session.cursor.pieces,
        (remember m (start s w)).journal.Current p := by
      rw [hcursor]
      exact List.forall_mem_nil _
    have hremembers := remembers_remember_of_isNew m hs w
    have hrun := (hloop.forall_ran (remembers_invariant m _ _ _) hremembers).1 r hr
    have hregular := (hloop.forall_ran (regular_invariant m _) (regular_remember m hs w)).1 r hr
    have hheld := (hloop.forall_ran (held_invariant m) rfl).1 r hr
    exact Ran.recalls hw hheld hrun hregular (hloop.current hnone r hr)
  · exact exists_loop_run m bs (start s w)
  · exact exists_loop_run_or_lines m source (start s w)

/-- Three lines are kept, of which one was loaded; `history` is called by an alias. -/
theorem run_recalls_by_alias :
    let m := Bench.machine
    let s := Session.start "sh".toList { maxHistory := 3 } (.ofPairs [("HOME".toList, "/a".toList)])
    let w : Bench := { Bench.plain with
      files := [("/a/.simple_shell_history".toList, Utf8.encode "one\ntwo\n".toList)] }
    let bs := Utf8.encode "alias h=history\n\n/bin/true; h # x\n".toList
    s.IsNew ∧ (run m (.ofBytes bs) (start s w)).journal.transcript =
        Utf8.encode "0: two\n1: alias h=history\n2: /bin/true; h \n".toList ∧
      ∃ trace last, Loop m (.ofBytes bs) (remember m (start s w)) trace last ∧
        ∃ r ∈ trace, r.words m = [Builtin.history.name] ∧ r.segment = " h ".toList ∧
          r.Recalls m ["one".toList, "two".toList] 3 := by
  intro m s w bs
  have hs : s.IsNew := Session.isNew_start ..
  have hknown : (remember m (start s w)).session.history.texts = ["one".toList, "two".toList] := by
    decide +kernel
  have hcommand : (" h ".toList, [Builtin.history.name]) ∈
      (run m (.ofBytes bs) (start s w)).journal.commands := by decide +kernel
  obtain ⟨-, hall, hoctets, -⟩ := run_recalls m s hs w
  obtain ⟨trace, last, hloop, hr⟩ := hoctets bs
  have hcommands : (run m (.ofBytes bs) (start s w)).journal.commands = trace.map (Ran.command m) := by
    rw [hr, show (close m last).journal.commands = last.journal.commands from
      view_close (fun _ => rfl) (fun _ _ => rfl) rfl m last]
    exact hloop.commands
  rw [hcommands] at hcommand
  obtain ⟨r, hmem, hran⟩ := List.mem_map.1 hcommand
  have hwords : r.words m = [Builtin.history.name] := congrArg Prod.snd hran
  have hrecalls := hall _ _ _ hloop r hmem [] hwords
  rw [hknown] at hrecalls
  exact ⟨hs, by decide +kernel, trace, last, hloop, r, hmem, hwords, congrArg Prod.fst hran, hrecalls⟩

end Shell

end LineShell
