import LineShell.Proofs.Line.Segments
import LineShell.Proofs.Machine
import LineShell.Proofs.Shell.Idle
import LineShell.Proofs.Shell.Loop
import LineShell.Proofs.Source

/-!
# The course of a run

What a shell does with the lines that it is given, told line by line and segment by segment: there is no
cursor to keep and nothing to resume.

* `Course` : the segments that are run, each with the shell in front of it, and the shell at the end;
* `Course.links` : the segments behind one that was run;
* `Course.line`, `Course.lines` : one line, and all lines up to the one that leaves;
* `Loop.map_idle` : the segments that a loop runs are those of the course.

`run_course` : the loop ends, and what it does is this course.
-/

namespace LineShell.Shell

open Line (Link)

variable {ω : Type}

/-- The shell with a line recorded and none to run. -/
def record (raw : Text) (sh : Shell ω) : Shell ω := (sh.receive raw).idle

/-- The segments that were run, each with the shell in front of it, and the shell at the end. -/
structure Course (ω : Type) where
  ran : List (Ran ω)
  last : Shell ω

namespace Course

def cons (r : Ran ω) (c : Course ω) : Course ω := ⟨r :: c.ran, c.last⟩

def append (c d : Course ω) : Course ω := ⟨c.ran ++ d.ran, d.last⟩

/-- The segments behind one that was run. Each is run if `exit` has not been and its link admits the last
status; the first that may not run takes all behind it along. -/
def links (m : Machine ω) : List (Link × Text) → Shell ω → Course ω
  | [], sh => ⟨[], sh⟩
  | (l, segment) :: rest, sh =>
    if sh.isLeaving = false ∧ l.admits sh.session.lastStatus = true then
      (links m rest (execute m segment sh)).cons ⟨segment, sh⟩
    else ⟨[], sh⟩

/-- A line, cut at its comment. A blank one is nothing; of any other the first segment is run. -/
def line (m : Machine ω) (raw : Text) (sh : Shell ω) : Course ω :=
  let text := Line.stripComment raw
  if Text.isBlank text then ⟨[], sh⟩
  else
    let first := (Line.segments text).1
    (links m (Line.segments text).2 (execute m first sh)).cons ⟨first, sh⟩

/-- Line after line, until `exit` has been run or no line is left. -/
def lines (m : Machine ω) : List Text → Shell ω → Course ω
  | [], sh => ⟨[], if sh.isLeaving then sh else sh.ask.endInput none⟩
  | raw :: rest, sh =>
    if sh.isLeaving then ⟨[], sh⟩
    else
      let c := line m raw (sh.ask.record raw)
      c.append (lines m rest c.last)

/-- What is left of a line that is being run. -/
def remaining (m : Machine ω) : Line.Cursor → Shell ω → Course ω
  | .exhausted, sh => ⟨[], sh⟩
  | .pending l rest, sh => links m ((l, (Line.segments rest).1) :: (Line.segments rest).2) sh

theorem links_of_isLeaving {m : Machine ω} {sh : Shell ω} (h : sh.isLeaving = true)
    (ls : List (Link × Text)) : links m ls sh = ⟨[], sh⟩ := by
  cases ls <;> simp [links, h]

theorem remaining_of_isLeaving {m : Machine ω} {sh : Shell ω} (h : sh.isLeaving = true)
    (c : Line.Cursor) : remaining m c sh = ⟨[], sh⟩ := by
  cases c with
  | exhausted => rfl
  | pending l rest => exact links_of_isLeaving h _

/-- A line that has just been loaded is all there is to run. -/
theorem remaining_load {m : Machine ω} {sh : Shell ω} (h : sh.isLeaving = false) (raw : Text) :
    remaining m (.load (Line.stripComment raw)) sh = line m raw sh := by
  unfold line Line.Cursor.load
  dsimp only
  by_cases hb : Text.isBlank (Line.stripComment raw) = true
  · rw [if_pos hb, if_pos hb]
    rfl
  · rw [if_neg hb, if_neg hb]
    exact if_pos ⟨h, rfl⟩

/-- A cursor that gives no segment has nothing left to run. -/
theorem remaining_stop {m : Machine ω} {c : Line.Cursor} {sh : Shell ω}
    (h : (c.next sh.session.lastStatus).1 = none) : remaining m c sh = ⟨[], sh⟩ := by
  cases c with
  | exhausted => rfl
  | pending l rest =>
    have ha : ¬ l.admits sh.session.lastStatus = true := by
      intro ha
      simp only [Line.Cursor.next, if_pos ha] at h
      split at h <;> simp at h
    exact if_neg fun hr => ha hr.2

/-- A cursor that gives a segment has it to run, and then what it has behind it. -/
theorem remaining_step {m : Machine ω} {c c' : Line.Cursor} {sh : Shell ω} {segment : Text}
    (hl : sh.isLeaving = false) (h : c.next sh.session.lastStatus = (some segment, c')) :
    remaining m c sh = (remaining m c' (execute m segment sh)).cons ⟨segment, sh⟩ := by
  cases c with
  | exhausted => simp [Line.Cursor.next] at h
  | pending l rest =>
    simp only [Line.Cursor.next] at h
    split at h
    · next ha =>
      rcases hc : Line.cut rest with ⟨first, _ | ⟨l', rest'⟩⟩
      · rw [hc] at h
        obtain ⟨rfl, rfl⟩ : first = segment ∧ Line.Cursor.exhausted = c' := by simpa using h
        simp only [remaining, Line.segments_of_cut_none hc]
        exact if_pos ⟨hl, ha⟩
      · rw [hc] at h
        obtain ⟨rfl, rfl⟩ : first = segment ∧ Line.Cursor.pending l' rest' = c' := by simpa using h
        simp only [remaining, Line.segments_of_cut_some hc]
        exact if_pos ⟨hl, ha⟩
    · simp at h

end Course

def Ran.idle (r : Ran ω) : Ran ω := ⟨r.segment, r.shell.idle⟩

theorem idle_of_exhausted {sh : Shell ω} (h : sh.session.cursor = .exhausted) : sh.idle = sh := by
  rw [idle, ← h]
  rfl

theorem nextSegment_eq_none {sh : Shell ω} (h : (sh.session.cursor.next sh.session.lastStatus).1 = none) :
    sh.session.nextSegment = (none, sh.idle.session) := by
  refine Prod.ext h ?_
  exact congrArg (fun c => ({ sh.session with cursor := c } : Session)) (Line.Cursor.next_eq_none h)

theorem nextSegment_of_exhausted {sh : Shell ω} (h : sh.session.cursor = .exhausted) :
    sh.session.nextSegment = (none, sh.session) := by
  rw [nextSegment_eq_none (by rw [h]; rfl), idle_of_exhausted h]

/-! ## One line -/

/-- A loop may drop a line of which no segment may run. -/
theorem Loop.of_idle {m : Machine ω} {source : Source} {sh last : Shell ω} {trace : List (Ran ω)}
    (hl : sh.isLeaving = false) (hn : (sh.session.cursor.next sh.session.lastStatus).1 = none)
    (h : Loop m source sh.idle trace last) : Loop m source sh trace last := by
  have hs := nextSegment_eq_none hn
  have hi : sh.idle.session.nextSegment = (none, sh.idle.session) := rfl
  cases h with
  | left hl' => simp [hl] at hl'
  | ran _ hn' _ => simp [hi] at hn'
  | line _ hn' hr rest =>
    obtain rfl : sh.idle.session = _ := (Prod.mk.inj (hi.symm.trans hn')).2
    exact .line hl hs hr rest
  | ended _ hn' hr =>
    obtain rfl : sh.idle.session = _ := (Prod.mk.inj (hi.symm.trans hn')).2
    exact .ended hl hs hr
  | failed _ hn' hr =>
    obtain rfl : sh.idle.session = _ := (Prod.mk.inj (hi.symm.trans hn')).2
    exact .failed hl hs hr

/-- Draining a line is what the loop does with it in front of whatever comes next, and the segments that
are run are those of the line's course. -/
theorem drain_course (m : Machine ω) {fuel : Nat} {sh : Shell ω}
    (hf : sh.session.cursor.size < fuel) :
    ∃ front : List (Ran ω),
      (∀ source trace last, Loop m source (drain isLeaving m fuel sh) trace last →
        Loop m source sh (front ++ trace) last) ∧
      (⟨front.map Ran.idle, (drain isLeaving m fuel sh).idle⟩ : Course ω) =
        Course.remaining m sh.session.cursor sh.idle := by
  -- what comes behind the line is left open, so that the segments of `ih` can be put in front of it
  induction fuel generalizing sh with
  | zero => omega
  | succ fuel ih =>
    rw [drain]
    by_cases hl : sh.isLeaving = true
    · rw [if_pos hl]
      have hi : sh.idle.isLeaving = true := hl
      exact ⟨[], fun _ _ _ h => h, (Course.remaining_of_isLeaving hi _).symm⟩
    · rw [if_neg hl]
      replace hl : sh.isLeaving = false := by simpa using hl
      obtain ⟨next, c, hn⟩ : ∃ next c, sh.session.cursor.next sh.session.lastStatus = (next, c) :=
        ⟨_, _, rfl⟩
      cases next with
      | none =>
        have h1 : (sh.session.cursor.next sh.session.lastStatus).1 = none := congrArg Prod.fst hn
        rw [nextSegment_eq_none h1]
        have hstop : Course.remaining m sh.session.cursor sh.idle = ⟨[], sh.idle⟩ :=
          Course.remaining_stop h1
        exact ⟨[], fun _ _ _ h => h.of_idle hl h1, hstop.symm⟩
      | some segment =>
        have hs : sh.session.nextSegment = (some segment, sh.session.withCursor c) :=
          congrArg (fun r => (r.1, ({ sh.session with cursor := r.2 } : Session))) hn
        have hc : (execute m segment (sh.withCursor c)).session.cursor = c := cursor_execute ..
        have hsize : c.size < fuel := by
          have := Line.Cursor.size_next (congrArg Prod.fst hn)
          rw [hn] at this
          dsimp only at this
          omega
        obtain ⟨front, hloop, hcourse⟩ := @ih (execute m segment (sh.withCursor c)) (by rw [hc]; exact hsize)
        rw [hs]
        refine ⟨⟨segment, sh.withCursor c⟩ :: front, fun source trace last h => ?_, ?_⟩
        · exact .ran hl hs (hloop source trace last h)
        · have hidle : (execute m segment (sh.withCursor c)).idle = execute m segment sh.idle := by
            unfold idle
            rw [← execute_withCursor, withCursor_withCursor]
          have hstep : Course.remaining m sh.session.cursor sh.idle =
              (Course.remaining m c (execute m segment sh.idle)).cons ⟨segment, sh.idle⟩ :=
            Course.remaining_step hl hn
          rw [hc, hidle] at hcourse
          rw [hstep, ← hcourse]
          rfl

/-! ## All lines -/

theorem feedLines_course (m : Machine ω) {bs : Bytes} {ls : List Text} (hb : Bytes.textLines bs = ls)
    {sh : Shell ω} (hd : sh.isLeaving = true ∨ sh.session.cursor = .exhausted) :
    ∃ trace, Loop m (Source.ofBytes bs) sh trace (feedLines isLeaving m ls sh) ∧
      (⟨trace.map Ran.idle, (feedLines isLeaving m ls sh).idle⟩ : Course ω) =
        Course.lines m ls sh.idle := by
  induction ls generalizing bs sh with
  | nil =>
    unfold feedLines Course.lines
    by_cases hl : sh.isLeaving = true
    · rw [if_pos hl, if_pos (show sh.idle.isLeaving = true from hl)]
      exact ⟨[], .left hl, rfl⟩
    · rw [if_neg hl, if_neg (show ¬ sh.idle.isLeaving = true from hl)]
      replace hl : sh.isLeaving = false := by simpa using hl
      have hc : sh.session.cursor = .exhausted := hd.resolve_left (by simp [hl])
      have hi : sh.idle = sh := idle_of_exhausted hc
      have hn := nextSegment_of_exhausted hc
      have he : (sh.ask.endInput none).idle = sh.ask.endInput none := idle_of_exhausted hc
      refine ⟨[], .ended hl hn (Source.next_of_textLines_eq_nil m sh.world hb), ?_⟩
      rw [hi, he]
      rfl
  | cons raw rest ih =>
    unfold feedLines Course.lines
    by_cases hl : sh.isLeaving = true
    · rw [if_pos hl, if_pos (show sh.idle.isLeaving = true from hl)]
      exact ⟨[], .left hl, rfl⟩
    · rw [if_neg hl, if_neg (show ¬ sh.idle.isLeaving = true from hl)]
      replace hl : sh.isLeaving = false := by simpa using hl
      have hc : sh.session.cursor = .exhausted := hd.resolve_left (by simp [hl])
      have hi : sh.idle = sh := idle_of_exhausted hc
      have hn := nextSegment_of_exhausted hc
      obtain ⟨bs', hr, hb'⟩ := Source.next_of_textLines_eq_cons m sh.world hb
      -- the line is drained, and the lines behind it are read from there
      obtain ⟨front, hloop, hcourse⟩ := drain_course m (Nat.lt_succ_self (sh.ask.receive raw).session.cursor.size)
      obtain ⟨trace, hrest, hlines⟩ := ih hb' (finishLine_done isLeaving m (sh.ask.receive raw))
      refine ⟨front ++ trace, .line hl hn hr (hloop _ _ _ hrest), ?_⟩
      have hl' : (sh.ask.record raw).isLeaving = false := hl
      have hline : Course.line m raw (sh.ask.record raw) =
          ⟨front.map Ran.idle, (finishLine isLeaving m (sh.ask.receive raw)).idle⟩ :=
        (Course.remaining_load hl' raw).symm.trans hcourse.symm
      rw [hi, hline, List.map_append]
      exact congrArg (Course.append ⟨front.map Ran.idle, _⟩) hlines

/-- The segments that a loop over some octets runs are those of the course of their lines. -/
theorem Loop.map_idle {m : Machine ω} {bs : Bytes} {sh last : Shell ω} {trace : List (Ran ω)}
    (h : Loop m (.ofBytes bs) sh trace last) (hc : sh.session.cursor = .exhausted) :
    trace.map Ran.idle = (Course.lines m (Bytes.textLines bs) sh).ran := by
  obtain ⟨found, hfound, hcourse⟩ := feedLines_course m (show Bytes.textLines bs = _ from rfl) (.inr hc)
  obtain ⟨rfl, -⟩ := h.unique hfound
  rw [idle_of_exhausted hc] at hcourse
  exact congrArg Course.ran hcourse

/-! ## The whole run -/

theorem cursor_remember (m : Machine ω) (sh : Shell ω) :
    (remember m sh).session.cursor = sh.session.cursor := by
  unfold remember Session.loadHistory
  cases sh.session.historyPath with
  | none => rfl
  | some path =>
    dsimp only
    cases (sh.session.history.load ((m.readFile sh.world path).map (·.1))) with
    | mk result history => cases result <;> rfl

theorem finishLine_of_exhausted (m : Machine ω) {sh : Shell ω} (h : sh.session.cursor = .exhausted) :
    finishLine isLeaving m sh = sh := by
  rw [finishLine, h, drain]
  split
  · rfl
  · rw [nextSegment_of_exhausted h]

/-- Started with no line loaded, in front of any octets, the loop ends and does so in one way only. The
run closes the shell that it ends in. The segments that are run, each with the shell that it is expanded
and run in, are those of the course of the lines; and the journal tells of each of them once and in
order, with its words. -/
theorem run_course (m : Machine ω) (bs : Bytes) (sh : Shell ω)
    (hc : sh.session.cursor = .exhausted) :
    ∃ trace last,
      Loop m (Source.ofBytes bs) (remember m sh) trace last ∧
      (∀ trace' last', Loop m (Source.ofBytes bs) (remember m sh) trace' last' →
        trace' = trace ∧ last' = last) ∧
      run m (Source.ofBytes bs) sh = close m last ∧
      (⟨trace.map Ran.idle, last.idle⟩ : Course ω) =
        Course.lines m (Bytes.textLines bs) (remember m sh) ∧
      (run m (Source.ofBytes bs) sh).journal.commands =
        sh.journal.commands ++ trace.map (Ran.command m) := by
  have hr : (remember m sh).session.cursor = .exhausted := (cursor_remember m sh).trans hc
  have hw : work isLeaving m (Source.ofBytes bs) sh =
      feedLines isLeaving m (Bytes.textLines bs) (remember m sh) := by
    rw [work_ofBytes, finishLine_of_exhausted m hr]
  obtain ⟨trace, hloop, hcourse⟩ :=
    feedLines_course m (show Bytes.textLines bs = _ from rfl) (.inr hr)
  rw [idle_of_exhausted hr] at hcourse
  refine ⟨trace, _, hloop, fun _ _ h => hloop.unique h, congrArg (close m) hw, hcourse, ?_⟩
  have hlast : (run m (Source.ofBytes bs) sh).journal.commands =
      (work isLeaving m (Source.ofBytes bs) sh).journal.commands :=
    view_close (fun _ => rfl) (fun _ _ => rfl) rfl m _
  rw [hlast, hw, hloop.commands]
  rfl

/-- A gate that fails takes the rest of its line along, and `exit` the lines behind. -/
theorem run_course_of_three_lines :
    let m := Bench.machine
    let bs := Utf8.encode "/bin/false && a; b || c\n/bin/true; exit 3; d\ne\n".toList
    let sh := start (Session.start "sh".toList {} .empty) Bench.plain
    sh.session.cursor = .exhausted ∧
      (run m (Source.ofBytes bs) sh).journal.commands =
        [("/bin/false ".toList, ["/bin/false".toList]), ("/bin/true".toList, ["/bin/true".toList]),
          (" exit 3".toList, ["exit".toList, "3".toList])] ∧
      ∃ trace last,
        Loop m (Source.ofBytes bs) (remember m sh) trace last ∧
        (∀ trace' last', Loop m (Source.ofBytes bs) (remember m sh) trace' last' →
          trace' = trace ∧ last' = last) ∧
        run m (Source.ofBytes bs) sh = close m last ∧
        (⟨trace.map Ran.idle, last.idle⟩ : Course Bench) =
          Course.lines m (Bytes.textLines bs) (remember m sh) ∧
        (run m (Source.ofBytes bs) sh).journal.commands =
          sh.journal.commands ++ trace.map (Ran.command m) :=
  ⟨rfl, by decide +kernel, run_course Bench.machine _ _ rfl⟩

end LineShell.Shell
