import LineShell.Proofs.Shell.Trace

/-!
# The counter

* `Journal.runsByLine` : what was run of each line that was read;
* `Journal.tally` : a number told from what has been done. Each command of the shell's own counts, and
  each line of which something else was run;
* `Counts` : the counter is this number. Every step keeps it so (`counts_invariant`), and it is so in a new
  session (`Counts.of_isNew`).
-/

namespace LineShell

variable {ω : Type}

/-- Whether some words are run by the shell itself. -/
def Builtin.takes (words : List Text) : Bool := (words.head?.bind named?).isSome

/-- A line that was read, or the words of a segment that was run. -/
inductive Mark where
  | line
  | ran (words : List Text)

/-- Sorts what was run by lines, of which the last one stands first. -/
def Mark.sort : List (List (List Text)) → Mark → List (List (List Text))
  | lines, .line => [] :: lines
  | [], .ran _ => []
  | runs :: lines, .ran words => (words :: runs) :: lines

theorem Mark.countP_sort (lines : List (List (List Text))) (words : List Text) :
    (sort lines (.ran words)).countP (·.any (!Builtin.takes ·)) =
      lines.countP (·.any (!Builtin.takes ·)) +
        if !Builtin.takes words && lines.head?.any (·.all Builtin.takes) then 1 else 0 := by
  cases lines with
  | nil => simp [sort]
  | cons runs lines =>
    have hall : runs.any (!Builtin.takes ·) = !runs.all Builtin.takes := List.not_all_eq_any_not.symm
    cases hw : Builtin.takes words <;> cases hr : runs.all Builtin.takes <;>
      simp [sort, hall, hw, hr]

theorem Mark.head?_sort (lines : List (List (List Text))) (words : List Text) :
    (sort lines (.ran words)).head?.any (·.all Builtin.takes) =
      (Builtin.takes words && lines.head?.any (·.all Builtin.takes)) := by
  cases lines with
  | nil => simp [sort]
  | cons runs lines => simp [sort]

def Event.mark? : Event → Option Mark
  | .read (.line _) => some .line
  | .ran _ words => some (.ran words)
  | _ => none

namespace Journal

/-- What was run of each line, the last line first. -/
def runsByLine (j : Journal) : List (List (List Text)) := (j.view Event.mark?).foldl Mark.sort []

/-- How many commands of the shell's own were run, and of how many lines something else. -/
def tally (j : Journal) : Nat :=
  j.commands.countP (Builtin.takes ·.2) + j.runsByLine.countP (·.any (!Builtin.takes ·))

end Journal

namespace Shell

/-! ## What a segment counts -/

theorem counts_settle (name : Text) (result : Except Fault Status) (sh : Shell ω) :
    (sh.settle name result).session.lineCount = sh.session.lineCount ∧
      (sh.settle name result).session.uncounted = sh.session.uncounted := by
  obtain ⟨_, hs⟩ := session_settle name result sh
  rw [hs]
  exact ⟨rfl, rfl⟩

/-- The session when the command with these words has been counted. -/
def counted (words : List Text) (s : Session) : Session :=
  if Builtin.takes words then s.countCommand else s.countLine

theorem counts_command (m : Machine ω) (name : Text) (args : List Text) (sh : Shell ω) :
    (sh.command m name (name :: args)).session.lineCount =
        (counted (name :: args) sh.session).lineCount ∧
      (sh.command m name (name :: args)).session.uncounted =
        (counted (name :: args) sh.session).uncounted := by
  unfold command counted Builtin.takes
  rw [List.head?_cons, Option.bind_some]
  cases Builtin.named? name with
  | some b =>
    obtain ⟨_, _, _, hb⟩ :=
      Builtin.session_run m b (name :: args) sh.session.countCommand sh.world
    obtain ⟨hcount, huncounted⟩ := counts_settle name (runBuiltin m b (name :: args) sh).2
      (runBuiltin m b (name :: args) sh).1
    dsimp only
    rw [hcount, huncounted, show (runBuiltin m b (name :: args) sh).1.session = _ from hb]
    exact ⟨rfl, rfl⟩
  | none =>
    obtain ⟨hcount, huncounted⟩ := counts_settle name (runProgram m name (name :: args) sh).2
      (runProgram m name (name :: args) sh).1
    dsimp only
    rw [hcount, huncounted]
    unfold runProgram
    dsimp only
    split
    · exact ⟨rfl, rfl⟩
    · rw [External.session_run]
      exact ⟨rfl, rfl⟩

theorem counts_execute (m : Machine ω) (segment : Text) (sh : Shell ω) :
    let words := sh.session.wordsOf m.pid segment
    (execute m segment sh).session.lineCount = (counted words sh.session).lineCount ∧
      (execute m segment sh).session.uncounted = (counted words sh.session).uncounted := by
  have hargv : ∀ words argv, (counted words { sh.session with argv }).lineCount =
        (counted words sh.session).lineCount ∧
      (counted words { sh.session with argv }).uncounted = (counted words sh.session).uncounted := by
    intro words argv
    unfold counted Session.countLine
    split
    · exact ⟨rfl, rfl⟩
    · dsimp only
      split <;> exact ⟨rfl, rfl⟩
  unfold execute
  dsimp only
  cases sh.session.wordsOf m.pid segment with
  | nil => exact hargv [] []
  | cons name args =>
    obtain ⟨hcount, huncounted⟩ := counts_command m name args ⟨{ sh.session with argv := [] }, sh.world,
      sh.journal.note (.ran segment (name :: args))⟩
    exact ⟨hcount.trans (hargv _ []).1, huncounted.trans (hargv _ []).2⟩

/-! ## The counter and the tally -/

/-- The counter is the tally, and a line is uncounted as long as only commands of the shell's own were
run of it. -/
structure Counts (sh : Shell ω) : Prop where
  lineCount : sh.session.lineCount = sh.journal.tally
  uncounted : sh.session.uncounted = sh.journal.runsByLine.head?.any (·.all Builtin.takes)

theorem Counts.of_eq {sh sh' : Shell ω} (h : Counts sh)
    (hs : sh'.session.lineCount = sh.session.lineCount ∧ sh'.session.uncounted = sh.session.uncounted)
    (hc : sh'.journal.commands = sh.journal.commands)
    (hm : sh'.journal.view Event.mark? = sh.journal.view Event.mark?) : Counts sh' := by
  have hr : sh'.journal.runsByLine = sh.journal.runsByLine := by
    unfold Journal.runsByLine
    rw [hm]
  refine ⟨?_, by rw [hs.2, hr, h.uncounted]⟩
  unfold Journal.tally
  rw [hs.1, hc, hr, h.lineCount, Journal.tally]

theorem Counts.receive {sh : Shell ω} (h : Counts sh) (raw : Text) : Counts (sh.receive raw) := by
  have hr : (sh.receive raw).journal.runsByLine = [] :: sh.journal.runsByLine := by
    unfold Journal.runsByLine
    rw [view_receive, List.foldl_append]
    simp [Event.mark?, Mark.sort]
  have hc : (sh.receive raw).journal.commands = sh.journal.commands :=
    (view_receive raw sh).trans (List.append_nil _)
  refine ⟨?_, by rw [hr]; rfl⟩
  unfold Journal.tally
  rw [hr, hc, List.countP_cons_of_neg (by simp)]
  exact h.lineCount

theorem Counts.execute (m : Machine ω) (segment : Text) {sh : Shell ω} (h : Counts sh) :
    Counts (execute m segment sh) := by
  obtain ⟨hcount, huncounted⟩ := counts_execute m segment sh
  have hc : (Shell.execute m segment sh).journal.commands =
      sh.journal.commands ++ [(segment, sh.session.wordsOf m.pid segment)] :=
    view_execute (fun _ => rfl) m segment sh
  have hr : (Shell.execute m segment sh).journal.runsByLine =
      Mark.sort sh.journal.runsByLine (.ran (sh.session.wordsOf m.pid segment)) := by
    unfold Journal.runsByLine
    rw [view_execute (fun _ => rfl), List.foldl_append]
    rfl
  have htally := h.lineCount
  have hline := h.uncounted
  unfold Journal.tally at htally
  -- a program, or a segment without words, adds to both sides if its line is uncounted so far
  constructor
  · rw [hcount, Journal.tally, hc, hr, List.countP_append, Mark.countP_sort, ← hline]
    unfold counted Session.countLine
    cases hw : Builtin.takes (sh.session.wordsOf m.pid segment) <;> cases hu : sh.session.uncounted <;>
      simp [Session.countCommand, hw, htally] <;> omega
  · rw [huncounted, hr, Mark.head?_sort, ← hline]
    unfold counted Session.countLine
    cases Builtin.takes (sh.session.wordsOf m.pid segment) <;> cases hu : sh.session.uncounted <;>
      simp [Session.countCommand, hu]

theorem counts_invariant (m : Machine ω) : Invariant m Counts where
  withCursor _ _ h := h.of_eq ⟨rfl, rfl⟩ rfl rfl
  execute segment _ h := h.execute m segment
  ask sh h := h.of_eq ⟨rfl, rfl⟩ (view_ask (fun _ => rfl) sh) (view_ask (fun _ => rfl) sh)
  next _ _ h := h.of_eq ⟨rfl, rfl⟩ rfl rfl
  receive raw _ _ h := h.receive raw
  endInput failure sh h := by
    -- neither view sees the end of the input
    have hv : ∀ {α : Type} {pick : Event → Option α}, (∀ c, pick (.wrote c) = none) →
        pick (.read (lastReading failure)) = none →
        (sh.endInput failure).journal.view pick = sh.journal.view pick := by
      intro α pick hp hlast
      rw [view_endInput hp, hlast]
      exact List.append_nil _
    have hs := session_endInput failure sh
    refine h.of_eq ⟨by rw [hs], by rw [hs]⟩ (hv (fun _ => rfl) ?_) (hv (fun _ => rfl) ?_)
    · cases failure <;> rfl
    · cases failure <;> rfl

theorem Counts.close (m : Machine ω) {sh : Shell ω} (h : Counts sh) : Counts (close m sh) :=
  h.of_eq ⟨rfl, rfl⟩ (view_close (fun _ => rfl) (fun _ _ => rfl) rfl m sh)
    (view_close (fun _ => rfl) (fun _ _ => rfl) rfl m sh)

theorem Counts.of_isNew {s : Session} (hs : s.IsNew) (m : Machine ω) (w : ω) :
    Counts (remember m (start s w)) := by
  obtain ⟨_, _, hr⟩ := session_remember m (start s w)
  refine ⟨?_, ?_⟩
  · rw [hr]
    exact hs.lineCount
  · rw [hr]
    exact hs.uncounted

end Shell

end LineShell
