import LineShell.Proofs.Shell.Events

/-!
# The read-eval loop, turn by turn

`Shell.run` works through its input in nested loops with fuel. Here the same is one loop: as long as
`exit` has not been run, a turn runs the next segment of the current line, or else reads a line.

* `Ran` : a segment that was run, and the shell as it stood in front of it;
* `Loop m source sh trace last` : the loop takes the shell `sh` in front of `source` to its end `last`
  and runs the segments of `trace` on the way, in this order. A derivation is a loop that ends;
* `Loop.unique` : it does so in one way only; `Loop.rec_turns` : induction on its turns, with one case for
  either end of the input;
* `Loop.commands` : the journal tells of the segments of the trace, each with its words, and of no
  others.
-/

namespace LineShell.Shell

variable {ω : Type}

/-- A segment that was run, and the shell in front of it. -/
structure Ran (ω : Type) where
  segment : Text
  shell : Shell ω

/-- The segment and the words that it was run as. -/
def Ran.command (m : Machine ω) (r : Ran ω) : Text × List Text :=
  (r.segment, r.shell.session.wordsOf m.pid r.segment)

/-- One turn after another: `exit` has been run, or a segment of the current line is run, or else a line
is asked for and read, if there is one. -/
inductive Loop (m : Machine ω) : Source → Shell ω → List (Ran ω) → Shell ω → Prop
  | left {source : Source} {sh : Shell ω} (hl : sh.isLeaving = true) : Loop m source sh [] sh
  | ran {source : Source} {sh last : Shell ω} {segment : Text} {s : Session} {trace : List (Ran ω)}
      (hl : sh.isLeaving = false) (hn : sh.session.nextSegment = (some segment, s))
      (rest : Loop m source (execute m segment { sh with session := s }) trace last) :
      Loop m source sh (⟨segment, { sh with session := s }⟩ :: trace) last
  | line {source source' : Source} {sh last : Shell ω} {s : Session} {raw : Text} {w : ω}
      {trace : List (Ran ω)} (hl : sh.isLeaving = false) (hn : sh.session.nextSegment = (none, s))
      (hr : source.next m sh.world = (.line raw, source', w))
      (rest : Loop m source' ({ ({ sh with session := s } : Shell ω).ask with world := w }.receive raw)
        trace last) :
      Loop m source sh trace last
  | ended {source source' : Source} {sh : Shell ω} {s : Session} {w : ω}
      (hl : sh.isLeaving = false) (hn : sh.session.nextSegment = (none, s))
      (hr : source.next m sh.world = (.ended, source', w)) :
      Loop m source sh [] ({ ({ sh with session := s } : Shell ω).ask with world := w }.endInput none)
  | failed {source source' : Source} {sh : Shell ω} {s : Session} {e : SysError} {w : ω}
      (hl : sh.isLeaving = false) (hn : sh.session.nextSegment = (none, s))
      (hr : source.next m sh.world = (.failed e, source', w)) :
      Loop m source sh []
        ({ ({ sh with session := s } : Shell ω).ask with world := w }.endInput (some e))

/-! ## One way only -/

theorem Loop.unique {m : Machine ω} {source : Source} {sh last last' : Shell ω}
    {trace trace' : List (Ran ω)} (h : Loop m source sh trace last)
    (h' : Loop m source sh trace' last') : trace' = trace ∧ last' = last := by
  -- what a turn starts from decides which turn it is, and the other premises what it leads to
  induction h generalizing trace' last' with
  | left hl => cases h' <;> simp_all
  | ran hl hn _ ih =>
    cases h' with
    | ran _ hn' rest' =>
      obtain ⟨rfl, rfl⟩ : _ ∧ _ := by simpa using hn.symm.trans hn'
      obtain ⟨rfl, rfl⟩ := ih rest'
      exact ⟨rfl, rfl⟩
    | left hl' => simp [hl] at hl'
    | _ _ hn' _ => simp [hn] at hn'
  | line hl hn hr _ ih =>
    cases h' with
    | line _ hn' hr' rest' =>
      obtain rfl : _ = _ := by simpa using hn.symm.trans hn'
      obtain ⟨rfl, rfl, rfl⟩ : _ ∧ _ ∧ _ := by simpa using hr.symm.trans hr'
      exact ih rest'
    | left hl' => simp [hl] at hl'
    | ran _ hn' _ => simp [hn] at hn'
    | ended _ _ hr' => simp [hr] at hr'
    | failed _ _ hr' => simp [hr] at hr'
  | ended hl hn hr =>
    cases h' with
    | ended _ hn' hr' =>
      obtain rfl : _ = _ := by simpa using hn.symm.trans hn'
      obtain ⟨rfl, rfl⟩ : _ ∧ _ := by simpa using hr.symm.trans hr'
      exact ⟨rfl, rfl⟩
    | left hl' => simp [hl] at hl'
    | ran _ hn' _ => simp [hn] at hn'
    | line _ _ hr' _ => simp [hr] at hr'
    | failed _ _ hr' => simp [hr] at hr'
  | failed hl hn hr =>
    cases h' with
    | failed _ hn' hr' =>
      obtain rfl : _ = _ := by simpa using hn.symm.trans hn'
      obtain ⟨rfl, rfl, rfl⟩ : _ ∧ _ ∧ _ := by simpa using hr.symm.trans hr'
      exact ⟨rfl, rfl⟩
    | left hl' => simp [hl] at hl'
    | ran _ hn' _ => simp [hn] at hn'
    | line _ _ hr' _ => simp [hr] at hr'
    | ended _ _ hr' => simp [hr] at hr'

/-! ## Turn by turn -/

/-- The shell when the current line has been asked for its next segment. -/
def asked (sh : Shell ω) : Shell ω := { sh with session := sh.session.nextSegment.2 }

section Turns

variable {m : Machine ω} {source source' : Source} {sh last : Shell ω} {trace : List (Ran ω)} {w : ω}

theorem nextSegment_eq {sh : Shell ω} {next : Option Text} (hn : sh.session.nextSegment.1 = next) :
    sh.session.nextSegment = (next, sh.asked.session) := Prod.ext hn rfl

theorem Loop.ran_asked {segment : Text} (hl : sh.isLeaving = false)
    (hn : sh.session.nextSegment.1 = some segment)
    (rest : Loop m source (execute m segment sh.asked) trace last) :
    Loop m source sh (⟨segment, sh.asked⟩ :: trace) last := .ran hl (nextSegment_eq hn) rest

theorem Loop.line_asked {raw : Text} (hl : sh.isLeaving = false) (hn : sh.session.nextSegment.1 = none)
    (hr : source.next m sh.world = (.line raw, source', w))
    (rest : Loop m source' ({ sh.asked.ask with world := w }.receive raw) trace last) :
    Loop m source sh trace last := .line hl (nextSegment_eq hn) hr rest

theorem Loop.stopped {failure : Option SysError} (hl : sh.isLeaving = false)
    (hn : sh.session.nextSegment.1 = none)
    (hr : source.next m sh.world = (lastReading failure, source', w)) :
    Loop m source sh [] ({ sh.asked.ask with world := w }.endInput failure) := by
  cases failure with
  | none => exact .ended hl (nextSegment_eq hn) hr
  | some e => exact .failed hl (nextSegment_eq hn) hr

@[elab_as_elim]
theorem Loop.rec_turns {motive : ∀ (source : Source) (sh : Shell ω) (trace : List (Ran ω))
      (last : Shell ω), Loop m source sh trace last → Prop}
    (left : ∀ (source : Source) (sh : Shell ω) (hl : sh.isLeaving = true),
      motive source sh [] sh (.left hl))
    (ran : ∀ (source : Source) (sh last : Shell ω) (segment : Text) (trace : List (Ran ω))
      (hl : sh.isLeaving = false) (hn : sh.session.nextSegment.1 = some segment)
      (rest : Loop m source (execute m segment sh.asked) trace last),
      motive source (execute m segment sh.asked) trace last rest →
      motive source sh (⟨segment, sh.asked⟩ :: trace) last (ran_asked hl hn rest))
    (line : ∀ (source source' : Source) (sh last : Shell ω) (raw : Text) (w : ω)
      (trace : List (Ran ω)) (hl : sh.isLeaving = false) (hn : sh.session.nextSegment.1 = none)
      (hr : source.next m sh.world = (.line raw, source', w))
      (rest : Loop m source' ({ sh.asked.ask with world := w }.receive raw) trace last),
      motive source' ({ sh.asked.ask with world := w }.receive raw) trace last rest →
      motive source sh trace last (line_asked hl hn hr rest))
    (stopped : ∀ (source source' : Source) (sh : Shell ω) (failure : Option SysError) (w : ω)
      (hl : sh.isLeaving = false) (hn : sh.session.nextSegment.1 = none)
      (hr : source.next m sh.world = (lastReading failure, source', w)),
      motive source sh [] ({ sh.asked.ask with world := w }.endInput failure) (stopped hl hn hr))
    {source : Source} {sh : Shell ω} {trace : List (Ran ω)} {last : Shell ω}
    (h : Loop m source sh trace last) : motive source sh trace last h := by
  induction h with
  | left hl => exact left _ _ hl
  | @ran _ sh _ _ s _ hl hn rest ih =>
    obtain rfl : sh.session.nextSegment.2 = s := congrArg Prod.snd hn
    exact ran _ _ _ _ _ hl (congrArg Prod.fst hn) rest ih
  | @line _ _ sh _ s _ _ _ hl hn hr rest ih =>
    obtain rfl : sh.session.nextSegment.2 = s := congrArg Prod.snd hn
    exact line _ _ _ _ _ _ _ hl (congrArg Prod.fst hn) hr rest ih
  | @ended _ _ sh s _ hl hn hr =>
    obtain rfl : sh.session.nextSegment.2 = s := congrArg Prod.snd hn
    exact stopped _ _ _ none _ hl (congrArg Prod.fst hn) hr
  | @failed _ _ sh s e _ hl hn hr =>
    obtain rfl : sh.session.nextSegment.2 = s := congrArg Prod.snd hn
    exact stopped _ _ _ (some e) _ hl (congrArg Prod.fst hn) hr

end Turns

/-! ## The trace and the journal -/

theorem commands_ask (sh : Shell ω) : sh.ask.journal.commands = sh.journal.commands :=
  view_ask (fun _ => rfl) sh

theorem Loop.commands {m : Machine ω} {source : Source} {sh last : Shell ω} {trace : List (Ran ω)}
    (h : Loop m source sh trace last) :
    last.journal.commands = sh.journal.commands ++ trace.map (Ran.command m) := by
  induction h using Loop.rec_turns with
  | left _ _ _ => simp
  | ran source sh last segment trace _ _ _ ih =>
    have he : (execute m segment sh.asked).journal.commands =
        sh.journal.commands ++ [(segment, sh.asked.session.wordsOf m.pid segment)] :=
      view_execute (fun _ => rfl) ..
    rw [ih, he, List.append_assoc]
    rfl
  | line source source' sh last raw w trace _ _ _ _ ih =>
    have hv : ({ sh.asked.ask with world := w }.receive raw).journal.commands =
        sh.journal.commands ++ [] :=
      (view_receive raw _).trans (congrArg (· ++ []) (commands_ask _))
    rw [ih, hv, List.append_nil]
  | stopped source source' sh failure w _ _ _ =>
    exact (view_endInput (fun _ => rfl) failure _).trans (congrArg (· ++ []) (commands_ask _))

end LineShell.Shell
