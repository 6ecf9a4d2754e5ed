import LineShell.Shell

/-!
# What is no command's concern

What is left of the current line is the loop's alone: no command reads it and none changes it. No command asks
whether there is someone who is asked for lines either, but for the search of a program without a search path.

* `Guise` : another look of a shell, which commands do not notice; `Session.inGuise`, `Reply.inGuise`,
  `Shell.inGuise`;
* `Builtin.run_inGuise`, `External.run_inGuise`, `Shell.execute_inGuise` : in another guise everything happens in
  the same way;
* `Session.withCursor`, `Shell.withCursor` : the same with another cursor, by `Shell.execute_withCursor` a guise;
  `Shell.idle` : the same with nothing left of the line.
-/

namespace LineShell

/-- Another look of a shell: its cursor, whether it asks for lines, and a journal that tells the same of segments,
of what commands write and of reports. -/
structure Guise where
  cursor : Line.Cursor → Line.Cursor
  interactive : Bool → Bool
  journal : Journal → Journal
  ran : ∀ j segment words, journal (j.note (.ran segment words)) = (journal j).note (.ran segment words)
  command : ∀ j bytes, journal (j.scope .command bytes) = (journal j).scope .command bytes
  relay : ∀ j written, journal (j.relay written) = (journal j).relay written
  report : ∀ j message, journal (j.report message) = (journal j).report message

/-- Another cursor and nothing else. -/
def Guise.ofCursor (c : Line.Cursor) : Guise where
  cursor _ := c
  interactive := id
  journal := id
  ran _ _ _ := rfl
  command _ _ := rfl
  relay _ _ := rfl
  report _ _ := rfl

namespace Session

def inGuise (g : Guise) (s : Session) : Session :=
  { s with cursor := g.cursor s.cursor, interactive := g.interactive s.interactive }

def withCursor (c : Line.Cursor) (s : Session) : Session := { s with cursor := c }

theorem countLine_inGuise (g : Guise) (s : Session) : (s.inGuise g).countLine = s.countLine.inGuise g := by
  cases h : s.uncounted <;> simp [countLine, inGuise, h]

end Session

def Reply.inGuise {ω ρ : Type} (g : Guise) (r : Reply ω ρ) : Reply ω ρ :=
  { r with session := r.session.inGuise g }

namespace Builtin

variable {ω : Type}

theorem enter_inGuise (m : Machine ω) (target written : Text) (g : Guise) (s : Session) (w : ω) :
    enter m target written (s.inGuise g) w = (enter m target written s w).inGuise g := by
  unfold enter
  dsimp only [Session.inGuise]
  cases m.enter w target with
  | error e => rfl
  | ok w' => dsimp only; cases m.workingDirectory w' <;> rfl

theorem run_inGuise (m : Machine ω) (b : Builtin) (argv : List Text) (g : Guise) (s : Session) (w : ω) :
    b.run m argv (s.inGuise g) w = (b.run m argv s w).inGuise g := by
  cases b with
  | exit =>
    simp only [run, runExit]
    split
    · rfl
    · split <;> rfl
  | env => rfl
  | help => rfl
  | history => rfl
  | setenv =>
    simp only [run, runSetenv]
    split
    · split <;> rfl
    · rfl
  | unsetenv =>
    simp only [run, runUnsetenv]
    split <;> rfl
  | cd =>
    simp only [run, runCd]
    split
    · exact enter_inGuise ..
    · dsimp only [Session.inGuise]
      split
      · exact enter_inGuise ..
      · rfl
    · exact enter_inGuise ..
  | aliases =>
    simp only [run, runAlias]
    split <;> rfl

end Builtin

theorem External.run_inGuise {ω : Type} (m : Machine ω) (path : Text) (argv : List Text) (g : Guise) (s : Session)
    (w : ω) : External.run m path argv (s.inGuise g) w = (External.run m path argv s w).inGuise g := by
  unfold External.run
  dsimp only [Session.inGuise]
  split <;> rfl

/-- With a search path it makes no difference to a name whether there is someone who is asked. -/
theorem Command.resolve?_interactive (isFile : Text → Bool) {searchPath : Option Text} (h : searchPath.isSome)
    (name : Text) (i j : Bool) : resolve? isFile searchPath name i = resolve? isFile searchPath name j := by
  unfold resolve? mayStandForItself
  simp only [h, Bool.or_true, Bool.true_or]

namespace Shell

variable {ω : Type}

def inGuise (g : Guise) (sh : Shell ω) : Shell ω := ⟨sh.session.inGuise g, sh.world, g.journal sh.journal⟩

def withCursor (c : Line.Cursor) (sh : Shell ω) : Shell ω :=
  { sh with session := sh.session.withCursor c }

/-- The shell with nothing left of its line. -/
def idle (sh : Shell ω) : Shell ω := sh.withCursor .exhausted

@[simp] theorem withCursor_withCursor (c d : Line.Cursor) (sh : Shell ω) :
    (sh.withCursor c).withCursor d = sh.withCursor d := rfl

@[simp] theorem isLeaving_idle (sh : Shell ω) : sh.idle.isLeaving = sh.isLeaving := rfl

/-- Whether a search path is set. -/
def HasPath (sh : Shell ω) : Prop := (sh.session.env.get? searchPath).isSome

instance : DecidablePred (@HasPath ω) := fun _ => inferInstanceAs (Decidable (_ = true))

theorem settle_inGuise (name : Text) (result : Except Fault Status) (g : Guise) (sh : Shell ω) :
    (sh.inGuise g).settle name result = (sh.settle name result).inGuise g := by
  cases result with
  | ok status => rfl
  | error fault =>
    exact congrArg (Shell.mk _ sh.world) (g.report sh.journal _).symm

theorem runBuiltin_inGuise (m : Machine ω) (b : Builtin) (argv : List Text) (g : Guise) (sh : Shell ω) :
    runBuiltin m b argv (sh.inGuise g) = ((runBuiltin m b argv sh).1.inGuise g, (runBuiltin m b argv sh).2) := by
  have h := Builtin.run_inGuise m b argv g sh.session.countCommand sh.world
  unfold runBuiltin
  rw [show (sh.inGuise g).session.countCommand = sh.session.countCommand.inGuise g from rfl,
    show (sh.inGuise g).world = sh.world from rfl, h]
  dsimp only [inGuise]
  rw [g.command]
  rfl

/-- A program is found and run in the same way, if there is a search path or the guise asks as before. -/
theorem runProgram_inGuise (m : Machine ω) (name : Text) (argv : List Text) (g : Guise) {sh : Shell ω}
    (h : g.interactive = id ∨ sh.HasPath) :
    runProgram m name argv (sh.inGuise g) =
      ((runProgram m name argv sh).1.inGuise g, (runProgram m name argv sh).2) := by
  have hsame : ∀ path : Option Text, path = sh.session.env.get? searchPath → ∀ i,
      Command.resolve? (m.isFile sh.world) path name (g.interactive i) =
        Command.resolve? (m.isFile sh.world) path name i := by
    rintro path rfl i
    obtain hid | hpath := h
    · rw [hid]
      rfl
    · exact Command.resolve?_interactive _ hpath name _ _
  have henv : sh.session.countLine.env = sh.session.env := by
    unfold Session.countLine
    split <;> rfl
  unfold runProgram
  rw [show (sh.inGuise g).session.countLine = sh.session.countLine.inGuise g from
    Session.countLine_inGuise g sh.session]
  dsimp only
  rw [show (sh.session.countLine.inGuise g).env = sh.session.countLine.env from rfl,
    show (sh.session.countLine.inGuise g).interactive = g.interactive sh.session.countLine.interactive from rfl,
    show (sh.inGuise g).world = sh.world from rfl, hsame _ (by rw [henv])]
  split
  · rfl
  · rw [External.run_inGuise]
    dsimp only [inGuise]
    rw [g.relay]
    rfl

theorem command_inGuise (m : Machine ω) (name : Text) (argv : List Text) (g : Guise) {sh : Shell ω}
    (h : g.interactive = id ∨ sh.HasPath) :
    (sh.inGuise g).command m name argv = (sh.command m name argv).inGuise g := by
  unfold command
  cases Builtin.named? name with
  | some b => simp only [runBuiltin_inGuise, settle_inGuise]
  | none => simp only [runProgram_inGuise m name argv g h, settle_inGuise]

/-- A segment is run in the same way in another guise. -/
theorem execute_inGuise (m : Machine ω) (segment : Text) (g : Guise) {sh : Shell ω}
    (h : g.interactive = id ∨ sh.HasPath) :
    execute m segment (sh.inGuise g) = (execute m segment sh).inGuise g := by
  unfold execute
  rw [show (sh.inGuise g).session.wordsOf m.pid segment = sh.session.wordsOf m.pid segment from rfl]
  dsimp only [inGuise]
  cases sh.session.wordsOf m.pid segment with
  | nil =>
    have hcount := Session.countLine_inGuise g { sh.session with argv := [] }
    rw [← g.ran]
    exact congrArg (fun s => (⟨s, sh.world, g.journal (sh.journal.note (.ran segment []))⟩ : Shell ω)) hcount
  | cons name args =>
    have hcommand := @command_inGuise ω m name (name :: args) g
      ⟨{ sh.session with argv := [] }, sh.world, sh.journal.note (.ran segment (name :: args))⟩ h
    rw [← g.ran]
    exact congrArg
      (fun sh : Shell ω => { sh with session := { sh.session with argv := name :: args } }) hcommand

/-- A segment is run in the same way whatever is left of the line behind it. -/
theorem execute_withCursor (m : Machine ω) (segment : Text) (c : Line.Cursor) (sh : Shell ω) :
    execute m segment (sh.withCursor c) = (execute m segment sh).withCursor c :=
  execute_inGuise m segment (.ofCursor c) (.inl rfl)

end Shell

end LineShell
