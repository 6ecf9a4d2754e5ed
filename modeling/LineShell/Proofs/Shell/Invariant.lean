import LineShell.Proofs.Shell.Idle
import LineShell.Proofs.Source

/-!
# What a run keeps

* `Builtin.session_run`, `External.session_run`, `Shell.session_execute` : what of a session a command
  can change at all;
* `Shell.Invariant m P` : every step of a run keeps `P`;
* `Invariant.finishLine`, `Invariant.feed`, `Invariant.work` : so a whole run keeps it.
-/

namespace LineShell

variable {ω : Type}

/-! ## What a command can change -/

theorem Builtin.session_enter (m : Machine ω) (target written : Text) (s : Session) (w : ω) :
    ∃ env, (enter m target written s w).session = { s with env } := by
  unfold enter
  cases m.enter w target with
  | error e => exact ⟨s.env, rfl⟩
  | ok w' =>
    dsimp only
    cases m.workingDirectory w' with
    | error e => exact ⟨_, rfl⟩
    | ok now => exact ⟨_, rfl⟩

theorem Builtin.session_run (m : Machine ω) (b : Builtin) (argv : List Text) (s : Session) (w : ω) :
    ∃ env aliases stage, (b.run m argv s w).session = { s with env, aliases, stage } := by
  cases b with
  | exit =>
    simp only [run, runExit]
    cases argv[1]? with
    | none => exact ⟨s.env, s.aliases, _, rfl⟩
    | some given =>
      dsimp only
      cases exitCode? given with
      | none => exact ⟨s.env, s.aliases, s.stage, rfl⟩
      | some code => exact ⟨s.env, s.aliases, _, rfl⟩
  | env => exact ⟨s.env, s.aliases, s.stage, rfl⟩
  | help => exact ⟨s.env, s.aliases, s.stage, rfl⟩
  | history => exact ⟨s.env, s.aliases, s.stage, rfl⟩
  | setenv =>
    simp only [run, runSetenv]
    split
    · split
      · exact ⟨s.env, s.aliases, s.stage, rfl⟩
      · exact ⟨_, s.aliases, s.stage, rfl⟩
    · exact ⟨s.env, s.aliases, s.stage, rfl⟩
  | unsetenv =>
    simp only [run, runUnsetenv]
    split
    · exact ⟨_, s.aliases, s.stage, rfl⟩
    · exact ⟨s.env, s.aliases, s.stage, rfl⟩
  | cd =>
    have henter : ∀ target written, ∃ env aliases stage,
        (enter m target written s w).session = { s with env, aliases, stage } := by
      intro target written
      obtain ⟨env, h⟩ := session_enter m target written s w
      exact ⟨env, s.aliases, s.stage, h⟩
    simp only [run, runCd]
    split
    · exact henter ..
    · cases s.env.get? oldpwd with
      | some old => exact henter ..
      | none => exact ⟨s.env, s.aliases, s.stage, rfl⟩
    · exact henter ..
  | aliases =>
    simp only [run, runAlias]
    split
    · exact ⟨s.env, _, s.stage, rfl⟩
    · exact ⟨s.env, s.aliases, s.stage, rfl⟩

/-- A program changes nothing; the variables have been made up for it. -/
theorem External.session_run (m : Machine ω) (path : Text) (argv : List Text) (s : Session) (w : ω) :
    (External.run m path argv s w).session = { s with env := s.env.refresh } := by
  unfold External.run
  dsimp only
  split <;> rfl

namespace Shell

theorem session_settle (name : Text) (result : Except Fault Status) (sh : Shell ω) :
    ∃ lastStatus, (sh.settle name result).session = { sh.session with lastStatus } := by
  cases result with
  | ok status => exact ⟨status, rfl⟩
  | error fault => exact ⟨fault.status, rfl⟩

theorem session_countLine (s : Session) :
    ∃ lineCount uncounted, s.countLine = { s with lineCount, uncounted } := by
  unfold Session.countLine
  split
  · exact ⟨_, _, rfl⟩
  · exact ⟨s.lineCount, s.uncounted, rfl⟩

theorem session_command (m : Machine ω) (name : Text) (argv : List Text) (sh : Shell ω) :
    ∃ env aliases stage lastStatus lineCount uncounted,
      (sh.command m name argv).session =
        { sh.session with env, aliases, stage, lastStatus, lineCount, uncounted } := by
  unfold command
  cases Builtin.named? name with
  | some b =>
    obtain ⟨env, aliases, stage, hb⟩ :=
      Builtin.session_run m b argv sh.session.countCommand sh.world
    obtain ⟨lastStatus, hs⟩ := session_settle name (runBuiltin m b argv sh).2 (runBuiltin m b argv sh).1
    refine ⟨env, aliases, stage, lastStatus, sh.session.lineCount + 1, sh.session.uncounted, ?_⟩
    dsimp only
    rw [hs, show (runBuiltin m b argv sh).1.session = _ from hb]
    rfl
  | none =>
    obtain ⟨lastStatus, hs⟩ :=
      session_settle name (runProgram m name argv sh).2 (runProgram m name argv sh).1
    obtain ⟨lineCount, uncounted, hc⟩ := session_countLine sh.session
    have hp : ∃ env, (runProgram m name argv sh).1.session = { sh.session.countLine with env } := by
      unfold runProgram
      dsimp only
      split
      · exact ⟨sh.session.countLine.env, rfl⟩
      · exact ⟨_, External.session_run ..⟩
    obtain ⟨env, hp⟩ := hp
    refine ⟨env, sh.session.aliases, sh.session.stage, lastStatus, lineCount, uncounted, ?_⟩
    dsimp only
    rw [hs, hp, hc]

/-- Running a segment leaves settings, name, mode, the rest of the line and the history as they are. -/
theorem session_execute (m : Machine ω) (segment : Text) (sh : Shell ω) :
    ∃ argv env aliases stage lastStatus lineCount uncounted,
      (execute m segment sh).session =
        { sh.session with argv, env, aliases, stage, lastStatus, lineCount, uncounted } := by
  unfold execute
  dsimp only
  cases sh.session.wordsOf m.pid segment with
  | nil =>
    obtain ⟨lineCount, uncounted, hc⟩ := session_countLine { sh.session with argv := [] }
    exact ⟨_, sh.session.env, sh.session.aliases, sh.session.stage, sh.session.lastStatus, lineCount,
      uncounted, hc⟩
  | cons name args =>
    obtain ⟨env, aliases, stage, lastStatus, lineCount, uncounted, hc⟩ :=
      session_command m name (name :: args) ⟨{ sh.session with argv := [] }, sh.world,
        sh.journal.note (.ran segment (name :: args))⟩
    refine ⟨name :: args, env, aliases, stage, lastStatus, lineCount, uncounted, ?_⟩
    dsimp only
    rw [hc]

/-! ## What every step keeps -/

/-- A property that every step of a run keeps, whatever the source gives. -/
structure Invariant (m : Machine ω) (P : Shell ω → Prop) : Prop where
  withCursor : ∀ c sh, P sh → P (sh.withCursor c)
  execute : ∀ segment sh, P sh → P (execute m segment sh)
  ask : ∀ sh, P sh → P sh.ask
  next : ∀ (source : Source) sh, P sh → P { sh with world := (source.next m sh.world).2.2 }
  receive : ∀ raw sh, '\n' ∉ raw → P sh → P (sh.receive raw)
  endInput : ∀ failure sh, P sh → P (sh.endInput failure)

namespace Invariant

variable {m : Machine ω} {P : Shell ω → Prop} {isOver : Shell ω → Bool}

theorem drain (h : Invariant m P) (fuel : Nat) {sh : Shell ω} (hs : P sh) :
    P (Shell.drain isOver m fuel sh) := by
  induction fuel generalizing sh with
  | zero => exact hs
  | succ fuel ih =>
    have hcursor : P { sh with session := sh.session.nextSegment.2 } := h.withCursor _ sh hs
    rw [Shell.drain]
    split
    · exact hs
    · split
      · next s hn =>
        rw [hn] at hcursor
        exact hcursor
      · next segment s hn =>
        rw [hn] at hcursor
        exact ih (h.execute segment _ hcursor)

theorem finishLine (h : Invariant m P) {sh : Shell ω} (hs : P sh) :
    P (Shell.finishLine isOver m sh) := h.drain _ hs

theorem feed (h : Invariant m P) (fuel : Nat) {source : Source} {sh : Shell ω} (hs : P sh) :
    P (Shell.feed isOver m fuel source sh) := by
  induction fuel generalizing source sh with
  | zero => exact hs
  | succ fuel ih =>
    -- whatever the read gives, it leaves the machine in the state that `hnext` is about
    have hnext := h.next source sh.ask (h.ask sh hs)
    rw [Shell.feed]
    split
    · exact hs
    · dsimp only
      split
      · next raw source' w hr =>
        have hraw : '\n' ∉ raw := Source.not_mem_of_next (congrArg Prod.fst hr)
        rw [show (source.next m sh.ask.world).2.2 = w by rw [hr]] at hnext
        exact ih (h.finishLine (h.receive raw _ hraw hnext))
      · next source' w hr =>
        rw [show (source.next m sh.ask.world).2.2 = w by rw [hr]] at hnext
        exact h.endInput none _ hnext
      · next e source' w hr =>
        rw [show (source.next m sh.ask.world).2.2 = w by rw [hr]] at hnext
        exact h.endInput (some e) _ hnext

/-- What holds when the history has been loaded holds when all lines have been worked through. -/
theorem work (h : Invariant m P) (source : Source) {sh : Shell ω} (hs : P (remember m sh)) :
    P (Shell.work isOver m source sh) := h.feed _ (h.finishLine hs)

end Invariant

end Shell

end LineShell
