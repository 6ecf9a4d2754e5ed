import LineShell.Proofs.Machine
import LineShell.Proofs.Names

/-!
# Commands that fail

* `Reply.Unchanged` : variables, aliases, history, stage and the machine are as they were;
* `Builtin.departed` : the variables of a session that leaves its directory;
* `Builtin.target?`, `Builtin.runCd_cases` : where `cd` goes, if anywhere;
* `Builtin.enter_error`, `Builtin.run_error` : what a command leaves that ends in a fault;
* `Builtin.unchanged_iff` : only a `cd` that lost its directory leaves anything behind, and when.
-/

namespace LineShell

variable {ω : Type}

/-- Variables, aliases, history, stage and the state of the machine are those from before. -/
structure Reply.Unchanged {ρ : Type} (r : Reply ω ρ) (s : Session) (w : ω) : Prop where
  vars : r.session.env.vars = s.env.vars
  aliases : r.session.aliases = s.aliases
  history : r.session.history = s.history
  stage : r.session.stage = s.stage
  world : r.world = w

namespace Builtin

/-- The directory that is left: what `PWD` says, or else where the machine is. -/
def left? (m : Machine ω) (s : Session) (w : ω) : Option Text :=
  (s.env.get? pwd).or (m.workingDirectory w).toOption

/-- The variables when the directory has been left, before the new one is known. -/
def departed (m : Machine ω) (s : Session) (w : ω) : Environment :=
  match left? m s w with
  | some dir => s.env.set oldpwd dir
  | none => s.env

/-- Nothing changes if a directory cannot be entered. If it was entered and then has no path, the machine
is in it and `OLDPWD` has been set. -/
theorem enter_error {m : Machine ω} {target written : Text} {s : Session} {w : ω} {f : Fault}
    (h : (enter m target written s w).result = .error f) :
    (f = .cannotEnter target ∧ (enter m target written s w).session = s ∧
      (enter m target written s w).world = w) ∨
    (f = .lostDirectory ∧ m.enter w target = .ok (enter m target written s w).world ∧
      (∃ e, m.workingDirectory (enter m target written s w).world = .error e) ∧
      (enter m target written s w).session = { s with env := departed m s w }) := by
  unfold enter at h ⊢
  cases he : m.enter w target with
  | error e =>
    rw [he] at h
    obtain rfl : Fault.cannotEnter target = f := by simpa using h
    exact .inl ⟨rfl, rfl, rfl⟩
  | ok w' =>
    rw [he] at h
    dsimp only at h ⊢
    cases hd : m.workingDirectory w' with
    | ok now => simp [hd] at h
    | error e =>
      rw [hd] at h
      obtain rfl : Fault.lostDirectory = f := by simpa using h
      exact .inr ⟨rfl, rfl, ⟨e, hd⟩, rfl⟩

theorem runExit_error {argv : List Text} {s : Session} {w : ω} {f : Fault}
    (h : (runExit argv s w).result = .error f) :
    f ≠ .lostDirectory ∧ runExit argv s w = ⟨s, w, [], .error f⟩ := by
  unfold runExit at h ⊢
  cases hg : argv[1]? with
  | none => simp [hg] at h
  | some given =>
    cases hc : exitCode? given with
    | some code => simp [hg, hc] at h
    | none =>
      obtain rfl : Fault.badExitNumber given = f := by simpa [hg, hc] using h
      exact ⟨by simp, by simp [hc]⟩

theorem runSetenv_error {argv : List Text} {s : Session} {w : ω} {f : Fault}
    (h : (runSetenv argv s w).result = .error f) :
    f ≠ .lostDirectory ∧ runSetenv argv s w = ⟨s, w, [], .error f⟩ := by
  unfold runSetenv at h ⊢
  split at h
  · next name value =>
    split at h
    · next hbad =>
      obtain rfl : Fault.badVariableName name = f := by simpa using h
      exact ⟨by simp, if_pos hbad⟩
    · simp at h
  · obtain rfl : Fault.setenvArguments = f := by simpa using h
    exact ⟨by simp, rfl⟩

theorem runUnsetenv_error {argv : List Text} {s : Session} {w : ω} {f : Fault}
    (h : (runUnsetenv argv s w).result = .error f) :
    f ≠ .lostDirectory ∧ runUnsetenv argv s w = ⟨s, w, [], .error f⟩ := by
  unfold runUnsetenv at h ⊢
  split at h
  · simp at h
  · obtain rfl : Fault.unsetenvArguments = f := by simpa using h
    exact ⟨by simp, rfl⟩

/-- Where `cd` goes; nowhere if it is to go back and there is no directory from before. -/
def target? (s : Session) (argv : List Text) : Option Text :=
  match argv[1]? with
  | none => ((s.env.get? Session.home).or (s.env.get? pwd)).or (some ['/'])
  | some ['-'] => s.env.get? oldpwd
  | some dir => some dir

/-- `cd` enters the directory that it is to go to. If there is none it changes nothing, and does not fail. -/
theorem runCd_cases (m : Machine ω) (argv : List Text) (s : Session) (w : ω) :
    (∃ target written, target? s argv = some target ∧ runCd m argv s w = enter m target written s w) ∨
    (target? s argv = none ∧
      runCd m argv s w = ⟨s, w, unlines (m.workingDirectory w).toOption.toList, .ok 1⟩) := by
  unfold runCd target?
  cases argv[1]? with
  | none => exact .inl ⟨_, [], Option.or_some, rfl⟩
  | some dir =>
    by_cases hdash : dir = ['-']
    · subst hdash
      cases s.env.get? oldpwd with
      | some old => exact .inl ⟨old, unlines [old], rfl, rfl⟩
      | none => exact .inr ⟨rfl, rfl⟩
    · exact .inl ⟨dir, [], by simp, by simp⟩

theorem runCd_error {m : Machine ω} {argv : List Text} {s : Session} {w : ω} {f : Fault}
    (h : (runCd m argv s w).result = .error f) :
    ∃ target written, runCd m argv s w = enter m target written s w := by
  obtain ⟨target, written, -, hrun⟩ | ⟨-, hrun⟩ := runCd_cases m argv s w
  · exact ⟨target, written, hrun⟩
  · simp [hrun] at h

/-- A command that fails has changed nothing at all, or it is a `cd` that is in a directory without a
path and has set `OLDPWD`. -/
theorem run_error {m : Machine ω} {b : Builtin} {argv : List Text} {s : Session} {w : ω} {f : Fault}
    (h : (b.run m argv s w).result = .error f) :
    (f ≠ .lostDirectory ∧ (b.run m argv s w).session = s ∧ (b.run m argv s w).world = w) ∨
    (f = .lostDirectory ∧ b = .cd ∧
      (∃ target, m.enter w target = .ok (b.run m argv s w).world) ∧
      (∃ e, m.workingDirectory (b.run m argv s w).world = .error e) ∧
      (b.run m argv s w).session = { s with env := departed m s w }) := by
  have hplain : ∀ r : Reply ω Text, f ≠ .lostDirectory ∧ r = ⟨s, w, [], .error f⟩ →
      f ≠ .lostDirectory ∧ r.session = s ∧ r.world = w := by
    rintro r ⟨hf, rfl⟩
    exact ⟨hf, rfl, rfl⟩
  cases b with
  | exit => exact .inl (hplain _ (runExit_error h))
  | setenv => exact .inl (hplain _ (runSetenv_error h))
  | unsetenv => exact .inl (hplain _ (runUnsetenv_error h))
  | cd =>
    obtain ⟨target, written, hr⟩ := runCd_error h
    have hrun : Builtin.cd.run m argv s w = enter m target written s w := hr
    rw [hrun] at h ⊢
    obtain ⟨rfl, hs, hw⟩ | ⟨rfl, henter, hlost, hs⟩ := enter_error h
    · exact .inl ⟨by simp, hs, hw⟩
    · exact .inr ⟨rfl, rfl, ⟨target, henter⟩, hlost, hs⟩
  | env => simp [run, runEnv] at h
  | help => simp [run, runHelp] at h
  | history => simp [run, runHistory] at h
  | aliases =>
    simp only [run, runAlias] at h
    split at h <;> simp at h

theorem vars_departed_eq_iff (m : Machine ω) (s : Session) (w : ω) :
    (departed m s w).vars = s.env.vars ↔
      ∀ dir, left? m s w = some dir → s.env.get? oldpwd = some dir := by
  unfold departed
  cases left? m s w with
  | none => simp
  | some dir => simp [Environment.vars_set_eq_iff (show '=' ∉ oldpwd by decide)]

/-- A command that fails leaves everything as it was, but for a `cd` that is then in a directory without
a path: it has changed the state unless that is the state it was in and `OLDPWD` already was what was set. -/
theorem unchanged_iff (m : Machine ω) (b : Builtin) (argv : List Text) (s : Session) (w : ω) (f : Fault)
    (h : (b.run m argv s w).result = .error f) :
    (f ≠ .lostDirectory → (b.run m argv s w).session = s ∧ (b.run m argv s w).world = w) ∧
    (f = .lostDirectory → b = .cd ∧
      (∃ target, m.enter w target = .ok (b.run m argv s w).world) ∧
      (∃ e, m.workingDirectory (b.run m argv s w).world = .error e) ∧
      (b.run m argv s w).session = { s with env := departed m s w }) ∧
    ((b.run m argv s w).Unchanged s w ↔ f = .lostDirectory →
      (b.run m argv s w).world = w ∧
      ∀ dir, left? m s w = some dir → s.env.get? oldpwd = some dir) := by
  obtain ⟨hf, hs, hw⟩ | ⟨rfl, hb, henter, hlost, hs⟩ := run_error h
  · refine ⟨fun _ => ⟨hs, hw⟩, fun h => absurd h hf, fun _ h => absurd h hf, fun _ => ?_⟩
    exact ⟨by rw [hs], by rw [hs], by rw [hs], by rw [hs], hw⟩
  · refine ⟨fun hf => absurd rfl hf, fun _ => ⟨hb, henter, hlost, hs⟩, ?_⟩
    rw [← vars_departed_eq_iff]
    constructor
    · intro hu _
      have hv := hu.vars
      rw [hs] at hv
      exact ⟨hu.world, hv⟩
    · intro hu
      obtain ⟨hw, hv⟩ := hu rfl
      exact ⟨by rw [hs]; exact hv, by rw [hs], by rw [hs], by rw [hs], hw⟩

/-- In a directory that has been removed `cd .` fails, and a second one changes nothing. -/
theorem unchanged_iff_of_removed_directory :
    let s := Session.start "sh".toList {}
      (.ofPairs [("PWD".toList, "/x".toList), ("OLDPWD".toList, "/x".toList)])
    let w : Bench := { Bench.plain with here := none }
    let r := Builtin.cd.run Bench.machine ["cd".toList, ".".toList] s w
    r.result = .error .lostDirectory ∧ r.Unchanged s w := by
  intro s w r
  have hr : r.result = .error .lostDirectory := rfl
  obtain ⟨-, -, hiff⟩ := unchanged_iff Bench.machine .cd ["cd".toList, ".".toList] s w _ hr
  have hold : s.env.get? oldpwd = left? Bench.machine s w := by decide
  exact ⟨hr, hiff.2 fun _ => ⟨rfl, fun dir hdir => hold.trans hdir⟩⟩

/-- In a directory that has been removed `cd .` fails and sets `OLDPWD`. -/
theorem changed_of_removed_directory :
    let s := Session.start "sh".toList {} (.ofPairs [("PWD".toList, "/x".toList)])
    let w : Bench := { Bench.plain with here := none }
    let r := Builtin.cd.run Bench.machine ["cd".toList, ".".toList] s w
    r.result = .error .lostDirectory ∧ s.env.vars.texts = ["PWD=/x".toList] ∧
      r.session.env.vars.texts = ["PWD=/x".toList, "OLDPWD=/x".toList] := by
  intro s w r
  exact ⟨rfl, by decide, by decide⟩

end Builtin

end LineShell
