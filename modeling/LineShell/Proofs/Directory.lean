import LineShell.Proofs.Command.Places
import LineShell.Proofs.Environment.OrderedMap
import LineShell.Proofs.Failure
import Mathlib.Logic.Relation

/-!
# Changing directories

`PWD` is what the machine reports, but `OLDPWD` is what `PWD` was. The two say the same only as long as the
directory is changed by `cd` alone, and that is what `cd -` relies on.

* `Session.KeepsOthers` : all of a session but `PWD` and `OLDPWD`;
* `Builtin.enter_ok` : what entering a directory leaves; `Builtin.Entered` : what a `cd` leaves that succeeds;
* `Builtin.cdBack` : `cd -` after a command; `Builtin.Stands`, `Builtin.Returned` : in which of two
  directories it leaves the shell;
* `Machine.Reachable` : directories that can be entered from each other by the paths they are reported
  under; `Host.reachable` : those of a host.

`Builtin.cd_alternates` : what a `cd` leaves, and that any number of `cd -` behind it go to and fro.
-/

namespace LineShell

variable {ω : Type}

/-! ## The other variables -/

theorem Environment.filter_set (env : Environment) {name : Text} (hn : '=' ∉ name) (value : Text)
    {keep : Entry → Bool} (hkeep : ∀ e : Entry, e.name? = some name → keep e = false) :
    (env.set name value).vars.entries.filter keep = env.vars.entries.filter keep := by
  have hnew : ∀ number, keep ⟨number, name ++ '=' :: value⟩ = false := fun _ =>
    hkeep _ (Entry.name?_eq_some_iff.2 ⟨Entry.hasName_iff.2 ⟨value, rfl⟩, hn⟩)
  obtain ⟨-, hset⟩ | ⟨i, hi, hname, -, hset⟩ := env.vars_set name value
  · rw [hset, Table.push, List.filter_append, List.filter_singleton, hnew]
    exact List.append_nil _
  · have hold := hkeep _ (Entry.name?_eq_some_iff.2 ⟨hname, hn⟩)
    rw [hset]
    dsimp only
    conv_rhs => rw [← List.take_append_drop i env.vars.entries, List.drop_eq_getElem_cons hi]
    rw [List.set_eq_take_append_cons_drop, if_pos hi, List.filter_append, List.filter_append,
      List.filter_cons_of_neg (by simp [hnew]), List.filter_cons_of_neg (by simp [hold])]

/-- Whether an entry is one of the two that say where the shell is and was. -/
def Entry.isPlace (e : Entry) : Bool := e.name? = some Builtin.pwd || e.name? = some Builtin.oldpwd

/-- Nothing is different but `PWD` and `OLDPWD`: the other variables have their values and their order. -/
structure Session.KeepsOthers (s s' : Session) : Prop where
  entries : s'.env.vars.entries.filter (!·.isPlace) = s.env.vars.entries.filter (!·.isPlace)
  get? : ∀ name, '=' ∉ name → name ≠ Builtin.pwd → name ≠ Builtin.oldpwd →
    s'.env.get? name = s.env.get? name
  session : s' = { s with env := s'.env }

namespace Session.KeepsOthers

variable {s s' s'' : Session}

theorem refl (s : Session) : s.KeepsOthers s := ⟨rfl, fun _ _ _ _ => rfl, rfl⟩

theorem trans (h : s.KeepsOthers s') (h' : s'.KeepsOthers s'') : s.KeepsOthers s'' where
  entries := h'.entries.trans h.entries
  get? name hn hp ho := (h'.get? name hn hp ho).trans (h.get? name hn hp ho)
  session := by rw [h'.session, h.session]

theorem set (s : Session) {name : Text} (hname : name = Builtin.pwd ∨ name = Builtin.oldpwd)
    (value : Text) : s.KeepsOthers { s with env := s.env.set name value } := by
  have hproper : (Environment.Change.set name value).Proper := by
    obtain rfl | rfl := hname <;> exact ⟨by decide, by decide⟩
  refine ⟨s.env.filter_set hproper.2 value fun e he => ?_, fun other hn hp ho => ?_, rfl⟩
  · obtain rfl | rfl := hname <;> simp [Entry.isPlace, he]
  · refine (Environment.Change.get?_act hproper s.env hn).trans (if_neg fun hother => ?_)
    obtain rfl | rfl := hname
    · exact hp hother
    · exact ho hother

end Session.KeepsOthers

namespace Builtin

variable {m : Machine ω} {s : Session} {w : ω} {argv : List Text} {target written now here there : Text}

/-! ## One change of the directory -/

theorem enter_of_ok {w' : ω} (he : m.enter w target = .ok w') (hd : m.workingDirectory w' = .ok now) :
    enter m target written s w = ⟨{ s with env := (departed m s w).set pwd now }, w', written, .ok 0⟩ := by
  unfold enter
  rw [he]
  dsimp only
  rw [hd]
  rfl

theorem enter_ok (h : (enter m target written s w).result = .ok 0) :
    ∃ w' now, m.enter w target = .ok w' ∧ m.workingDirectory w' = .ok now ∧
      enter m target written s w = ⟨{ s with env := (departed m s w).set pwd now }, w', written, .ok 0⟩ := by
  cases he : m.enter w target with
  | error e => simp [enter, he] at h
  | ok w' =>
    cases hd : m.workingDirectory w' with
    | error e => simp [enter, he, hd] at h
    | ok now => exact ⟨w', now, rfl, hd, enter_of_ok he hd⟩

theorem get?_oldpwd_departed (m : Machine ω) (s : Session) (w : ω) :
    (departed m s w).get? oldpwd = (left? m s w).or (s.env.get? oldpwd) := by
  unfold departed
  cases left? m s w with
  | none => rfl
  | some dir => exact Environment.Change.get?_act (c := .set oldpwd dir) ⟨by decide, by decide⟩ s.env (by decide)

theorem get?_pwd_set (env : Environment) (now : Text) : (env.set pwd now).get? pwd = some now :=
  Environment.Change.get?_act (c := .set pwd now) ⟨by decide, by decide⟩ env (by decide)

theorem get?_oldpwd_set (env : Environment) (now : Text) :
    (env.set pwd now).get? oldpwd = env.get? oldpwd :=
  Environment.Change.get?_act (c := .set pwd now) ⟨by decide, by decide⟩ env (by decide)

theorem keepsOthers_departed (m : Machine ω) (s : Session) (w : ω) :
    s.KeepsOthers { s with env := departed m s w } := by
  unfold departed
  cases left? m s w with
  | none => exact .refl s
  | some dir => exact .set s (.inr rfl) dir

theorem keepsOthers_arrived (m : Machine ω) (s : Session) (w : ω) (now : Text) :
    s.KeepsOthers { s with env := (departed m s w).set pwd now } :=
  (keepsOthers_departed m s w).trans (.set { s with env := departed m s w } (.inl rfl) now)

/-- What a `cd` leaves that succeeds. It is in the directory it was to go to, `PWD` is what the machine reports
then, and `OLDPWD` what `PWD` was, or else where the machine was; if that cannot be told it is kept. -/
structure Entered (m : Machine ω) (argv : List Text) (s : Session) (w : ω) (now : Text) (r : Reply ω Text) :
    Prop where
  entered : ∃ target, target? s argv = some target ∧ m.enter w target = .ok r.world
  reported : m.workingDirectory r.world = .ok now
  pwd : r.session.env.get? pwd = some now
  oldpwd : r.session.env.get? oldpwd =
    ((s.env.get? Builtin.pwd).or (m.workingDirectory w).toOption).or (s.env.get? oldpwd)
  others : s.KeepsOthers r.session

theorem entered_of_ok (h : (cd.run m argv s w).result = .ok 0) :
    ∃ now, Entered m argv s w now (cd.run m argv s w) := by
  have hcd : cd.run m argv s w = runCd m argv s w := rfl
  rw [hcd] at h ⊢
  obtain ⟨target, written, htarget, hrun⟩ | ⟨-, hrun⟩ := runCd_cases m argv s w
  · rw [hrun] at h ⊢
    obtain ⟨w', now, henter, hnow, hreply⟩ := enter_ok h
    rw [hreply]
    refine ⟨now, ⟨target, htarget, henter⟩, hnow, get?_pwd_set _ now, ?_, keepsOthers_arrived m s w now⟩
    rw [get?_oldpwd_set, get?_oldpwd_departed]
    rfl
  · simp [hrun] at h

end Builtin

/-! ## There and back -/

/-- However the machine moves between some directories from now on, each of them can be entered by its path, and
is then reported under that path. -/
def Machine.Reachable (m : Machine ω) (dirs : List Text) (w : ω) : Prop :=
  ∀ u, Relation.ReflTransGen (fun u v => ∃ dir ∈ dirs, m.enter u dir = .ok v) w u →
    ∀ dir ∈ dirs, ∃ v, m.enter u dir = .ok v ∧ m.workingDirectory v = .ok dir

theorem Machine.Reachable.enter {m : Machine ω} {dirs : List Text} {w : ω} (h : m.Reachable dirs w)
    {dir : Text} (hdir : dir ∈ dirs) :
    ∃ v, m.enter w dir = .ok v ∧ m.workingDirectory v = .ok dir ∧ m.Reachable dirs v := by
  obtain ⟨v, henter, hreported⟩ := h w .refl dir hdir
  exact ⟨v, henter, hreported, fun u hu => h u (.head ⟨dir, hdir, henter⟩ hu)⟩

namespace Builtin

variable {m : Machine ω} {s s₀ : Session} {w : ω} {argv : List Text} {now before here there : Text}
  {dirs : List Text} {r : Reply ω Text}

/-- `cd -` after a command. -/
def cdBack (m : Machine ω) (r : Reply ω Text) : Reply ω Text := cd.run m ["cd".toList, ['-']] r.session r.world

/-- The machine is in the directory `now`, and the two variables say that it is and was in `before`. All else
is as in the session `s₀`. -/
structure Stands (m : Machine ω) (s₀ : Session) (now before : Text) (r : Reply ω Text) : Prop where
  result : r.result = .ok 0
  reported : m.workingDirectory r.world = .ok now
  pwd : r.session.env.get? pwd = some now
  oldpwd : r.session.env.get? oldpwd = some before
  others : s₀.KeepsOthers r.session

/-- The directory that the shell is in now has also been shown. -/
structure Returned (m : Machine ω) (s₀ : Session) (now before : Text) (r : Reply ω Text) : Prop
    extends Stands m s₀ now before r where
  written : r.written = unlines [now]

/-- The step of the alternation: the two directories change their roles. -/
theorem Stands.cdBack (h : Stands m s₀ now before r) (hreach : m.Reachable dirs r.world)
    (hbefore : before ∈ dirs) :
    Returned m s₀ before now (cdBack m r) ∧ m.Reachable dirs (Builtin.cdBack m r).world := by
  obtain ⟨v, henter, hreported, hreach'⟩ := hreach.enter hbefore
  have hrun : Builtin.cdBack m r = enter m before (unlines [before]) r.session r.world := by
    show runCd m ["cd".toList, ['-']] r.session r.world = _
    unfold runCd
    dsimp only [List.getElem?_cons_succ, List.getElem?_cons_zero]
    rw [h.oldpwd]
    rfl
  rw [hrun, enter_of_ok henter hreported]
  refine ⟨⟨⟨rfl, hreported, get?_pwd_set _ before, ?_, h.others.trans (keepsOthers_arrived ..)⟩, rfl⟩, hreach'⟩
  rw [get?_oldpwd_set, get?_oldpwd_departed, left?, h.pwd]
  rfl

theorem Stands.iterate_cdBack (h : Stands m s₀ there here r) (hreach : m.Reachable [here, there] r.world)
    (k : Nat) : Stands m s₀ there here ((Builtin.cdBack m)^[2 * k] r) ∧
      m.Reachable [here, there] ((Builtin.cdBack m)^[2 * k] r).world := by
  induction k with
  | zero => exact ⟨h, hreach⟩
  | succ k ih =>
    obtain ⟨hthere, hreach⟩ := ih
    obtain ⟨hhere, hreach⟩ := hthere.cdBack hreach (by simp)
    obtain ⟨hthere, hreach⟩ := hhere.toStands.cdBack hreach (by simp)
    rw [Nat.mul_succ, Function.iterate_succ_apply', Function.iterate_succ_apply']
    exact ⟨hthere.toStands, hreach⟩

/-- A `cd` that succeeds leaves the shell in a directory `there`. If `PWD` named no other directory before than
the one that the machine was in, and the two stay reachable, then each `cd -` from now on succeeds: the first,
the third and so on go back to where the shell was, and those between them to `there`. -/
theorem cd_alternates (m : Machine ω) (argv : List Text) (s : Session) (w : ω)
    (h : (cd.run m argv s w).result = .ok 0) :
    ∃ there, Entered m argv s w there (cd.run m argv s w) ∧
      ∀ here, m.workingDirectory w = .ok here → (s.env.get? pwd = none ∨ s.env.get? pwd = some here) →
        m.Reachable [here, there] (cd.run m argv s w).world →
        ∀ k, Returned m s here there ((cdBack m)^[2 * k + 1] (cd.run m argv s w)) ∧
          Returned m s there here ((cdBack m)^[2 * k + 2] (cd.run m argv s w)) := by
  obtain ⟨there, hentered⟩ := entered_of_ok h
  refine ⟨there, hentered, fun here hhere hpwd hreach k => ?_⟩
  -- the one place where the variable and the machine have to agree
  have holdpwd : (cd.run m argv s w).session.env.get? oldpwd = some here := by
    rw [hentered.oldpwd, hhere]
    obtain hpwd | hpwd := hpwd <;> rw [hpwd] <;> rfl
  have hstands : Stands m s there here (cd.run m argv s w) :=
    ⟨h, hentered.reported, hentered.pwd, holdpwd, hentered.others⟩
  obtain ⟨hthere, hreach⟩ := hstands.iterate_cdBack hreach k
  obtain ⟨hback, hreach⟩ := hthere.cdBack hreach (by simp)
  obtain ⟨hforth, -⟩ := hback.toStands.cdBack hreach (by simp)
  rw [Function.iterate_succ_apply', Function.iterate_succ_apply', Function.iterate_succ_apply']
  exact ⟨hback, hforth⟩

end Builtin

/-! ## On a host -/

namespace Host

theorem FileTree.enterable_of_isAbsolute {t : FileTree} {path : Text} (h : Path.isAbsolute path = true)
    (cwd cwd' : Nat) : t.enterable cwd path = t.enterable cwd' path := by
  have hstart : startOf cwd path = startOf cwd' path := by rw [startOf, startOf, if_pos h, if_pos h]
  simp only [enterable, findDirectory, find, locate, hstart]

theorem tree_enter {h h' : Host} {path : Text} (henter : h.enter path = .ok h') : h'.tree = h.tree := by
  unfold enter at henter
  cases hid : h.tree.enterable h.cwd (Text.toOctetText path) with
  | error e => simp [hid, Except.map] at henter
  | ok id =>
    obtain rfl : { h with cwd := id } = h' := by simpa [hid, Except.map] using henter
    rfl

theorem workingDirectory_eq {h : Host} {path : Text} (hpath : h.tree.pathOf? h.cwd = some path) :
    h.workingDirectory = .ok (Text.ofOctetText path) := by
  unfold workingDirectory
  rw [hpath]

/-- Directories of a host stay reachable that can be entered by their paths, if these are from the root. -/
theorem reachable {h : Host} {dirs : List Text}
    (hdirs : ∀ dir ∈ dirs, Path.isAbsolute (Text.toOctetText dir) = true ∧
      ∃ id, h.tree.enterable FileTree.root (Text.toOctetText dir) = .ok id ∧
        (h.tree.pathOf? id).map Text.ofOctetText = some dir) :
    machine.Reachable dirs h := by
  intro u hu dir hdir
  have htree : u.tree = h.tree := by
    induction hu with
    | refl => rfl
    | tail _ hstep ih =>
      obtain ⟨_, -, henter⟩ := hstep
      exact (tree_enter henter).trans ih
  obtain ⟨habsolute, id, henter, hpath⟩ := hdirs dir hdir
  obtain ⟨path, hpath', rfl⟩ := Option.map_eq_some_iff.1 hpath
  rw [FileTree.enterable_of_isAbsolute habsolute _ u.cwd, ← htree] at henter
  refine ⟨{ u with cwd := id }, ?_, workingDirectory_eq (htree ▸ hpath')⟩
  show Except.map _ _ = _
  rw [henter]
  rfl

end Host

namespace Builtin

open Host in
/-- From a directory below the root, without `PWD`, and by a path that is not from the root. -/
theorem cd_alternates_from_unset_pwd :
    let s := Session.start "sh".toList {} (.ofPairs [("A".toList, "1".toList), ("PWDS".toList, "2".toList)])
    let r := cd.run Host.machine ["cd".toList, ['p']] s Host.overlaid
    r.result = .ok 0 ∧
    r.session.env.vars.texts =
      ["A=1".toList, "PWDS=2".toList, "OLDPWD=/w".toList, "PWD=/w/p".toList] ∧
    ∀ k, Returned Host.machine s "/w".toList "/w/p".toList ((cdBack Host.machine)^[2 * k + 1] r) ∧
      Returned Host.machine s "/w/p".toList "/w".toList ((cdBack Host.machine)^[2 * k + 2] r) := by
  intro s r
  have h : r.result = .ok 0 := by subst r s; cbv
  obtain ⟨there, hentered, hback⟩ := cd_alternates Host.machine ["cd".toList, ['p']] s Host.overlaid h
  have hreported : Host.machine.workingDirectory r.world = .ok "/w/p".toList := by subst r s; cbv
  obtain rfl : "/w/p".toList = there := Except.ok.inj (hreported.symm.trans hentered.reported)
  refine ⟨h, by subst r s; cbv, hback "/w".toList (by cbv) (.inl (by decide)) ?_⟩
  refine Host.reachable ?_
  simp only [List.mem_cons, List.not_mem_nil, or_false, forall_eq_or_imp, forall_eq]
  exact ⟨⟨by cbv, 1, by cbv, by cbv⟩, by cbv, 2, by cbv, by cbv⟩

end Builtin

end LineShell
