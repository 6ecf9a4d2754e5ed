import LineShell.Proofs.Environment.Kept
import LineShell.Proofs.Machine
import Mathlib.Data.List.Induction

/-!
# Variables that reach programs

* `Bindings.filter_foldl_put` : of each name, what is there when values have been put in one after another;
* `Machine.Starts` : a program is started; `Machine.RefusesOnlyNul` : what it is refused for is a NUL in a
  variable, as far as the variables go;
* `Builtin.Setenvs` : calls of `setenv`, one after another, that all succeed; `Builtin.inForce` : the value that
  a name was given last;
* `Builtin.Delivers` : a program is still started after them, and finds these values.

`Builtin.delivers_iff` : it does, unless a value or its name has a NUL in it, or the name was inherited twice.
-/

namespace LineShell

variable {ω : Type}

/-! ## Values put in one after another -/

namespace Bindings

theorem filter_put (bs : List (Text × Text)) (name value other : Text) :
    (put bs name value).filter (·.1 = other) =
      if other = name then (name, value) :: (bs.filter (·.1 = other)).tail else bs.filter (·.1 = other) := by
  induction bs with
  | nil =>
    by_cases ho : other = name
    · simp [put, ho]
    · simp [put, ho, Ne.symm ho]
  | cons p bs ih =>
    rw [put]
    by_cases hkey : p.1 = name
    · rw [if_pos hkey]
      by_cases ho : other = name
      · simp [ho, hkey]
      · simp [ho, hkey, Ne.symm ho]
    · rw [if_neg hkey, List.filter_cons, ih, List.filter_cons]
      by_cases ho : other = name
      · simp [ho, hkey]
      · simp [ho]

def puts (bs settings : List (Text × Text)) : List (Text × Text) :=
  settings.foldl (fun bs p => put bs p.1 p.2) bs

/-- The last value of a name comes in the place of the first one, and those behind it stay. -/
theorem filter_puts (bs settings : List (Text × Text)) (name : Text) :
    (puts bs settings).filter (·.1 = name) =
      (settings.reverse.lookup name).elim (bs.filter (·.1 = name))
        fun value => (name, value) :: (bs.filter (·.1 = name)).tail := by
  induction settings using List.reverseRecOn with
  | nil => rfl
  | append_singleton settings p ih =>
    obtain ⟨key, value⟩ := p
    rw [puts, List.foldl_append, List.foldl_cons, List.foldl_nil, ← puts, filter_put, ih, List.reverse_append,
      List.reverse_singleton, List.singleton_append, lookup_cons_eq_ite]
    by_cases hkey : name = key
    · subst hkey
      rw [if_pos rfl, if_pos rfl]
      cases settings.reverse.lookup name <;> rfl
    · rw [if_neg hkey, if_neg hkey]

theorem mem_of_lookup_reverse {bs : List (Text × Text)} {name value : Text}
    (hlast : bs.reverse.lookup name = some value) : (name, value) ∈ bs := by
  obtain ⟨front, behind, heq, -⟩ := List.lookup_eq_some_iff.1 hlast
  exact List.mem_reverse.1 (heq ▸ List.mem_append_right front List.mem_cons_self)

theorem lookup_reverse_eq_getLast? (bs : List (Text × Text)) (name : Text) :
    bs.reverse.lookup name = (bs.filter (·.1 = name)).getLast?.map (·.2) := by
  induction bs using List.reverseRecOn with
  | nil => rfl
  | append_singleton bs p ih =>
    obtain ⟨key, value⟩ := p
    rw [List.reverse_append, List.reverse_singleton, List.singleton_append, lookup_cons_eq_ite, List.filter_append]
    by_cases hkey : name = key
    · simp [hkey]
    · simp [hkey, Ne.symm hkey, ih]

end Bindings

namespace Environment

/-- The variables with some values set in them one after another. -/
def sets (env : Environment) (settings : List (Text × Text)) : Environment :=
  settings.foldl (fun env p => env.set p.1 p.2) env

theorem Coherent.sets {env : Environment} (h : env.Coherent) (settings : List (Text × Text)) :
    (env.sets settings).Coherent := by
  induction settings generalizing env with
  | nil => exact h
  | cons p settings ih => exact ih (.of_stale rfl)

theorem bindings_sets (env : Environment) {settings : List (Text × Text)} (hn : ∀ p ∈ settings, '=' ∉ p.1) :
    (env.sets settings).vars.bindings = Bindings.puts env.vars.bindings settings := by
  induction settings generalizing env with
  | nil => rfl
  | cons p settings ih =>
    obtain ⟨hp, hsettings⟩ := List.forall_mem_cons.1 hn
    have hrest := ih (env.set p.1 p.2) hsettings
    rwa [bindings_set_eq_put env hp] at hrest

theorem mem_snapshot_iff {env : Environment} (h : env.Coherent) {p : Text × Text} :
    p ∈ env.snapshot ↔ p ∈ env.vars.bindings ∧ p.1 ≠ [] := by
  rw [h.snapshot, pairs_eq, List.mem_filter]
  simp

section Sets

variable {env : Environment} {settings : List (Text × Text)} {name value : Text}

/-- Programs are given the last value of each name, and of the other names what they were given before. -/
theorem mem_snapshot_sets (h : env.Coherent) (hs : ∀ p ∈ settings, p.1 ≠ [] ∧ '=' ∉ p.1) {p : Text × Text}
    (hp : p ∈ (env.sets settings).snapshot) :
    p ∈ env.snapshot ∨ settings.reverse.lookup p.1 = some p.2 := by
  rw [mem_snapshot_iff (h.sets settings), bindings_sets env fun p hp => (hs p hp).2] at hp
  obtain ⟨hp, hne⟩ := hp
  have hnamed : p ∈ (Bindings.puts env.vars.bindings settings).filter (·.1 = p.1) :=
    List.mem_filter.2 ⟨hp, by simp⟩
  rw [Bindings.filter_puts] at hnamed
  cases hlast : settings.reverse.lookup p.1 with
  | none =>
    rw [hlast] at hnamed
    exact .inl ((mem_snapshot_iff h).2 ⟨(List.mem_filter.1 hnamed).1, hne⟩)
  | some value =>
    rw [hlast] at hnamed
    rcases List.mem_cons.1 hnamed with heq | hold
    · exact .inr (congrArg (some ·.2) heq).symm
    · exact .inl ((mem_snapshot_iff h).2 ⟨(List.mem_filter.1 (List.mem_of_mem_tail hold)).1, hne⟩)

theorem mem_snapshot_sets_of_lookup (h : env.Coherent) (hs : ∀ p ∈ settings, p.1 ≠ [] ∧ '=' ∉ p.1)
    (hlast : settings.reverse.lookup name = some value) : (name, value) ∈ (env.sets settings).snapshot := by
  have hne : name ≠ [] := (hs _ (Bindings.mem_of_lookup_reverse hlast)).1
  refine (mem_snapshot_iff (h.sets settings)).2 ⟨?_, hne⟩
  have hnamed : (name, value) ∈ (Bindings.puts env.vars.bindings settings).filter (·.1 = name) := by
    rw [Bindings.filter_puts, hlast]
    exact List.mem_cons_self
  rw [bindings_sets env fun p hp => (hs p hp).2]
  exact (List.mem_filter.1 hnamed).1

/-- A program finds the last value, but for a name with several bindings from before: then the last of those. -/
theorem value?_launch_sets (h : env.Coherent) (hs : ∀ p ∈ settings, p.1 ≠ [] ∧ '=' ∉ p.1)
    (hlast : settings.reverse.lookup name = some value) (path : Text) (argv : List Text) :
    (External.launch path argv (env.sets settings)).value? name =
      if 1 < env.vars.names.count name then env.vars.bindings.reverse.lookup name else some value := by
  have hne : name ≠ [] := (hs _ (Bindings.mem_of_lookup_reverse hlast)).1
  have hcount : env.vars.names.count name = (env.vars.bindings.filter (·.1 = name)).length := by
    rw [Table.names, List.count_eq_countP, List.countP_map, List.countP_eq_length_filter]
    congr 1
    exact List.filter_congr fun p _ => beq_eq_decide ..
  show (env.sets settings).snapshot.reverse.lookup name = _
  rw [(h.sets settings).snapshot, pairs_eq, ← List.filter_reverse, lookup_filter_named hne,
    bindings_sets env fun p hp => (hs p hp).2, Bindings.lookup_reverse_eq_getLast?, Bindings.filter_puts, hlast,
    Bindings.lookup_reverse_eq_getLast?, hcount]
  generalize env.vars.bindings.filter (·.1 = name) = old
  cases old with
  | nil => rfl
  | cons first rest =>
    cases rest with
    | nil => rfl
    | cons second rest =>
      rw [if_pos (by simp)]
      rfl

end Sets

end Environment

/-! ## Starting programs -/

def Machine.Starts (m : Machine ω) (w : ω) (l : Launch) : Prop := ∃ r, m.launch w l = .ok r

/-- No program is started with a NUL in a variable. One that is started is started with other variables, too, if
each new one has a name without a `=` and no NUL. -/
structure Machine.RefusesOnlyNul (m : Machine ω) : Prop where
  refuses : ∀ w l, m.Starts w l → ∀ p ∈ l.vars, '\x00' ∉ p.1 ++ p.2
  accepts : ∀ w l vars, m.Starts w l →
    (∀ p ∈ vars, p ∈ l.vars ∨ p.1 ≠ [] ∧ '=' ∉ p.1 ∧ '\x00' ∉ p.1 ++ p.2) → m.Starts w { l with vars }

namespace Bench

/-- The small machine, but no program is started with a NUL in a variable. -/
def strict : Machine Bench :=
  { machine with
    launch := fun b l =>
      if l.vars.any (fun p => '\x00' ∈ p.1 ++ p.2) then .error .nulInArgument else b.launch l }

theorem refusesOnlyNul : strict.RefusesOnlyNul := by
  have hstarts : ∀ (b : Bench) (l : Launch), strict.Starts b l ↔
      (∀ p ∈ l.vars, '\x00' ∉ p.1 ++ p.2) ∧ ∃ r, b.launch l = .ok r := by
    intro b l
    unfold Machine.Starts strict
    dsimp only
    split
    · next hany =>
      refine iff_of_false (by simp) fun hall => ?_
      obtain ⟨p, hp, hnul⟩ := List.any_eq_true.1 hany
      exact hall.1 p hp (of_decide_eq_true hnul)
    · next hnone =>
      refine (and_iff_right fun p hp hnul => hnone ?_).symm
      exact List.any_eq_true.2 ⟨p, hp, decide_eq_true hnul⟩
  refine ⟨fun b l h => ((hstarts b l).1 h).1, fun b l vars h hvars => ?_⟩
  obtain ⟨hclean, hr⟩ := (hstarts b l).1 h
  refine (hstarts b _).2 ⟨fun p hp => ?_, hr⟩
  rcases hvars p hp with hold | ⟨-, -, hnul⟩
  · exact hclean p hold
  · exact hnul

end Bench

namespace Builtin

/-- The name and the value that the words of a `setenv` give. -/
def setting? : List Text → Option (Text × Text)
  | [_, name, value] => some (name, value)
  | _ => none

/-- The value that a name is given last. -/
def inForce (calls : List (List Text)) (name : Text) : Option Text :=
  (calls.filterMap setting?).reverse.lookup name

/-- `setenv` runs with the words of each call in turn, and succeeds each time. -/
inductive Setenvs (m : Machine ω) : Session → ω → List (List Text) → Session → ω → Prop where
  | nil (s : Session) (w : ω) : Setenvs m s w [] s w
  | cons {s s' : Session} {w w' : ω} {call : List Text} {calls : List (List Text)}
      (hok : (setenv.run m call s w).result = .ok 0)
      (behind : Setenvs m (setenv.run m call s w).session (setenv.run m call s w).world calls s' w') :
      Setenvs m s w (call :: calls) s' w'

variable {m : Machine ω} {s s' : Session} {w w' : ω} {calls : List (List Text)} {path : Text}
  {argv : List Text}

theorem setenv_ok {call : List Text} (hok : (setenv.run m call s w).result = .ok 0) :
    ∃ name value, setting? call = some (name, value) ∧ name ≠ [] ∧ '=' ∉ name ∧
      setenv.run m call s w = ⟨{ s with env := s.env.set name value }, w, [], .ok 0⟩ := by
  simp only [run] at hok ⊢
  unfold runSetenv at hok ⊢
  split at hok
  · next name value =>
    split at hok
    · simp at hok
    · next hgood =>
      obtain ⟨hne, hn⟩ : name ≠ [] ∧ '=' ∉ name := by simpa using hgood
      exact ⟨name, value, rfl, hne, hn, if_neg hgood⟩
  · simp at hok

theorem Setenvs.env_eq (h : Setenvs m s w calls s' w') :
    w' = w ∧ s'.env = s.env.sets (calls.filterMap setting?) ∧
      ∀ p ∈ calls.filterMap setting?, p.1 ≠ [] ∧ '=' ∉ p.1 := by
  induction h with
  | nil => exact ⟨rfl, rfl, List.forall_mem_nil _⟩
  | cons hok _ ih =>
    obtain ⟨name, value, hcall, hne, hn, hrun⟩ := setenv_ok hok
    rw [hrun] at ih
    obtain ⟨hw, henv, hall⟩ := ih
    rw [List.filterMap_cons_some hcall]
    exact ⟨hw, henv, List.forall_mem_cons.2 ⟨⟨hne, hn⟩, hall⟩⟩

/-- The program is started after the calls, and finds the values that they gave. -/
structure Delivers (m : Machine ω) (calls : List (List Text)) (s' : Session) (w' : ω) (path : Text)
    (argv : List Text) : Prop where
  starts : m.Starts w' (External.launch path argv s'.env)
  found : ∀ name value, inForce calls name = some value →
    (External.launch path argv s'.env).value? name = some value

/-- A program that is started before some calls of `setenv` that succeed is started after them exactly if no value
in force, and no name of one, has a NUL in it. All values in force are handed over to it; it finds them as well,
but for a name that had several bindings from before, of which it finds the last one. -/
theorem delivers_iff (hm : m.RefusesOnlyNul) (henv : s.env.Coherent)
    (hstarts : m.Starts w (External.launch path argv s.env)) (h : Setenvs m s w calls s' w') :
    (Delivers m calls s' w' path argv ↔ ∀ name value, inForce calls name = some value →
      '\x00' ∉ name ++ value ∧
        (1 < s.env.vars.names.count name → s.env.vars.bindings.reverse.lookup name = some value)) ∧
    (m.Starts w' (External.launch path argv s'.env) ↔
      ∀ name value, inForce calls name = some value → '\x00' ∉ name ++ value) ∧
    ∀ name value, inForce calls name = some value →
      (name, value) ∈ (External.launch path argv s'.env).vars := by
  obtain ⟨rfl, hs', hall⟩ := h.env_eq
  have hmem : ∀ name value, inForce calls name = some value →
      (name, value) ∈ (External.launch path argv s'.env).vars := fun name value hlast =>
    hs' ▸ Environment.mem_snapshot_sets_of_lookup henv hall hlast
  have hvalue : ∀ name value, inForce calls name = some value →
      (External.launch path argv s'.env).value? name =
        if 1 < s.env.vars.names.count name then s.env.vars.bindings.reverse.lookup name else some value :=
    fun name value hlast => hs' ▸ Environment.value?_launch_sets henv hall hlast path argv
  have hiff : m.Starts w' (External.launch path argv s'.env) ↔
      ∀ name value, inForce calls name = some value → '\x00' ∉ name ++ value := by
    constructor
    · exact fun hstarts' name value hlast => hm.refuses w' _ hstarts' _ (hmem name value hlast)
    · intro hclean
      refine hm.accepts w' _ _ hstarts fun p hp => ?_
      rw [hs'] at hp
      rcases Environment.mem_snapshot_sets henv hall hp with hold | hlast
      · exact .inl hold
      · obtain ⟨hne, hn⟩ := hall p (Bindings.mem_of_lookup_reverse hlast)
        exact .inr ⟨hne, hn, hclean _ _ hlast⟩
  refine ⟨⟨fun hd name value hlast => ⟨hiff.1 hd.starts name value hlast, fun hcount => ?_⟩, fun hclean =>
    ⟨hiff.2 fun name value hlast => (hclean name value hlast).1, fun name value hlast => ?_⟩⟩, hiff, hmem⟩
  · have hfound := hd.found name value hlast
    rwa [hvalue name value hlast, if_pos hcount] at hfound
  · rw [hvalue name value hlast]
    split
    · next hcount => exact (hclean name value hlast).2 hcount
    · rfl

/-- Two values for one inherited name, a value with a `=` in it and an empty one. -/
theorem delivers_of_values_like_entries :
    let m := Bench.strict
    let b := Bench.plain
    let path := "/bin/true".toList
    let argv := ["true".toList]
    let strings := ["PATH=/bin".toList, "A=1".toList].map Utf8.encode
    let s := Session.start "sh".toList {} (.ofInherited (strings.filterMap Environment.splitInherited))
    let calls := ["setenv A 2", "setenv B x=y", "setenv A 3"].map fun line => Line.words line.toList
    let s' := { s with env := s.env.sets [("A".toList, ['2']), ("B".toList, "x=y".toList), ("A".toList, ['3'])] }
    m.RefusesOnlyNul ∧ s.env.Coherent ∧ m.Starts b (External.launch path argv s.env) ∧
      Setenvs m s b calls s' b ∧ Delivers m calls s' b path argv ∧
      (External.launch path argv s'.env).vars =
        [("PATH".toList, "/bin".toList), ("A".toList, ['3']), ("B".toList, "x=y".toList)] := by
  intro m b path argv strings s calls s'
  have henv : s.env.Coherent := .of_stale (Environment.stale_ofInherited _)
  have hstarts : m.Starts b (External.launch path argv s.env) := ⟨(⟨[], .exited 0⟩, b), by decide +kernel⟩
  have hcalls : Setenvs m s b calls s' b :=
    .cons rfl (.cons rfl (.cons rfl (.nil ..)))
  have hclean : ∀ p ∈ calls.filterMap setting?, '\x00' ∉ p.1 ++ p.2 ∧ s.env.vars.names.count p.1 ≤ 1 := by
    decide +kernel
  obtain ⟨hiff, -⟩ := delivers_iff Bench.refusesOnlyNul henv hstarts hcalls
  refine ⟨Bench.refusesOnlyNul, henv, hstarts, hcalls, hiff.2 fun name value hlast => ?_, by decide +kernel⟩
  obtain ⟨hnul, hcount⟩ := hclean _ (Bindings.mem_of_lookup_reverse hlast)
  exact ⟨hnul, fun h => absurd h (Nat.not_lt.2 hcount)⟩

/-- A value with a NUL in it is set by a line, and then programs that could be started are not. -/
theorem not_delivers_of_nul :
    let m := Bench.strict
    let b := Bench.plain
    let path := "/bin/true".toList
    let argv := ["true".toList]
    let s := Session.start "sh".toList {} (.ofPairs [("PATH".toList, "/bin".toList)])
    let calls := ["setenv A x\x00y"].map fun line => Line.words line.toList
    let s' := { s with env := s.env.set "A".toList "x\x00y".toList }
    m.RefusesOnlyNul ∧ s.env.Coherent ∧ (External.run m path argv s b).result = .ok 0 ∧
      Setenvs m s b calls s' b ∧
      (External.run m path argv s' b).result = .error (.notStarted .nulInArgument) ∧
      ¬ Delivers m calls s' b path argv := by
  intro m b path argv s calls s'
  have hrefused : m.launch b (External.launch path argv s'.env) = .error .nulInArgument := by decide +kernel
  refine ⟨Bench.refusesOnlyNul, .of_stale rfl, by decide +kernel, .cons rfl (.nil ..),
    by decide +kernel, fun hd => ?_⟩
  obtain ⟨r, hr⟩ := hd.starts
  simp [hrefused] at hr

end Builtin

end LineShell
