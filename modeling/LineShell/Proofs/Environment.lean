import LineShell.External
import LineShell.Proofs.Failure

/-!
# Variables, and what programs are given of them

* `lookup_reverse` : of pairs with distinct names it makes no difference which is looked at first;
* `Launch.value?` : what a program finds under a name;
* `Environment.bindings_set`, `Environment.get?_set`, `Environment.value?_launch_set` : what setting a
  variable does;
* `Environment.Sound` : every entry is a variable, no two have one name, and the kept list is not out of
  date; setting, removing and starting a program keep this;
* `Environment.Closed P` : everything that is done to variables keeps `P`; `Closed.run` : so does every
  command;
* `Environment.Sound.value?_launch` : a program finds the values that the shell has.
-/

namespace LineShell

theorem lookup_eq_none_of_not_mem {ps : List (Text × Text)} {name : Text} (h : name ∉ ps.map (·.1)) :
    ps.lookup name = none := by
  rw [List.lookup_eq_none_iff]
  intro p hp
  rw [bne_iff_ne]
  rintro rfl
  exact h (List.mem_map_of_mem hp)

theorem lookup_reverse {ps : List (Text × Text)} (h : (ps.map (·.1)).Nodup) (name : Text) :
    ps.reverse.lookup name = ps.lookup name := by
  induction ps with
  | nil => rfl
  | cons p ps ih =>
    obtain ⟨key, value⟩ := p
    obtain ⟨hp, hps⟩ := List.nodup_cons.1 h
    rw [List.reverse_cons, List.lookup_append, ih hps]
    by_cases hn : name = key
    · subst hn
      simp [lookup_eq_none_of_not_mem hp]
    · simp [List.lookup_cons, beq_eq_false_iff_ne.2 hn]

/-- What the program finds under a name: of two pairs with that name the later one holds. -/
def Launch.value? (l : Launch) (name : Text) : Option Text := l.vars.reverse.lookup name

namespace Environment

/-! ## Setting a variable -/

/-- The first binding of the name is changed, or one is put behind all others. -/
theorem bindings_set (env : Environment) {name : Text} (hn : '=' ∉ name) (value : Text) :
    (name ∉ env.vars.names ∧
      (env.set name value).vars.bindings = env.vars.bindings ++ [(name, value)]) ∨
    ∃ before old behind, name ∉ before.map (·.1) ∧
      env.vars.bindings = before ++ (name, old) :: behind ∧
      (env.set name value).vars.bindings = before ++ (name, value) :: behind := by
  have hb : ∀ number, Entry.binding? ⟨number, name ++ '=' :: value⟩ = some (name, value) :=
    fun _ => Text.breakAt_append hn value
  obtain ⟨hno, hset⟩ | ⟨i, hi, hname, hfirst, hset⟩ := vars_set env name value
  · refine .inl ⟨fun hm => ?_, ?_⟩
    · obtain ⟨e, he, he'⟩ := Table.mem_names.1 hm
      have := hno e he
      simp [(Entry.name?_eq_some_iff.1 he').1] at this
    · rw [hset]
      simp [Table.bindings, Table.push, hb]
  · obtain ⟨old, hold⟩ := Entry.hasName_iff.1 hname
    have hbi : env.vars.entries[i].binding? = some (name, old) :=
      Entry.binding?_eq_some_iff.2 ⟨hold, hn⟩
    have hs : env.vars.entries =
        env.vars.entries.take i ++ env.vars.entries[i] :: env.vars.entries.drop (i + 1) := by simp
    refine .inr ⟨(env.vars.entries.take i).filterMap Entry.binding?, old,
      (env.vars.entries.drop (i + 1)).filterMap Entry.binding?, fun hm => ?_, ?_, ?_⟩
    · -- an entry in front of the first one called `name` would be called so, too
      obtain ⟨⟨_, v⟩, hp, rfl⟩ := List.mem_map.1 hm
      obtain ⟨e, he, hev⟩ := List.mem_filterMap.1 hp
      obtain ⟨j, hj, rfl⟩ := List.mem_take_iff_getElem.1 he
      have hj' := hfirst j (by omega)
      simp [Entry.hasName_iff.2 ⟨v, (Entry.binding?_eq_some_iff.1 hev).1⟩] at hj'
    · unfold Table.bindings
      conv => lhs; rw [hs, List.filterMap_append, List.filterMap_cons_some hbi]
    · rw [hset]
      unfold Table.bindings
      dsimp only
      rw [List.set_eq_take_append_cons_drop, if_pos hi, List.filterMap_append,
        List.filterMap_cons_some (hb _)]

theorem find?_set (env : Environment) (name value : Text) :
    ((env.set name value).vars.find? name).map Entry.text = some (name ++ '=' :: value) := by
  have hnew : ∀ number, Entry.hasName name ⟨number, name ++ '=' :: value⟩ = true :=
    fun _ => Entry.hasName_iff.2 ⟨value, rfl⟩
  unfold Table.find?
  obtain ⟨hno, hset⟩ | ⟨i, hi, -, hfirst, hset⟩ := vars_set env name value
  · have hf : env.vars.entries.find? (·.hasName name) = none := by
      refine List.find?_eq_none.2 fun e he => ?_
      simp [hno e he]
    rw [hset, Table.push, List.find?_append, hf, Option.none_or, List.find?_cons_of_pos (hnew 0)]
    rfl
  · have hf : (env.vars.entries.take i).find? (·.hasName name) = none := by
      refine List.find?_eq_none.2 fun e he => ?_
      obtain ⟨j, hj, rfl⟩ := List.mem_take_iff_getElem.1 he
      simp [hfirst j (by omega)]
    rw [hset]
    dsimp only
    rw [List.set_eq_take_append_cons_drop, if_pos hi, List.find?_append, hf, Option.none_or,
      List.find?_cons_of_pos (hnew _)]
    rfl

theorem get?_set (env : Environment) (name value : Text) :
    (env.set name value).get? name = (Text.breakAt '=' (name ++ '=' :: value)).map (·.2) := by
  obtain ⟨e, he, ht⟩ := Option.map_eq_some_iff.1 (find?_set env name value)
  rw [get?, he, Option.bind_some, Entry.value, ht]

/-! ## What programs are given -/

theorem pairs_eq (env : Environment) :
    env.pairs = env.vars.bindings.filter (!·.1.isEmpty) := by
  rw [pairs, Table.texts, List.filterMap_map]
  rfl

theorem snapshot_of_stale {env : Environment} (h : env.stale = true) : env.snapshot = env.pairs := by
  rw [snapshot, refresh, if_pos h]

theorem lookup_filter_named {name : Text} (hne : name ≠ []) (ps : List (Text × Text)) :
    (ps.filter (!·.1.isEmpty)).lookup name = ps.lookup name := by
  induction ps with
  | nil => rfl
  | cons p ps ih =>
    obtain ⟨key, value⟩ := p
    by_cases hk : key = []
    · subst hk
      rw [List.filter_cons_of_neg (by simp), List.lookup_cons, beq_eq_false_iff_ne.2 hne]
      exact ih
    · rw [List.filter_cons_of_pos (by simpa using hk), List.lookup_cons, List.lookup_cons, ih]

/-- What a program finds under a name that has just been set: its last binding from before, if it had
more than one. -/
theorem value?_launch_set (env : Environment) {name : Text} (hne : name ≠ []) (hn : '=' ∉ name)
    (value path : Text) (argv : List Text) :
    (External.launch path argv (env.set name value)).value? name =
      if 1 < env.vars.names.count name then env.vars.bindings.reverse.lookup name else some value := by
  show (env.set name value).snapshot.reverse.lookup name = _
  rw [snapshot_of_stale rfl, pairs_eq, ← List.filter_reverse, lookup_filter_named hne]
  unfold Table.names
  obtain ⟨hno, hset⟩ | ⟨before, old, behind, hbefore, hb, hset⟩ := bindings_set env hn value
  · have hcount : (env.vars.bindings.map (·.1)).count name = 0 := List.count_eq_zero.2 hno
    rw [hset, if_neg (by omega)]
    simp
  · rw [hset, hb, List.map_append, List.count_append, List.count_eq_zero.2 hbefore]
    simp only [List.map_cons, List.count_cons_self, List.reverse_append, List.reverse_cons,
      List.lookup_append, List.lookup_cons, beq_self_eq_true]
    by_cases hm : name ∈ behind.map (·.1)
    · -- a binding behind the changed one hides it
      have hcount := List.count_pos_iff.2 hm
      obtain ⟨last, hlast⟩ : ∃ last, behind.reverse.lookup name = some last := by
        rw [← Option.isSome_iff_exists, List.lookup_isSome_iff]
        obtain ⟨p, hp, hpn⟩ := List.mem_map.1 hm
        exact ⟨p, List.mem_reverse.2 hp, by simp [hpn]⟩
      rw [if_pos (by omega), hlast]
      rfl
    · have hcount : (behind.map (·.1)).count name = 0 := List.count_eq_zero.2 hm
      have hnone : behind.reverse.lookup name = none :=
        lookup_eq_none_of_not_mem (by simpa using hm)
      rw [if_neg (by omega), hnone]
      rfl

/-- Each entry has a name, no two have the same, and the list kept for programs is that of the entries
unless it is to be made up again. -/
structure Sound (env : Environment) : Prop where
  named : ∀ e ∈ env.vars.entries, ∃ name, name ≠ [] ∧ e.name? = some name
  nodup : env.vars.names.Nodup
  kept : env.stale = false → env.kept = env.pairs

namespace Sound

variable {env : Environment}

theorem empty : Environment.empty.Sound :=
  ⟨List.forall_mem_nil _, List.nodup_nil, nofun⟩

theorem set (h : env.Sound) {name : Text} (hne : name ≠ []) (hn : '=' ∉ name) (value : Text) :
    (env.set name value).Sound := by
  have hnew : ∀ number, Entry.name? ⟨number, name ++ '=' :: value⟩ = some name := fun number =>
    Entry.name?_eq_some_iff.2 ⟨Entry.hasName_iff.2 ⟨value, rfl⟩, hn⟩
  refine ⟨fun e he => ?_, nodup_names_set h.nodup hn value, fun hstale => nomatch hstale⟩
  obtain ⟨-, hset⟩ | ⟨i, hi, -, -, hset⟩ := vars_set env name value
  · rw [hset] at he
    rcases List.mem_append.1 he with he | he
    · exact h.named e he
    · obtain rfl := List.mem_singleton.1 he
      exact ⟨name, hne, hnew _⟩
  · rw [hset] at he
    rcases List.mem_or_eq_of_mem_set he with he | rfl
    · exact h.named e he
    · exact ⟨name, hne, hnew _⟩

theorem unset (h : env.Sound) (name : Text) : (env.unset name).Sound := by
  rw [unset_eq_ite]
  split
  · exact ⟨fun e he => h.named e ((List.mem_filter.1 he).1),
      Table.nodup_names_removeWhere h.nodup _, fun hstale => nomatch hstale⟩
  · exact h

theorem refresh (h : env.Sound) : env.refresh.Sound := by
  unfold Environment.refresh
  split
  · exact ⟨h.named, h.nodup, fun _ => rfl⟩
  · exact h

theorem ofPairs {ps : List (Text × Text)} (hn : ∀ p ∈ ps, p.1 ≠ [] ∧ '=' ∉ p.1) :
    (Environment.ofPairs ps).Sound := by
  have hfold : ∀ env : Environment, env.Sound →
      (ps.foldl (fun env p => env.set p.1 p.2) env).Sound := by
    induction ps with
    | nil => exact fun _ h => h
    | cons p ps ih =>
      intro env h
      obtain ⟨⟨hne, he⟩, hps⟩ := List.forall_mem_cons.1 hn
      exact ih hps _ (h.set hne he p.2)
  exact hfold .empty .empty

theorem map_binding? (h : env.Sound) :
    env.vars.entries.map Entry.binding? = env.vars.bindings.map some := by
  unfold Table.bindings
  have hnamed := h.named
  generalize env.vars.entries = es at hnamed
  induction es with
  | nil => rfl
  | cons e es ih =>
    obtain ⟨⟨_, -, he⟩, hes⟩ := List.forall_mem_cons.1 hnamed
    obtain ⟨p, hp, rfl⟩ := Option.map_eq_some_iff.1 he
    rw [List.filterMap_cons_some hp, List.map_cons, List.map_cons, hp, ih hes]

theorem snapshot (h : env.Sound) : env.snapshot = env.vars.bindings := by
  have hpairs : env.pairs = env.vars.bindings := by
    rw [pairs_eq, List.filter_eq_self]
    intro p hp
    obtain ⟨e, he, hep⟩ := List.mem_filterMap.1 hp
    obtain ⟨name, hne, hname⟩ := h.named e he
    obtain rfl : p.1 = name := by simpa [Entry.name?, hep] using hname
    simpa using hne
  rw [← hpairs, Environment.snapshot, Environment.refresh]
  cases hs : env.stale with
  | false => exact h.kept hs
  | true => rfl

theorem value?_launch (h : env.Sound) (path : Text) (argv : List Text) {name : Text}
    (hn : '=' ∉ name) : (External.launch path argv env).value? name = env.get? name := by
  show env.snapshot.reverse.lookup name = _
  rw [h.snapshot, lookup_reverse h.nodup, get?, Table.find?_bind_value (Table.not_misreads hn)]

end Sound

/-! ## What commands do to variables -/

/-- Setting variables with proper names, removing any, and making up the list for programs keep `P`. -/
structure Closed (P : Environment → Prop) : Prop where
  set : ∀ env name value, name ≠ [] → '=' ∉ name → P env → P (env.set name value)
  unset : ∀ env name, P env → P (env.unset name)
  refresh : ∀ env, P env → P env.refresh

theorem closed_sound : Closed Sound where
  set _ _ value hne hn h := h.set hne hn value
  unset _ name h := h.unset name
  refresh _ h := h.refresh

namespace Closed

variable {ω : Type} {P : Environment → Prop} {s : Session}

theorem foldl_unset (h : Closed P) (names : List Text) {env : Environment} (hp : P env) :
    P (names.foldl Environment.unset env) := by
  induction names generalizing env with
  | nil => exact hp
  | cons name names ih => exact ih (h.unset env name hp)

theorem enter (h : Closed P) (m : Machine ω) (target written : Text) (hp : P s.env) (w : ω) :
    P (Builtin.enter m target written s w).session.env := by
  have hset : ∀ env name value, name = Builtin.pwd ∨ name = Builtin.oldpwd → P env →
      P (env.set name value) := by
    rintro env name value hname henv
    refine h.set env name value ?_ ?_ henv <;> rcases hname with rfl | rfl <;> decide
  unfold Builtin.enter
  cases m.enter w target with
  | error e => exact hp
  | ok w' =>
    dsimp only
    have hdeparted : P (Builtin.departed m s w) := by
      unfold Builtin.departed
      split
      · exact hset _ _ _ (.inr rfl) hp
      · exact hp
    cases m.workingDirectory w' with
    | error e => exact hdeparted
    | ok now => exact hset _ _ _ (.inl rfl) hdeparted

theorem run (h : Closed P) (m : Machine ω) (b : Builtin) (argv : List Text) (hp : P s.env) (w : ω) :
    P (b.run m argv s w).session.env := by
  cases b with
  | exit =>
    simp only [Builtin.run, Builtin.runExit]
    split
    · exact hp
    · split <;> exact hp
  | env => exact hp
  | help => exact hp
  | history => exact hp
  | setenv =>
    simp only [Builtin.run, Builtin.runSetenv]
    split
    · next name value =>
      split
      · exact hp
      · next hok =>
        obtain ⟨hne, hn⟩ : name ≠ [] ∧ '=' ∉ name := by simpa using hok
        exact h.set _ _ _ hne hn hp
    · exact hp
  | unsetenv =>
    simp only [Builtin.run, Builtin.runUnsetenv]
    split
    · exact h.foldl_unset _ hp
    · exact hp
  | cd =>
    simp only [Builtin.run, Builtin.runCd]
    split
    · exact h.enter m _ _ hp w
    · split
      · exact h.enter m _ _ hp w
      · exact hp
    · exact h.enter m _ _ hp w
  | aliases =>
    simp only [Builtin.run, Builtin.runAlias]
    split <;> exact hp

end Closed

end Environment

end LineShell
