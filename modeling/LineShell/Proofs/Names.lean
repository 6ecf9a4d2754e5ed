import LineShell.Builtin

/-!
# Names and bindings

An entry `NAME=VALUE` binds the text in front of its first `=`. The tables look for a name by comparing
the front of the whole text; this is the same, but for words that hold a `=` themselves.

* `Entry.binding?`, `Table.bindings`, `Table.names` : what an entry binds, and what a table does;
* `Table.Misreads t w` : `w` holds a `=` and some text of `t` begins with `w=`;
* `Environment.ExactName`, `AliasTable.ExactName` : everything that is done with the word `w` is done
  with the entry called `w`; by `exactName_iff` this holds unless `w` is misread;
* `nodup_names_ofPairs`, `nodup_names_define` : at most one entry is called `w`.
-/

namespace LineShell

namespace Text

theorem not_mem_of_breakAt {c : Char} {t a b : Text} (h : breakAt c t = some (a, b)) : c ∉ a := by
  unfold breakAt at h
  split at h
  · simp at h
  · obtain ⟨rfl, -⟩ : t.takeWhile (· ≠ c) = a ∧ _ = b := by simpa using h
    intro hc
    have := List.all_takeWhile (p := (· ≠ c)) (l := t)
    rw [List.all_eq_true] at this
    simpa using this c hc

theorem breakAt_append {c : Char} {a : Text} (ha : c ∉ a) (b : Text) :
    breakAt c (a ++ c :: b) = some (a, b) := by
  have hne : ∀ d ∈ a, decide (d ≠ c) = true := by
    intro d hd
    simp only [ne_eq, decide_eq_true_eq]
    rintro rfl
    exact ha hd
  rw [breakAt, List.dropWhile_append_of_pos hne, List.takeWhile_append_of_pos hne]
  simp

end Text

namespace Entry

/-- The texts in front of and behind the first `=`. -/
def binding? (e : Entry) : Option (Text × Text) := Text.breakAt '=' e.text

/-- The text in front of the first `=`. -/
def name? (e : Entry) : Option Text := e.binding?.map (·.1)

theorem binding?_eq_some_iff {e : Entry} {name value : Text} :
    e.binding? = some (name, value) ↔ e.text = name ++ '=' :: value ∧ '=' ∉ name := by
  constructor
  · intro h
    exact ⟨Text.eq_of_breakAt h, Text.not_mem_of_breakAt h⟩
  · rintro ⟨ht, hn⟩
    rw [binding?, ht, Text.breakAt_append hn]

theorem name?_eq_some_iff {e : Entry} {name : Text} :
    e.name? = some name ↔ e.hasName name = true ∧ '=' ∉ name := by
  rw [name?, Option.map_eq_some_iff, hasName_iff]
  constructor
  · rintro ⟨⟨_, value⟩, hb, rfl⟩
    obtain ⟨ht, hn⟩ := binding?_eq_some_iff.1 hb
    exact ⟨⟨value, ht⟩, hn⟩
  · rintro ⟨⟨value, ht⟩, hn⟩
    exact ⟨(name, value), binding?_eq_some_iff.2 ⟨ht, hn⟩, rfl⟩

end Entry

namespace Table

/-- What the entries bind, oldest first. -/
def bindings (t : Table) : List (Text × Text) := t.entries.filterMap Entry.binding?

/-- The names that are bound, oldest first. -/
def names (t : Table) : List Text := t.bindings.map (·.1)

/-- A word with a `=` in it is taken for a name that it is not. -/
def Misreads (t : Table) (w : Text) : Prop := '=' ∈ w ∧ ∃ e ∈ t.entries, e.hasName w = true

theorem mem_names {t : Table} {w : Text} : w ∈ t.names ↔ ∃ e ∈ t.entries, e.name? = some w := by
  simp only [names, bindings, List.mem_map, List.mem_filterMap, Entry.name?, Option.map_eq_some_iff]
  constructor
  · rintro ⟨p, ⟨e, he, hp⟩, rfl⟩
    exact ⟨e, he, p, hp, rfl⟩
  · rintro ⟨e, he, p, hp, rfl⟩
    exact ⟨p, ⟨e, he, hp⟩, rfl⟩

theorem not_misreads {t : Table} {w : Text} (hw : '=' ∉ w) : ¬ t.Misreads w := fun h => hw h.1

theorem hasName_eq_of_not_misreads {t : Table} {w : Text} (h : ¬ t.Misreads w) {e : Entry}
    (he : e ∈ t.entries) : e.hasName w = decide (e.name? = some w) := by
  rw [Bool.eq_iff_iff, decide_eq_true_eq, Entry.name?_eq_some_iff]
  refine ⟨fun hn => ⟨hn, fun hw => h ⟨hw, e, he, hn⟩⟩, fun hn => hn.1⟩

/-- What is found under a word is what the word is bound to. -/
theorem find?_bind_value {t : Table} {w : Text} (h : ¬ t.Misreads w) :
    (t.find? w).bind Entry.value = t.bindings.lookup w := by
  -- an entry that binds nothing has no name, so it is passed over on both sides
  obtain ⟨es⟩ := t
  unfold find? bindings
  induction es with
  | nil => rfl
  | cons e es ih =>
    have hes : ¬ Misreads ⟨es⟩ w := fun ⟨hw, e', he', hn⟩ => h ⟨hw, e', List.mem_cons_of_mem _ he', hn⟩
    have he := hasName_eq_of_not_misreads h (List.mem_cons_self ..)
    specialize ih hes
    dsimp only at ih ⊢
    cases hb : e.binding? with
    | none =>
      have hn : e.hasName w = false := by simp [he, Entry.name?, hb]
      rw [List.find?_cons_of_neg (by simp [hn]), List.filterMap_cons_none hb, ih]
    | some p =>
      obtain ⟨name, value⟩ := p
      rw [List.filterMap_cons_some hb, List.lookup_cons]
      by_cases hw : w = name
      · subst hw
        have hn : e.hasName w = true := by simp [he, Entry.name?, hb]
        have hv : e.value = some value := congrArg (Option.map Prod.snd) hb
        rw [List.find?_cons_of_pos hn, beq_self_eq_true]
        exact hv
      · have hn : e.hasName w = false := by simp [he, Entry.name?, hb, Ne.symm hw]
        rw [List.find?_cons_of_neg (by simp [hn]), beq_eq_false_iff_ne.2 hw, ih]

theorem any_hasName {t : Table} {w : Text} (h : ¬ t.Misreads w) :
    t.entries.any (·.hasName w) = true ↔ w ∈ t.names := by
  rw [List.any_eq_true, mem_names]
  refine exists_congr fun e => and_congr_right fun he => ?_
  rw [hasName_eq_of_not_misreads h he, decide_eq_true_eq]

theorem removeWhere_hasName {t : Table} {w : Text} (h : ¬ t.Misreads w) :
    (t.removeWhere (·.hasName w)).entries = t.entries.filter (·.name? ≠ some w) := by
  refine List.filter_congr fun e he => ?_
  have hn := hasName_eq_of_not_misreads h he
  dsimp only
  rw [hn, ← decide_not]

theorem filter_name?_of_not_mem {t : Table} {w : Text} (h : w ∉ t.names) :
    t.entries.filter (·.name? ≠ some w) = t.entries := by
  refine List.filter_eq_self.2 fun e he => ?_
  simp only [ne_eq, decide_eq_true_eq]
  exact fun hn => h (mem_names.2 ⟨e, he, hn⟩)

theorem names_push (t : Table) (number : Nat) (text : Text) :
    (t.push number text).names = t.names ++ ((Text.breakAt '=' text).map (·.1)).toList := by
  simp only [names, bindings, push, List.filterMap_append, List.map_append]
  cases h : Text.breakAt '=' text with
  | none => simp [Entry.binding?, h]
  | some p => simp [Entry.binding?, h]

theorem nodup_names_removeWhere {t : Table} (h : t.names.Nodup) (drop : Entry → Bool) :
    (t.removeWhere drop).names.Nodup :=
  h.sublist ((List.filter_sublist.filterMap _).map _)

theorem nodup_names_push {t : Table} (h : t.names.Nodup) {number : Nat} {text name value : Text}
    (hb : Text.breakAt '=' text = some (name, value)) (hn : name ∉ t.names) :
    (t.push number text).names.Nodup := by
  rw [names_push, hb]
  refine List.nodup_append.2 ⟨h, by simp, ?_⟩
  intro a ha b hb' hab
  obtain rfl : b = name := by simpa using hb'
  exact hn (hab ▸ ha)

/-- A new text for an entry that keeps its name. -/
theorem names_set {t : Table} {i : Nat} (hi : i < t.entries.length) {text name value : Text}
    (hname : t.entries[i].name? = some name) (hb : Text.breakAt '=' text = some (name, value)) :
    names ⟨t.entries.set i { t.entries[i] with text }⟩ = t.names := by
  obtain ⟨p, hp, rfl⟩ := Option.map_eq_some_iff.1 hname
  have hb' : Entry.binding? { t.entries[i] with text } = some (p.1, value) := hb
  have hs : t.entries = t.entries.take i ++ t.entries[i] :: t.entries.drop (i + 1) := by simp
  unfold names bindings
  dsimp only
  rw [List.set_eq_take_append_cons_drop, if_pos hi, List.filterMap_append,
    List.filterMap_cons_some hb']
  conv => rhs; rw [hs, List.filterMap_append, List.filterMap_cons_some hp]
  simp

end Table

/-! ## Variables -/

namespace Environment

/-- A variable takes the place of the first entry found under its name, or goes behind all others. -/
theorem vars_set (env : Environment) (name value : Text) :
    ((∀ e ∈ env.vars.entries, e.hasName name = false) ∧
      (env.set name value).vars = env.vars.push 0 (name ++ '=' :: value)) ∨
    ∃ (i : Nat) (hi : i < env.vars.entries.length),
      env.vars.entries[i].hasName name = true ∧
      (∀ (j : Nat) (hj : j < i), env.vars.entries[j].hasName name = false) ∧
      (env.set name value).vars =
        ⟨env.vars.entries.set i { env.vars.entries[i] with text := name ++ '=' :: value }⟩ := by
  unfold set
  dsimp only
  cases hp : env.vars.position? name with
  | none => exact .inl ⟨List.findIdx?_eq_none_iff.1 hp, rfl⟩
  | some i =>
    obtain ⟨hi, hname, hfirst⟩ := List.findIdx?_eq_some_iff_getElem.1 hp
    refine .inr ⟨i, hi, hname, fun j hj => by simpa using hfirst j hj, ?_⟩
    have hs : env.vars.setText? i (name ++ '=' :: value) =
        some ⟨env.vars.entries.set i { env.vars.entries[i] with text := name ++ '=' :: value }⟩ := by
      rw [Table.setText?, List.getElem?_eq_getElem hi]
      rfl
    exact congrArg (·.getD env.vars) hs

theorem nodup_names_set {env : Environment} (h : env.vars.names.Nodup) {name : Text}
    (hn : '=' ∉ name) (value : Text) : (env.set name value).vars.names.Nodup := by
  have hb := Text.breakAt_append hn value
  obtain ⟨hno, hset⟩ | ⟨i, hi, hname, -, hset⟩ := vars_set env name value
  · rw [hset]
    refine Table.nodup_names_push h hb fun hm => ?_
    obtain ⟨e, he, he'⟩ := Table.mem_names.1 hm
    have := hno e he
    simp [(Entry.name?_eq_some_iff.1 he').1] at this
  · rw [hset, Table.names_set hi (Entry.name?_eq_some_iff.2 ⟨hname, hn⟩) hb]
    exact h

theorem nodup_names_ofPairs {ps : List (Text × Text)} (hn : ∀ p ∈ ps, '=' ∉ p.1) :
    (ofPairs ps).vars.names.Nodup := by
  have hfold : ∀ env : Environment, env.vars.names.Nodup →
      (ps.foldl (fun env p => env.set p.1 p.2) env).vars.names.Nodup := by
    induction ps with
    | nil => exact fun _ h => h
    | cons p ps ih =>
      intro env h
      have hps : ∀ q ∈ ps, '=' ∉ q.1 := fun q hq => hn q (List.mem_cons_of_mem _ hq)
      exact ih hps _ (nodup_names_set h (hn p (List.mem_cons_self ..)) p.2)
  exact hfold empty List.nodup_nil

/-- Setting a variable changes no entry exactly if it has the value already. -/
theorem vars_set_eq_iff {env : Environment} {name : Text} (hn : '=' ∉ name) (value : Text) :
    (env.set name value).vars = env.vars ↔ env.get? name = some value := by
  unfold get? Table.find?
  obtain ⟨hno, hset⟩ | ⟨i, hi, hname, hfirst, hset⟩ := vars_set env name value
  · have hf : env.vars.entries.find? (·.hasName name) = none := by
      refine List.find?_eq_none.2 fun e he => ?_
      simp [hno e he]
    rw [hset, hf]
    refine iff_of_false (fun h => ?_) (by simp)
    have := congrArg Table.size h
    rw [Table.size_push] at this
    omega
  · obtain ⟨old, hold⟩ := Entry.hasName_iff.1 hname
    have hf : env.vars.entries.find? (·.hasName name) = some env.vars.entries[i] := by
      refine List.find?_eq_some_iff_getElem.2 ⟨hname, i, hi, rfl, fun j hj => ?_⟩
      simp [hfirst j hj]
    have hv : env.vars.entries[i].value = some old := by
      rw [Entry.value, hold, Text.breakAt_append hn]
      rfl
    rw [hset, hf, Option.bind_some, hv]
    constructor
    · intro h
      have ht : name ++ '=' :: value = name ++ '=' :: old := by
        have := congrArg (fun t : Table => t.entries[i]?.map Entry.text) h
        simpa [hold, hi] using this
      simpa using ht.symm
    · intro h
      obtain rfl : old = value := by simpa using h
      rw [← hold]
      show (⟨env.vars.entries.set i env.vars.entries[i]⟩ : Table) = env.vars
      rw [List.set_getElem_self]

/-- All that is done with the word `w` is done with the variable called `w`, and if there is none it is
found nowhere and nothing is removed. A lone `$` is no variable's word. -/
structure ExactName (env : Environment) (w : Text) : Prop where
  get? : env.get? w = env.vars.bindings.lookup w
  expandWord : w ≠ [] → w ≠ ['?'] → w ≠ ['$'] → ∀ (status : Status) (pid : Nat),
    (⟨env, status, pid⟩ : Scope).expandWord ('$' :: w) = (env.vars.bindings.lookup w).getD []
  has : env.has w = true ↔ w ∈ env.vars.names
  drop : env.drop w = (decide (w ∈ env.vars.names), env.unset w)
  unset : (env.unset w).vars.entries = env.vars.entries.filter (·.name? ≠ some w)
  unset_absent : w ∉ env.vars.names → env.unset w = env
  unsetenv : ∀ {ω : Type} (m : Machine ω) (s : Session) (world : ω) (command : Text), s.env = env →
    (Builtin.unsetenv.run m [command, w] s world).session = { s with env := env.unset w } ∧
    (Builtin.unsetenv.run m [command, w] s world).world = world

theorem exactName_iff {env : Environment} {w : Text} :
    env.ExactName w ↔ ¬ env.vars.Misreads w := by
  constructor
  · rintro h ⟨hw, e, he, hn⟩
    have hm : w ∈ env.vars.names := h.has.1 (List.any_eq_true.2 ⟨e, he, hn⟩)
    obtain ⟨e', -, hn'⟩ := Table.mem_names.1 hm
    exact (Entry.name?_eq_some_iff.1 hn').2 hw
  · intro h
    have hget : env.get? w = env.vars.bindings.lookup w := Table.find?_bind_value h
    have hhas : env.has w = true ↔ w ∈ env.vars.names := Table.any_hasName h
    have habsent : w ∉ env.vars.names → env.unset w = env := by
      intro hm
      rw [unset_eq_ite, if_neg (mt hhas.1 hm)]
    have hdrop : env.drop w = (decide (w ∈ env.vars.names), env.unset w) := by
      rw [drop_eq, Bool.eq_iff_iff.2 (hhas.trans decide_eq_true_iff.symm)]
    refine ⟨hget, ?_, hhas, hdrop, ?_, habsent, ?_⟩
    · intro hne hq hd status pid
      rcases w with _ | ⟨c, name⟩
      · exact absurd rfl hne
      · show Scope.value _ (c :: name) = _
        rw [Scope.value, if_neg hq, if_neg hd, hget]
    · by_cases hm : w ∈ env.vars.names
      · rw [unset_eq_ite, if_pos (hhas.2 hm)]
        exact Table.removeWhere_hasName h
      · rw [habsent hm, Table.filter_name?_of_not_mem hm]
    · rintro ω m s world command rfl
      exact ⟨rfl, rfl⟩

end Environment

/-! ## Aliases -/

namespace AliasTable

theorem nodup_names_define {a : AliasTable} (h : a.table.names.Nodup) (definition : Text) :
    (a.define definition).table.names.Nodup := by
  unfold define define?
  cases hb : Text.breakAt '=' definition with
  | none => exact h
  | some p =>
    obtain ⟨name, value⟩ := p
    have hr : (a.remove name).table.names.Nodup := Table.nodup_names_removeWhere h _
    rw [Option.map_some, Option.getD_some]
    dsimp only
    split
    · exact hr
    · refine Table.nodup_names_push hr hb fun hm => ?_
      obtain ⟨e, he, hname⟩ := Table.mem_names.1 hm
      have := (List.mem_filter.1 he).2
      simp [(Entry.name?_eq_some_iff.1 hname).1] at this

theorem nodup_names_foldl_define (definitions : List Text) {a : AliasTable}
    (h : a.table.names.Nodup) : (definitions.foldl define a).table.names.Nodup := by
  induction definitions generalizing a with
  | nil => exact h
  | cons d ds ih => exact ih (nodup_names_define h d)

/-- All that is done with the word `w` is done with the alias called `w`, and if there is none it is
found nowhere and nothing is removed. -/
structure ExactName (a : AliasTable) (w : Text) : Prop where
  lookup : a.lookup w = a.table.bindings.lookup w
  expand : ∀ (depth : Nat) (args : List Text),
    a.expand (depth + 1) (w :: args) =
      match a.table.bindings.lookup w with
      | none => (0, w :: args)
      | some value => ((a.expand depth (value :: args)).1 + 1, (a.expand depth (value :: args)).2)
  has : a.has w = true ↔ w ∈ a.table.names
  drop : a.drop w = (decide (w ∈ a.table.names), a.remove w)
  remove : (a.remove w).table.entries = a.table.entries.filter (·.name? ≠ some w)
  remove_absent : w ∉ a.table.names → a.remove w = a

theorem exactName_iff {a : AliasTable} {w : Text} : a.ExactName w ↔ ¬ a.table.Misreads w := by
  constructor
  · rintro h ⟨hw, e, he, hn⟩
    have hm : w ∈ a.table.names := h.has.1 (List.any_eq_true.2 ⟨e, he, hn⟩)
    obtain ⟨e', -, hn'⟩ := Table.mem_names.1 hm
    exact (Entry.name?_eq_some_iff.1 hn').2 hw
  · intro h
    have hlookup : a.lookup w = a.table.bindings.lookup w := Table.find?_bind_value h
    have hremove := Table.removeWhere_hasName h
    have hhas : a.has w = true ↔ w ∈ a.table.names := Table.any_hasName h
    have hdrop : a.drop w = (decide (w ∈ a.table.names), a.remove w) :=
      congrArg (·, a.remove w) (Bool.eq_iff_iff.2 (hhas.trans decide_eq_true_iff.symm))
    refine ⟨hlookup, ?_, hhas, hdrop, hremove, ?_⟩
    · intro depth args
      simp only [expand, follow, hlookup]
      cases a.table.bindings.lookup w <;> rfl
    · intro hm
      rw [Table.filter_name?_of_not_mem hm] at hremove
      exact congrArg (fun es => (⟨⟨es⟩⟩ : AliasTable)) hremove

end AliasTable

/-! ## Both tables -/

/-- Whatever is set and defined, the names of each table are distinct, and a word is never taken for the
name of another entry; of a word with a `=` in it this is said where no text begins with it and one
more `=`. -/
theorem exactName_of_ofPairs_of_define (ps : List (Text × Text)) (definitions : List Text) (w : Text)
    (hn : ∀ p ∈ ps, p.1 ≠ [] ∧ '=' ∉ p.1) :
    let env := Environment.ofPairs ps
    let a := definitions.foldl AliasTable.define .empty
    env.vars.names.Nodup ∧ a.table.names.Nodup ∧
      (¬ env.vars.Misreads w → env.ExactName w) ∧ (¬ a.table.Misreads w → a.ExactName w) :=
  ⟨Environment.nodup_names_ofPairs fun p hp => (hn p hp).2,
    AliasTable.nodup_names_foldl_define definitions List.nodup_nil,
    Environment.exactName_iff.2, AliasTable.exactName_iff.2⟩

/-- A word with a `=` in it, beside a variable and an alias that its front is the name of. -/
theorem exactName_of_unknown_value :
    let ps := [("A".toList, "x=y".toList), ("AB".toList, "1".toList)]
    let definitions := ["A=ls".toList, "ll=A=x".toList]
    let w := "A=z".toList
    let env := Environment.ofPairs ps
    let a := definitions.foldl AliasTable.define .empty
    (∀ p ∈ ps, p.1 ≠ [] ∧ '=' ∉ p.1) ∧ env.vars.names.Nodup ∧ a.table.names.Nodup ∧
      ¬ env.vars.Misreads w ∧ env.ExactName w ∧ ¬ a.table.Misreads w ∧ a.ExactName w := by
  intro ps definitions w env a
  have hn : ∀ p ∈ ps, p.1 ≠ [] ∧ '=' ∉ p.1 := by decide
  have henv : ¬ env.vars.Misreads w := fun h => absurd h.2 (by decide)
  have ha : ¬ a.table.Misreads w := fun h => absurd h.2 (by decide)
  obtain ⟨hnames, hnames', hexact, hexact'⟩ := exactName_of_ofPairs_of_define ps definitions w hn
  exact ⟨hn, hnames, hnames', henv, hexact henv, ha, hexact' ha⟩

/-- No variable and no alias is called by this word, but it finds and removes one of each; and a lone `$`
stays as it is. -/
theorem misreads_front_of_value :
    let env := Environment.ofPairs [("A".toList, "x=y".toList)]
    let a := AliasTable.empty.define "A=x=y".toList
    let w := "A=x".toList
    w ∉ env.vars.names ∧ env.get? w = some "x=y".toList ∧ env.has w = true ∧
      (env.drop w).1 = true ∧ (env.unset w).vars.entries = [] ∧
      w ∉ a.table.names ∧ a.lookup w = some "x=y".toList ∧
      (a.drop w).1 = true ∧ (a.remove w).table.entries = [] ∧
      [] ∉ env.vars.names ∧ (⟨env, 0, 1⟩ : Scope).expandWord ['$'] = ['$'] := by
  decide

end LineShell
