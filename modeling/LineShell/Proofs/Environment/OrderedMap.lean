import LineShell.Proofs.Environment
import Mathlib.Data.List.Nodup

/-!
# Variables as an ordered map

* `Bindings.put`, `Bindings.remove` : a value in the place of the old one, or behind all others; no value.
  `lookup_put`, `lookup_remove` : what is then found;
* `Environment.Change` : a variable that is set or removed; `Change.onBindings` : the same of bindings;
* `Environment.Tidy` : the entries are the bindings written out (`Tidy.entries`), and this is kept;
* `Change.bindings_act` : the bindings follow every change;
* `Environment.OrderedMap` : what is found, and which entries there are, after a change.

`Environment.orderedMap_ofChanges` : variables that are set and removed in an empty environment are an
ordered map.
-/

namespace LineShell

/-! ## Bindings -/

namespace Bindings

variable {bs : List (Text × Text)} {name : Text}

def put : List (Text × Text) → Text → Text → List (Text × Text)
  | [], name, value => [(name, value)]
  | p :: bs, name, value => if p.1 = name then (name, value) :: bs else p :: put bs name value

def remove (bs : List (Text × Text)) (name : Text) : List (Text × Text) := bs.filter (·.1 ≠ name)

theorem lookup_cons_eq_ite (key value other : Text) (bs : List (Text × Text)) :
    ((key, value) :: bs).lookup other = if other = key then some value else bs.lookup other := by
  rw [List.lookup_cons]
  by_cases ho : other = key
  · simp [ho]
  · simp [ho, beq_eq_false_iff_ne.2 ho]

theorem lookup_put (bs : List (Text × Text)) (name value other : Text) :
    (put bs name value).lookup other = if other = name then some value else bs.lookup other := by
  induction bs with
  | nil => exact lookup_cons_eq_ite ..
  | cons p bs ih =>
    obtain ⟨key, old⟩ := p
    rw [put, lookup_cons_eq_ite]
    by_cases hkey : key = name
    · rw [if_pos hkey, lookup_cons_eq_ite, hkey]
      split <;> rfl
    · rw [if_neg hkey, lookup_cons_eq_ite, ih]
      by_cases ho : other = key
      · rw [if_pos ho, if_neg (ho ▸ hkey), if_pos ho]
      · rw [if_neg ho, if_neg ho]

theorem lookup_remove (bs : List (Text × Text)) (name other : Text) :
    (remove bs name).lookup other = if other = name then none else bs.lookup other := by
  unfold remove
  induction bs with
  | nil => simp
  | cons p bs ih =>
    obtain ⟨key, old⟩ := p
    rw [lookup_cons_eq_ite]
    by_cases hkey : key = name
    · rw [List.filter_cons_of_neg (by simpa using hkey), ih, hkey]
      split <;> rfl
    · rw [List.filter_cons_of_pos (by simpa using hkey), lookup_cons_eq_ite, ih]
      by_cases ho : other = key
      · rw [if_pos ho, if_neg (ho ▸ hkey), if_pos ho]
      · rw [if_neg ho, if_neg ho]

theorem put_put (bs : List (Text × Text)) (name value value' : Text) :
    put (put bs name value) name value' = put bs name value' := by
  induction bs with
  | nil => simp [put]
  | cons p bs ih =>
    by_cases hkey : p.1 = name <;> simp [put, hkey, ih]

theorem put_append_of_not_mem (hm : name ∉ bs.map (·.1)) (behind : List (Text × Text)) (value : Text) :
    put (bs ++ behind) name value = bs ++ put behind name value := by
  induction bs with
  | nil => rfl
  | cons p bs ih =>
    obtain ⟨hkey, hbs⟩ : name ≠ p.1 ∧ name ∉ bs.map (·.1) := by simpa using hm
    rw [List.cons_append, put, if_neg (Ne.symm hkey), ih hbs]
    rfl

theorem put_of_not_mem (hm : name ∉ bs.map (·.1)) (value : Text) :
    put bs name value = bs ++ [(name, value)] := by
  have h := put_append_of_not_mem hm [] value
  rwa [List.append_nil] at h

theorem remove_of_not_mem (hm : name ∉ bs.map (·.1)) : remove bs name = bs := by
  refine List.filter_eq_self.2 fun p hp => ?_
  rw [decide_eq_true_eq]
  rintro rfl
  exact hm (List.mem_map_of_mem hp)

theorem remove_put_of_not_mem (hm : name ∉ bs.map (·.1)) (value : Text) :
    remove (put bs name value) name = bs := by
  have hbs : remove bs name = bs := remove_of_not_mem hm
  unfold remove at hbs ⊢
  rw [put_of_not_mem hm, List.filter_append, hbs]
  simp

/-- With distinct names nothing but the one value is changed. -/
theorem put_eq_map (hd : (bs.map (·.1)).Nodup) (hm : name ∈ bs.map (·.1)) (value : Text) :
    put bs name value = bs.map fun p => if p.1 = name then (name, value) else p := by
  induction bs with
  | nil => simp at hm
  | cons p bs ih =>
    obtain ⟨hp, hbs⟩ := List.nodup_cons.1 hd
    rw [put, List.map_cons]
    by_cases hkey : p.1 = name
    · have hrest : ∀ q ∈ bs, (if q.1 = name then (name, value) else q) = q :=
        fun q hq => if_neg fun hq' => hp (List.mem_map.2 ⟨q, hq, hq'.trans hkey.symm⟩)
      rw [if_pos hkey, if_pos hkey, List.map_congr_left hrest, List.map_id']
    · have hm' : name ∈ bs.map (·.1) := by simpa [Ne.symm hkey] using hm
      rw [if_neg hkey, if_neg hkey, ih hbs hm']

end Bindings

namespace Environment

/-! ## Changes -/

/-- What can be done to a variable. -/
inductive Change where
  | set (name value : Text)
  | unset (name : Text)
  deriving DecidableEq, Repr

namespace Change

def name : Change → Text
  | set name _ => name
  | unset name => name

/-- A name that a variable can have, if one is set, and no `=` in the name in any case. -/
def Proper : Change → Prop
  | set name _ => name ≠ [] ∧ '=' ∉ name
  | unset name => '=' ∉ name

def act (env : Environment) : Change → Environment
  | set name value => env.set name value
  | unset name => env.unset name

def onBindings (bs : List (Text × Text)) : Change → List (Text × Text)
  | set name value => Bindings.put bs name value
  | unset name => Bindings.remove bs name

/-- What is found under the name of the variable. -/
def value? : Change → Option Text
  | set _ value => some value
  | unset _ => none

instance (c : Change) : Decidable c.Proper := by
  cases c <;> unfold Proper <;> infer_instance

theorem lookup_onBindings (c : Change) (bs : List (Text × Text)) (other : Text) :
    (c.onBindings bs).lookup other = if other = c.name then c.value? else bs.lookup other := by
  cases c with
  | set name value => exact Bindings.lookup_put ..
  | unset name => exact Bindings.lookup_remove ..

end Change

theorem bindings_set_eq_put (env : Environment) {name : Text} (hn : '=' ∉ name) (value : Text) :
    (env.set name value).vars.bindings = Bindings.put env.vars.bindings name value := by
  obtain ⟨hno, hset⟩ | ⟨before, old, behind, hbefore, hb, hset⟩ := bindings_set env hn value
  · rw [hset, Bindings.put_of_not_mem hno]
  · rw [hset, hb, Bindings.put_append_of_not_mem hbefore, Bindings.put, if_pos rfl]

theorem bindings_unset (env : Environment) {name : Text} (hn : '=' ∉ name) :
    (env.unset name).vars.bindings = Bindings.remove env.vars.bindings name := by
  have hexact := exactName_iff.2 (Table.not_misreads (t := env.vars) hn)
  unfold Table.bindings Bindings.remove
  rw [hexact.unset, List.filterMap_filter, List.filter_filterMap]
  refine List.filterMap_congr fun e _ => ?_
  unfold Entry.name?
  cases e.binding? with
  | none => simp
  | some p => by_cases hp : p.1 = name <;> simp [Option.filter, hp]

namespace Change

theorem bindings_act {c : Change} (hc : c.Proper) (env : Environment) :
    (c.act env).vars.bindings = c.onBindings env.vars.bindings := by
  cases c with
  | set name value => exact bindings_set_eq_put env hc.2 value
  | unset name => exact bindings_unset env hc

/-- A change is seen under the name of its variable and under no other. -/
theorem get?_act {c : Change} (hc : c.Proper) (env : Environment) {other : Text} (ho : '=' ∉ other) :
    (c.act env).get? other = if other = c.name then c.value? else env.get? other := by
  have hget : ∀ env : Environment, env.get? other = env.vars.bindings.lookup other :=
    fun _ => Table.find?_bind_value (Table.not_misreads ho)
  rw [hget, hget, bindings_act hc, lookup_onBindings]

theorem get?_act_comm {c d : Change} (hc : c.Proper) (hd : d.Proper) (hcd : c.name ≠ d.name)
    (env : Environment) {other : Text} (ho : '=' ∉ other) :
    (d.act (c.act env)).get? other = (c.act (d.act env)).get? other := by
  rw [get?_act hd _ ho, get?_act hc _ ho, get?_act hc _ ho, get?_act hd _ ho]
  by_cases hoc : other = c.name
  · rw [if_pos hoc, if_neg (hoc ▸ hcd), if_pos hoc]
  · rw [if_neg hoc, if_neg hoc]

end Change

theorem Closed.act {P : Environment → Prop} (h : Closed P) {c : Change} (hc : c.Proper)
    {env : Environment} (hp : P env) : P (c.act env) := by
  cases c with
  | set name value => exact h.set env name value hc.1 hc.2 hp
  | unset name => exact h.unset env name hp

/-! ## Entries -/

end Environment

/-- The entry that a variable is kept in. -/
def Entry.ofBinding (p : Text × Text) : Entry := ⟨0, p.1 ++ '=' :: p.2⟩

theorem Entry.name?_ofBinding {p : Text × Text} (hp : '=' ∉ p.1) : (ofBinding p).name? = some p.1 :=
  name?_eq_some_iff.2 ⟨hasName_iff.2 ⟨p.2, rfl⟩, hp⟩

namespace Environment

@[simp] theorem vars_refresh (env : Environment) : env.refresh.vars = env.vars := by
  unfold refresh
  split <;> rfl

/-- Every entry is a variable and has no number of its own. -/
structure Tidy (env : Environment) : Prop where
  sound : env.Sound
  number : ∀ e ∈ env.vars.entries, e.number = 0

theorem closed_tidy : Closed Tidy where
  set env name value hne hn h := by
    refine ⟨h.sound.set hne hn value, fun e he => ?_⟩
    obtain ⟨-, hset⟩ | ⟨i, hi, -, -, hset⟩ := vars_set env name value
    · rw [hset] at he
      rcases List.mem_append.1 he with he | he
      · exact h.number e he
      · rw [List.mem_singleton.1 he]
    · rw [hset] at he
      rcases List.mem_or_eq_of_mem_set he with he | rfl
      · exact h.number e he
      · exact h.number env.vars.entries[i] (List.getElem_mem hi)
  unset env name h := by
    refine ⟨h.sound.unset name, fun e he => h.number e ?_⟩
    rw [unset_eq_ite] at he
    split at he
    · exact (List.mem_filter.1 he).1
    · exact he
  refresh env h := ⟨h.sound.refresh, fun e he => h.number e (env.vars_refresh ▸ he)⟩

namespace Tidy

variable {env env' : Environment}

theorem empty : Environment.empty.Tidy := ⟨.empty, List.forall_mem_nil _⟩

theorem entries (h : env.Tidy) : env.vars.entries = env.vars.bindings.map Entry.ofBinding := by
  have hentry : ∀ e ∈ env.vars.entries, e.binding?.map Entry.ofBinding = some e := by
    intro e he
    obtain ⟨name, -, hname⟩ := h.sound.named e he
    obtain ⟨p, hp, -⟩ := Option.map_eq_some_iff.1 hname
    rw [hp, Option.map_some, Entry.ofBinding, ← (Entry.binding?_eq_some_iff.1 hp).1, ← h.number e he]
  unfold Table.bindings
  rw [List.map_filterMap, List.filterMap_congr hentry, List.filterMap_some]

theorem vars_eq (h : env.Tidy) (h' : env'.Tidy) (hb : env.vars.bindings = env'.vars.bindings) :
    env.vars = env'.vars := by
  have hentries : env.vars.entries = env'.vars.entries := by rw [h.entries, h'.entries, hb]
  exact congrArg Table.mk hentries

theorem set_set (h : env.Tidy) {name : Text} (hne : name ≠ []) (hn : '=' ∉ name) (value value' : Text) :
    (env.set name value).set name value' = env.set name value' := by
  have honce := closed_tidy.set env name value hne hn h
  have hvars : ((env.set name value).set name value').vars = (env.set name value').vars := by
    refine vars_eq (closed_tidy.set _ name value' hne hn honce) (closed_tidy.set _ name value' hne hn h) ?_
    rw [bindings_set_eq_put _ hn, bindings_set_eq_put _ hn, bindings_set_eq_put _ hn, Bindings.put_put]
  -- the list for programs is left as it is, and stale from now on
  exact congrArg (fun vars => (⟨vars, env.kept, true⟩ : Environment)) hvars

theorem vars_set_unset (h : env.Tidy) {name : Text} (hne : name ≠ []) (hn : '=' ∉ name) (value : Text)
    (hm : name ∉ env.vars.names) : ((env.set name value).unset name).vars = env.vars := by
  refine vars_eq (closed_tidy.unset _ name (closed_tidy.set env name value hne hn h)) h ?_
  rw [bindings_unset _ hn, bindings_set_eq_put _ hn, Bindings.remove_put_of_not_mem hm]

theorem entries_set (h : env.Tidy) {name : Text} (hne : name ≠ []) (hn : '=' ∉ name) (value : Text) :
    (env.set name value).vars.entries =
      (Bindings.put env.vars.bindings name value).map Entry.ofBinding := by
  rw [(closed_tidy.set env name value hne hn h).entries, bindings_set_eq_put _ hn]

theorem entries_set_of_mem (h : env.Tidy) {name : Text} (hne : name ≠ []) (hn : '=' ∉ name)
    (value : Text) (hm : name ∈ env.vars.names) :
    (env.set name value).vars.entries = env.vars.entries.map fun e =>
      if e.name? = some name then .ofBinding (name, value) else e := by
  rw [h.entries_set hne hn, Bindings.put_eq_map h.sound.nodup hm]
  conv => rhs; rw [h.entries]
  rw [List.map_map, List.map_map]
  refine List.map_congr_left fun p hp => ?_
  obtain ⟨e, -, he⟩ := List.mem_filterMap.1 hp
  have hname := Entry.name?_ofBinding (Text.not_mem_of_breakAt he : '=' ∉ p.1)
  by_cases hkey : p.1 = name <;> simp [hname, hkey]

theorem entries_set_of_not_mem (h : env.Tidy) {name : Text} (hne : name ≠ []) (hn : '=' ∉ name)
    (value : Text) (hm : name ∉ env.vars.names) :
    (env.set name value).vars.entries = env.vars.entries ++ [.ofBinding (name, value)] := by
  rw [h.entries_set hne hn, Bindings.put_of_not_mem hm, List.map_append, ← h.entries]
  rfl

end Tidy

/-! ## The map -/

/-- What an ordered map from names to values is and does. -/
structure OrderedMap (env : Environment) : Prop where
  nodup : env.vars.names.Nodup
  entries : env.vars.entries = env.vars.bindings.map Entry.ofBinding
  get? : ∀ name, '=' ∉ name → env.get? name = env.vars.bindings.lookup name
  has_iff : ∀ name, '=' ∉ name → (env.has name = true ↔ name ∈ env.vars.names)
  drop : ∀ name, '=' ∉ name → env.drop name = (decide (name ∈ env.vars.names), env.unset name)
  get?_set : ∀ name value other, name ≠ [] → '=' ∉ name → '=' ∉ other →
    (env.set name value).get? other = if other = name then some value else env.get? other
  set_of_mem : ∀ name value, name ≠ [] → '=' ∉ name → name ∈ env.vars.names →
    (env.set name value).vars.entries = env.vars.entries.map fun e =>
      if e.name? = some name then .ofBinding (name, value) else e
  set_of_not_mem : ∀ name value, name ≠ [] → '=' ∉ name → name ∉ env.vars.names →
    (env.set name value).vars.entries = env.vars.entries ++ [.ofBinding (name, value)]
  get?_unset : ∀ name other, '=' ∉ name → '=' ∉ other →
    (env.unset name).get? other = if other = name then none else env.get? other
  unset : ∀ name, '=' ∉ name →
    (env.unset name).vars.entries = env.vars.entries.filter (·.name? ≠ some name)
  set_set : ∀ name value value', name ≠ [] → '=' ∉ name →
    (env.set name value).set name value' = env.set name value'
  set_unset : ∀ name value, name ≠ [] → '=' ∉ name → name ∉ env.vars.names →
    ((env.set name value).unset name).vars = env.vars
  comm : ∀ c d : Change, c.Proper → d.Proper → c.name ≠ d.name → ∀ other, '=' ∉ other →
    (d.act (c.act env)).get? other = (c.act (d.act env)).get? other

theorem Tidy.orderedMap {env : Environment} (h : env.Tidy) : env.OrderedMap where
  nodup := h.sound.nodup
  entries := h.entries
  get? _ hn := Table.find?_bind_value (Table.not_misreads hn)
  has_iff _ hn := Table.any_hasName (Table.not_misreads hn)
  drop _ hn := (exactName_iff.2 (Table.not_misreads hn)).drop
  get?_set name value _ hne hn ho := Change.get?_act (c := .set name value) ⟨hne, hn⟩ env ho
  set_of_mem _ value hne hn hm := h.entries_set_of_mem hne hn value hm
  set_of_not_mem _ value hne hn hm := h.entries_set_of_not_mem hne hn value hm
  get?_unset name _ hn ho := Change.get?_act (c := .unset name) hn env ho
  unset _ hn := (exactName_iff.2 (Table.not_misreads hn)).unset
  set_set _ value value' hne hn := h.set_set hne hn value value'
  set_unset _ value hne hn hm := h.vars_set_unset hne hn value hm
  comm _ _ hc hd hcd _ ho := Change.get?_act_comm hc hd hcd env ho

/-- The variables after some changes to no variables. -/
def ofChanges (changes : List Change) : Environment := changes.foldl Change.act empty

/-- However variables are set and removed, they are an ordered map: the one to which the same changes are
made, with each name once, in the order in which they came. -/
theorem orderedMap_ofChanges (changes : List Change) (hc : ∀ c ∈ changes, c.Proper) :
    (ofChanges changes).OrderedMap ∧
      (ofChanges changes).vars.bindings = changes.foldl Change.onBindings [] := by
  have hfold : ∀ env : Environment, env.Tidy →
      (changes.foldl Change.act env).Tidy ∧
        (changes.foldl Change.act env).vars.bindings =
          changes.foldl Change.onBindings env.vars.bindings := by
    induction changes with
    | nil => exact fun env h => ⟨h, rfl⟩
    | cons c changes ih =>
      intro env h
      obtain ⟨hproper, hrest⟩ := List.forall_mem_cons.1 hc
      obtain ⟨htidy, hbindings⟩ := ih hrest _ (closed_tidy.act hproper h)
      rw [Change.bindings_act hproper] at hbindings
      exact ⟨htidy, hbindings⟩
  obtain ⟨htidy, hbindings⟩ := hfold empty .empty
  exact ⟨htidy.orderedMap, hbindings⟩

/-- Names that begin alike, a value with a `=` in it, one that is set again and one that is removed. -/
theorem orderedMap_ofChanges_alike_names :
    let changes : List Change := [.set "VARIABLE".toList "long".toList, .set "VAR".toList "a=b".toList,
      .unset "VA".toList, .set "A".toList [], .unset "VARIABLE".toList, .set "VAR".toList "c".toList]
    let env := ofChanges changes
    (∀ c ∈ changes, c.Proper) ∧ env.OrderedMap ∧
      env.vars.texts = ["VAR=c".toList, "A=".toList] ∧
      env.vars.bindings = changes.foldl Change.onBindings [] ∧
      (env.set "VAR".toList "d".toList).get? "A".toList = some [] := by
  intro changes env
  have hc : ∀ c ∈ changes, c.Proper := by decide
  obtain ⟨hmap, hbindings⟩ := orderedMap_ofChanges changes hc
  have hget := hmap.get?_set "VAR".toList "d".toList "A".toList (by decide) (by decide) (by decide)
  exact ⟨hc, hmap, by decide, hbindings, hget.trans (by decide)⟩

end Environment

end LineShell
