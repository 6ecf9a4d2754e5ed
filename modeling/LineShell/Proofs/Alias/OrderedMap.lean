import LineShell.Proofs.Environment.OrderedMap

/-!
# Aliases as an ordered map

* `Bindings.redefine` : a value behind all others in the place of the old one, or no value if it is empty.
  `lookup_redefine`, `remove_redefine` : what is then found, and that all else stays as it was;
* `AliasTable.Represents a bs` : the entries of `a` are `bs` written out, each name once and no value empty;
* `AliasTable.Call` : a definition or a removal; `Represents.act` : the bindings follow every call;
* `AliasTable.OrderedMap a bs` : what is found and shown, and what a definition does.

`AliasTable.orderedMap_ofCalls` : aliases that are defined and removed in an empty table are an ordered map.
-/

namespace LineShell

/-! ## Bindings -/

namespace Bindings

variable {bs : List (Text × Text)} {name : Text}

/-- A value behind all others, and no longer in its old place; an empty value is no value. -/
def redefine (bs : List (Text × Text)) (name value : Text) : List (Text × Text) :=
  remove bs name ++ if value = [] then [] else [(name, value)]

/-- A binding as it is shown. -/
def shown (p : Text × Text) : Text := p.1 ++ "='".toList ++ p.2 ++ ['\x27']

theorem not_mem_names_remove (bs : List (Text × Text)) (name : Text) :
    name ∉ (remove bs name).map (·.1) := by
  rw [List.mem_map]
  rintro ⟨p, hp, rfl⟩
  simpa using (List.mem_filter.1 hp).2

theorem remove_redefine (bs : List (Text × Text)) (name value : Text) :
    remove (redefine bs name value) name = remove bs name := by
  have hold : remove (remove bs name) name = remove bs name :=
    remove_of_not_mem (not_mem_names_remove bs name)
  unfold redefine
  unfold remove at hold ⊢
  rw [List.filter_append, hold]
  split <;> simp

theorem redefine_redefine (bs : List (Text × Text)) (name value value' : Text) :
    redefine (redefine bs name value) name value' = redefine bs name value' := by
  rw [redefine, remove_redefine, redefine]

theorem lookup_redefine (bs : List (Text × Text)) (name value other : Text) :
    (redefine bs name value).lookup other =
      if other = name then (if value = [] then none else some value) else bs.lookup other := by
  rw [redefine, List.lookup_append, lookup_remove]
  by_cases ho : other = name
  · rw [if_pos ho, if_pos ho, Option.none_or]
    split
    · rfl
    · rw [lookup_cons_eq_ite, if_pos ho]
  · rw [if_neg ho, if_neg ho]
    split
    · exact Option.or_none
    · rw [lookup_cons_eq_ite, if_neg ho]
      exact Option.or_none

theorem forall_mem_redefine {P : Text × Text → Prop} (h : ∀ p ∈ bs, P p) {value : Text}
    (hnew : value ≠ [] → P (name, value)) : ∀ p ∈ redefine bs name value, P p := by
  intro p hp
  rcases List.mem_append.1 hp with hp | hp
  · exact h p (List.mem_filter.1 hp).1
  · split at hp
    · exact absurd hp (List.not_mem_nil)
    · next hne => exact List.mem_singleton.1 hp ▸ hnew hne

theorem nodup_names_remove (h : (bs.map (·.1)).Nodup) (name : Text) :
    ((remove bs name).map (·.1)).Nodup :=
  h.sublist (List.filter_sublist.map _)

theorem nodup_names_redefine (h : (bs.map (·.1)).Nodup) (name value : Text) :
    ((redefine bs name value).map (·.1)).Nodup := by
  have hremoved := nodup_names_remove h name
  rw [redefine, List.map_append]
  split
  · simpa using hremoved
  · refine List.nodup_append.2 ⟨hremoved, List.nodup_singleton _, ?_⟩
    rintro key hkey _ hname rfl
    rw [List.mem_singleton.1 hname] at hkey
    exact not_mem_names_remove bs name hkey

end Bindings

/-! ## Entries -/

theorem Entry.binding?_ofBinding {p : Text × Text} (hp : '=' ∉ p.1) : (ofBinding p).binding? = some p :=
  binding?_eq_some_iff.2 ⟨rfl, hp⟩

namespace AliasTable

theorem renderEntry_ofBinding {p : Text × Text} (hp : '=' ∉ p.1) :
    renderEntry (.ofBinding p) = Bindings.shown p := by
  rw [renderEntry, Entry.ofBinding, Text.breakAt_append hp]
  rfl

/-- The entries are the given bindings written out. No two have the same name, and none is without a
value. -/
structure Represents (a : AliasTable) (bs : List (Text × Text)) : Prop where
  entries : a.table.entries = bs.map Entry.ofBinding
  named : ∀ p ∈ bs, '=' ∉ p.1
  valued : ∀ p ∈ bs, p.2 ≠ []
  nodup : (bs.map (·.1)).Nodup

namespace Represents

variable {a b : AliasTable} {bs : List (Text × Text)} {name : Text}

theorem empty : AliasTable.empty.Represents [] :=
  ⟨rfl, List.forall_mem_nil _, List.forall_mem_nil _, List.nodup_nil⟩

theorem bindings (h : a.Represents bs) : a.table.bindings = bs := by
  have hentry : ∀ p ∈ bs, (Entry.ofBinding p).binding? = some p :=
    fun p hp => Entry.binding?_ofBinding (h.named p hp)
  rw [Table.bindings, h.entries, List.filterMap_map]
  exact (List.filterMap_congr hentry).trans List.filterMap_some

theorem eq (ha : a.Represents bs) (hb : b.Represents bs) : a = b := by
  have hentries : a.table.entries = b.table.entries := by rw [ha.entries, hb.entries]
  exact congrArg (fun es => (⟨⟨es⟩⟩ : AliasTable)) hentries

theorem lookup (h : a.Represents bs) (hn : '=' ∉ name) : a.lookup name = bs.lookup name := by
  rw [AliasTable.lookup, Table.find?_bind_value (Table.not_misreads hn), h.bindings]

theorem has_iff (h : a.Represents bs) (hn : '=' ∉ name) :
    a.has name = true ↔ name ∈ bs.map (·.1) := by
  rw [AliasTable.has, Table.any_hasName (Table.not_misreads hn), Table.names, h.bindings]

theorem drop (h : a.Represents bs) (hn : '=' ∉ name) :
    a.drop name = (decide (name ∈ bs.map (·.1)), a.remove name) :=
  congrArg (·, a.remove name) (Bool.eq_iff_iff.2 ((h.has_iff hn).trans decide_eq_true_iff.symm))

theorem renderAll (h : a.Represents bs) : a.renderAll = bs.map Bindings.shown := by
  rw [AliasTable.renderAll, h.entries, List.map_map]
  exact List.map_congr_left fun p hp => renderEntry_ofBinding (h.named p hp)

/-- The entry that is found under a name is its binding written out. -/
theorem find? (h : a.Represents bs) (hn : '=' ∉ name) :
    a.table.find? name = (bs.lookup name).map fun value => .ofBinding (name, value) := by
  have hnamed := h.named
  rw [Table.find?, h.entries]
  clear h
  induction bs with
  | nil => rfl
  | cons p bs ih =>
    obtain ⟨hp, hbs⟩ := List.forall_mem_cons.1 hnamed
    obtain ⟨key, value⟩ := p
    have hkey : (Entry.ofBinding (key, value)).name? = some key := Entry.name?_ofBinding hp
    rw [List.map_cons, Bindings.lookup_cons_eq_ite]
    by_cases hname : name = key
    · subst hname
      rw [List.find?_cons_of_pos (Entry.name?_eq_some_iff.1 hkey).1, if_pos rfl]
      rfl
    · have hother : ¬ (Entry.ofBinding (key, value)).hasName name = true := fun hhas =>
        hname (Option.some.inj ((Entry.name?_eq_some_iff.2 ⟨hhas, hn⟩).symm.trans hkey))
      rw [List.find?_cons_of_neg hother, if_neg hname, ih hbs]

theorem render? (h : a.Represents bs) (hn : '=' ∉ name) :
    a.render? name = (bs.lookup name).map fun value => Bindings.shown (name, value) := by
  rw [AliasTable.render?, h.find? hn, Option.map_map]
  exact Option.map_congr fun value _ => renderEntry_ofBinding hn

/-! ## Changes -/

theorem remove (h : a.Represents bs) (hn : '=' ∉ name) :
    (a.remove name).Represents (Bindings.remove bs name) where
  entries := by
    rw [(exactName_iff.2 (Table.not_misreads hn)).remove, h.entries, List.filter_map, Bindings.remove]
    refine congrArg _ (List.filter_congr fun p hp => ?_)
    rw [Function.comp_apply, Entry.name?_ofBinding (h.named p hp)]
    simp
  named p hp := h.named p (List.mem_filter.1 hp).1
  valued p hp := h.valued p (List.mem_filter.1 hp).1
  nodup := Bindings.nodup_names_remove h.nodup name

theorem define? (h : a.Represents bs) (hn : '=' ∉ name) (value : Text) :
    ∃ b, a.define? (name ++ '=' :: value) = some b ∧ b.Represents (Bindings.redefine bs name value) := by
  have hremoved := h.remove hn
  rw [AliasTable.define?, Text.breakAt_append hn]
  refine ⟨_, rfl, ?_, Bindings.forall_mem_redefine h.named fun _ => hn,
    Bindings.forall_mem_redefine h.valued id, Bindings.nodup_names_redefine h.nodup name value⟩
  dsimp only
  cases value with
  | nil => simpa [Bindings.redefine] using hremoved.entries
  | cons c value =>
    show (a.remove name).table.entries ++ [_] = _
    rw [hremoved.entries, Bindings.redefine, if_neg (by simp), List.map_append]
    rfl

theorem define (h : a.Represents bs) (hn : '=' ∉ name) (value : Text) :
    (a.define (name ++ '=' :: value)).Represents (Bindings.redefine bs name value) := by
  obtain ⟨b, hb, hrep⟩ := h.define? hn value
  rwa [AliasTable.define, hb]

end Represents

/-- A text without a `=` is no definition. -/
theorem define?_eq_none_iff (a : AliasTable) {text : Text} : a.define? text = none ↔ '=' ∉ text := by
  rw [define?, Option.map_eq_none_iff, Text.breakAt_eq_none_iff]

theorem define_of_not_mem (a : AliasTable) {text : Text} (h : '=' ∉ text) : a.define text = a := by
  rw [define, a.define?_eq_none_iff.2 h]
  rfl

/-! ## Calls -/

/-- What can be done to a table of aliases. -/
inductive Call where
  | define (text : Text)
  | remove (name : Text)
  deriving DecidableEq, Repr

namespace Call

/-- Any text may be given as a definition, but no `=` is in the name of an alias to remove. -/
def Proper : Call → Prop
  | define _ => True
  | remove name => '=' ∉ name

def act (a : AliasTable) : Call → AliasTable
  | define text => a.define text
  | remove name => a.remove name

/-- What a call does to the names and values themselves. A text without a `=` does nothing. -/
def onBindings (bs : List (Text × Text)) : Call → List (Text × Text)
  | define text =>
    match Text.breakAt '=' text with
    | none => bs
    | some (name, value) => Bindings.redefine bs name value
  | remove name => Bindings.remove bs name

instance (c : Call) : Decidable c.Proper := by
  cases c <;> unfold Proper <;> infer_instance

end Call

theorem Represents.act {a : AliasTable} {bs : List (Text × Text)} (h : a.Represents bs) {c : Call}
    (hc : c.Proper) : (c.act a).Represents (c.onBindings bs) := by
  cases c with
  | define text =>
    simp only [Call.act, Call.onBindings]
    cases hb : Text.breakAt '=' text with
    | none => rwa [a.define_of_not_mem (Text.breakAt_eq_none_iff.1 hb)]
    | some p =>
      rw [Text.eq_of_breakAt hb]
      exact h.define (Text.not_mem_of_breakAt hb) p.2
  | remove name => exact h.remove hc

/-- The aliases after some calls on no aliases. -/
def ofCalls (calls : List Call) : AliasTable := calls.foldl Call.act empty

theorem represents_ofCalls (calls : List Call) (hc : ∀ c ∈ calls, c.Proper) :
    (ofCalls calls).Represents (calls.foldl Call.onBindings []) := by
  have hfold : ∀ (a : AliasTable) (bs : List (Text × Text)), a.Represents bs →
      (calls.foldl Call.act a).Represents (calls.foldl Call.onBindings bs) := by
    induction calls with
    | nil => exact fun a bs h => h
    | cons c calls ih =>
      intro a bs h
      obtain ⟨hproper, hrest⟩ := List.forall_mem_cons.1 hc
      exact ih hrest _ _ (h.act hproper)
  exact hfold empty [] .empty

/-! ## The map -/

/-- What aliases are that are the ordered map `bs`, and what becomes of them. -/
structure OrderedMap (a : AliasTable) (bs : List (Text × Text)) : Prop where
  bindings : a.table.bindings = bs
  bound : ∀ e ∈ a.table.entries, ∃ name value, e.binding? = some (name, value) ∧ value ≠ []
  nodup : a.table.names.Nodup
  renderAll : a.renderAll = bs.map Bindings.shown
  lookup : ∀ name, '=' ∉ name → a.lookup name = bs.lookup name
  render? : ∀ name, '=' ∉ name →
    a.render? name = (bs.lookup name).map fun value => Bindings.shown (name, value)
  has_iff : ∀ name, '=' ∉ name → (a.has name = true ↔ name ∈ bs.map (·.1))
  drop : ∀ name, '=' ∉ name → a.drop name = (decide (name ∈ bs.map (·.1)), a.remove name)
  refused : ∀ text, '=' ∉ text → a.define? text = none ∧ a.define text = a
  define? : ∀ name value, '=' ∉ name → ∃ b, a.define? (name ++ '=' :: value) = some b ∧
    b.table.bindings = bs.filter (·.1 ≠ name) ++ if value = [] then [] else [(name, value)]
  lookup_define : ∀ name value other, '=' ∉ name → '=' ∉ other →
    (a.define (name ++ '=' :: value)).lookup other =
      if other = name then (if value = [] then none else some value) else a.lookup other
  remove : ∀ name, '=' ∉ name → (a.remove name).table.bindings = bs.filter (·.1 ≠ name)
  define_define : ∀ text, (a.define text).define text = a.define text

theorem Represents.orderedMap {a : AliasTable} {bs : List (Text × Text)} (h : a.Represents bs) :
    a.OrderedMap bs where
  bindings := h.bindings
  bound e he := by
    obtain ⟨p, hp, rfl⟩ := List.mem_map.1 (h.entries ▸ he)
    exact ⟨p.1, p.2, Entry.binding?_ofBinding (h.named p hp), h.valued p hp⟩
  nodup := by
    rw [Table.names, h.bindings]
    exact h.nodup
  renderAll := h.renderAll
  lookup _ hn := h.lookup hn
  render? _ hn := h.render? hn
  has_iff _ hn := h.has_iff hn
  drop _ hn := h.drop hn
  refused _ ht := ⟨a.define?_eq_none_iff.2 ht, a.define_of_not_mem ht⟩
  define? _ value hn :=
    let ⟨b, hb, hrep⟩ := h.define? hn value
    ⟨b, hb, hrep.bindings⟩
  lookup_define _ value other hn ho := by
    rw [(h.define hn value).lookup ho, h.lookup ho, Bindings.lookup_redefine]
  remove _ hn := (h.remove hn).bindings
  define_define text := by
    by_cases ht : '=' ∈ text
    · have hsome : Text.breakAt '=' text ≠ none := fun h => Text.breakAt_eq_none_iff.1 h ht
      obtain ⟨⟨name, value⟩, hb⟩ := Option.ne_none_iff_exists'.1 hsome
      obtain rfl := Text.eq_of_breakAt hb
      have hn : '=' ∉ name := Text.not_mem_of_breakAt hb
      have hagain := (h.define hn value).define hn value
      rw [Bindings.redefine_redefine] at hagain
      exact hagain.eq (h.define hn value)
    · rw [a.define_of_not_mem ht, a.define_of_not_mem ht]

/-- However aliases are defined and removed, they are an ordered map: the one to which the same is done, with
each name once, in the order of the last definitions. -/
theorem orderedMap_ofCalls (calls : List Call) (hc : ∀ c ∈ calls, c.Proper) :
    (ofCalls calls).OrderedMap (calls.foldl Call.onBindings []) :=
  (represents_ofCalls calls hc).orderedMap

/-- An empty name, a value with a `=` in it, a text that is no definition, an alias that is defined again and
two that are removed, one of them from between others. -/
theorem orderedMap_ofCalls_empty_name :
    let calls : List Call := [.define "a=1".toList, .define "b=x=y".toList, .define "=z".toList,
      .define "none".toList, .define "c=w".toList, .define "a=2".toList, .remove "c".toList,
      .define "b=".toList]
    let a := ofCalls calls
    (∀ c ∈ calls, c.Proper) ∧ a.OrderedMap (calls.foldl Call.onBindings []) ∧
      a.renderAll = ["='z\x27".toList, "a='2\x27".toList] ∧ a.lookup [] = some "z".toList ∧
      (a.define "a=3".toList).lookup "a".toList = some "3".toList := by
  intro calls a
  have hc : ∀ c ∈ calls, c.Proper := by decide
  have hmap := orderedMap_ofCalls calls hc
  have hdefine := hmap.lookup_define "a".toList "3".toList "a".toList (by decide) (by decide)
  exact ⟨hc, hmap, hmap.renderAll.trans (by decide), (hmap.lookup [] (by decide)).trans (by decide), hdefine⟩

end AliasTable

end LineShell
