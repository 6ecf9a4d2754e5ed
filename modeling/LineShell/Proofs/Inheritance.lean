import LineShell.Proofs.Environment
import LineShell.Proofs.Text.Utf8
import Mathlib.Data.List.Nodup

/-!
# Inherited variables

A process may inherit several variables of one name, and names that begin with `=`. Each becomes an
entry of its own, as it comes.

* `Environment.inheritedPairs` : the variables that are inherited and are texts;
  `Environment.Inheritable` : the names that they can have;
* `Environment.readBack` : what is found of a value; a name that begins with `=` is found together with
  it;
* `Environment.get?_ofInherited` : the first value of a name is found;
* `Environment.value?_launch_set` : a program finds the last value of a name that came more than once,
  also after the name has been set;
* `Environment.Represents env ps` : one entry for a name, each name found with a value that it came with,
  and a value that is set found by the shell and by programs.

`Environment.ofInherited_represents_iff` : this holds of inherited variables exactly if no name came
twice and none begins with `=`.
-/

namespace LineShell

namespace Utf8

theorem encode_of_decode? {bs : Bytes} {t : Text} (h : decode? bs = some t) : encode t = bs := by
  unfold decode? at h
  dsimp only at h
  split at h
  · next he =>
    obtain rfl := Option.some.inj h
    exact he
  · simp at h

theorem mem_encode_of_mem {c : Char} {t : Text} (hc : c ∈ t) {b : UInt8} (hb : b ∈ encodeChar c) :
    b ∈ encode t := List.mem_flatMap.2 ⟨c, hc, hb⟩

end Utf8

namespace Environment

/-- A name that a variable can be inherited under. -/
def Inheritable (name : Text) : Prop := name ≠ [] ∧ '=' ∉ name.tail

/-- An inherited pair as texts; none if its name or its value is not UTF-8. -/
def textPair? (p : Bytes × Bytes) : Option (Text × Text) := do
  let name ← Utf8.decode? p.1
  let value ← Utf8.decode? p.2
  return (name, value)

/-- The variables among inherited octet strings whose names and values are texts, in order. -/
def inheritedPairs (strings : List Bytes) : List (Text × Text) :=
  (strings.filterMap splitInherited).filterMap textPair?

/-- What is found under a name that was given a value: the text behind the first `=` of its entry. -/
def readBack : Text → Text → Text
  | '=' :: rest, value => rest ++ '=' :: value
  | _, value => value

theorem readBack_of_not_mem {name : Text} (h : '=' ∉ name) (value : Text) : readBack name value = value := by
  unfold readBack
  split
  · simp at h
  · rfl

/-! ## Names that can be inherited -/

theorem Inheritable.cases {name : Text} (h : Inheritable name) :
    (name.head? ≠ some '=' ∧ '=' ∉ name) ∨ ∃ rest, name = '=' :: rest ∧ '=' ∉ rest := by
  obtain ⟨hne, ht⟩ := h
  cases name with
  | nil => exact absurd rfl hne
  | cons c rest =>
    by_cases hc : c = '='
    · subst hc
      exact .inr ⟨rest, rfl, ht⟩
    · exact .inl ⟨by simpa using hc, by simpa using ⟨Ne.symm hc, ht⟩⟩

theorem inheritable_of_splitInherited {bs : Bytes} {p : Bytes × Bytes} (hs : splitInherited bs = some p)
    {name : Text} (hname : Utf8.encode name = p.1) : Inheritable name := by
  cases bs with
  | nil => simp [splitInherited] at hs
  | cons b rest =>
    obtain ⟨value, rfl⟩ : ∃ value, (b :: rest.takeWhile (· != 61), value) = p := by
      unfold splitInherited at hs
      dsimp only at hs
      split at hs
      · simp at hs
      · exact ⟨_, Option.some.inj hs⟩
    cases name with
    | nil => simp at hname
    | cons c name =>
      refine ⟨by simp, fun hm => ?_⟩
      -- the octet of `=` would be among those behind the first one
      have hoctet : (61 : UInt8) ∈ Utf8.encode name := Utf8.mem_encode_of_mem hm (by decide)
      obtain ⟨b', more, hc⟩ := List.exists_cons_of_ne_nil (Utf8.encodeChar_ne_nil c)
      have htail : more ++ Utf8.encode name = rest.takeWhile (· != 61) := by
        have : Utf8.encode (c :: name) = b' :: (more ++ Utf8.encode name) := by
          rw [Utf8.encode_cons, hc, List.cons_append]
        exact (List.cons.inj (this.symm.trans hname)).2
      have := List.all_takeWhile (p := fun b : UInt8 => b != 61) (l := rest)
      rw [← htail, List.all_eq_true] at this
      simpa using this 61 (List.mem_append_right _ hoctet)

theorem inheritable_of_mem {strings : List Bytes} {p : Text × Text} (hp : p ∈ inheritedPairs strings) :
    Inheritable p.1 := by
  obtain ⟨q, hq, hqp⟩ := List.mem_filterMap.1 hp
  obtain ⟨bs, -, hbs⟩ := List.mem_filterMap.1 hq
  unfold textPair? at hqp
  cases hname : Utf8.decode? q.1 with
  | none => simp [hname] at hqp
  | some name =>
    cases hvalue : Utf8.decode? q.2 with
    | none => simp [hname, hvalue] at hqp
    | some value =>
      obtain rfl : (name, value) = p := by simpa [hname, hvalue] using hqp
      exact inheritable_of_splitInherited hbs (Utf8.encode_of_decode? hname)

theorem hasName_iff_of_inheritable {name name' value : Text} (h : Inheritable name)
    (h' : Inheritable name') (number : Nat) :
    Entry.hasName name ⟨number, name' ++ '=' :: value⟩ = true ↔ name' = name := by
  rw [Entry.hasName_iff]
  refine ⟨?_, fun heq => ⟨value, by rw [heq]⟩⟩
  rintro ⟨v, hv⟩
  dsimp only at hv
  obtain ⟨hh, hn⟩ | ⟨rest, rfl, hn⟩ := h.cases
  · obtain ⟨hh', hn'⟩ | ⟨rest', rfl, -⟩ := h'.cases
    · have := Text.breakAt_append hn v
      rw [← hv, Text.breakAt_append hn'] at this
      exact (Prod.mk.inj (Option.some.inj this)).1
    · cases name with
      | nil => exact absurd rfl h.1
      | cons c name => simp [← (List.cons.inj hv).1] at hh
  · obtain ⟨hh', -⟩ | ⟨rest', rfl, hn'⟩ := h'.cases
    · cases name' with
      | nil => exact absurd rfl h'.1
      | cons c name' => simp [(List.cons.inj hv).1] at hh'
    · have hv' : rest' ++ '=' :: value = rest ++ '=' :: v := (List.cons.inj hv).2
      have := Text.breakAt_append hn v
      rw [← hv', Text.breakAt_append hn'] at this
      rw [(Prod.mk.inj (Option.some.inj this)).1]

theorem breakAt_inheritable {name : Text} (h : Inheritable name) (value : Text) :
    Text.breakAt '=' (name ++ '=' :: value) =
      some (if '=' ∈ name then [] else name, readBack name value) := by
  obtain ⟨-, hn⟩ | ⟨rest, rfl, -⟩ := h.cases
  · rw [Text.breakAt_append hn, if_neg hn, readBack_of_not_mem hn]
  · rw [if_pos (List.mem_cons_self ..)]
    exact Text.breakAt_append (a := []) (by simp) (rest ++ '=' :: value)

/-! ## Entries -/

theorem entries_ofInherited (strings : List Bytes) :
    (ofInherited (strings.filterMap splitInherited)).vars.entries =
      (inheritedPairs strings).map fun p => ⟨0, p.1 ++ '=' :: p.2⟩ := by
  have htext : ∀ p, inheritedText? p = (textPair? p).map fun q => q.1 ++ '=' :: q.2 := by
    intro p
    unfold inheritedText? textPair?
    cases Utf8.decode? p.1 with
    | none => rfl
    | some name => cases Utf8.decode? p.2 <;> rfl
  have hfold : ∀ (ts : List Text) (env : Environment),
      (ts.foldl (fun env t => { env with vars := env.vars.push 0 t }) env).vars.entries =
        env.vars.entries ++ ts.map (⟨0, ·⟩) := by
    intro ts
    induction ts with
    | nil => simp
    | cons t ts ih => intro env; rw [List.foldl_cons, ih]; simp [Table.push]
  have hall : (strings.filterMap splitInherited).filterMap inheritedText? =
      (inheritedPairs strings).map fun q => q.1 ++ '=' :: q.2 := by
    rw [inheritedPairs, List.map_filterMap]
    exact List.filterMap_congr fun p _ => htext p
  rw [ofInherited, hfold, hall, List.map_map]
  rfl

theorem get?_ofInherited (strings : List Bytes) {name : Text} (h : Inheritable name) :
    (ofInherited (strings.filterMap splitInherited)).get? name =
      ((inheritedPairs strings).lookup name).map (readBack name) := by
  unfold get? Table.find?
  rw [entries_ofInherited]
  have hps : ∀ p ∈ inheritedPairs strings, Inheritable p.1 := fun p => inheritable_of_mem
  generalize inheritedPairs strings = ps at hps
  induction ps with
  | nil => rfl
  | cons p ps ih =>
    obtain ⟨hp, hps'⟩ := List.forall_mem_cons.1 hps
    obtain ⟨name', value⟩ := p
    rw [List.map_cons, List.lookup_cons]
    by_cases hn : name = name'
    · subst hn
      rw [List.find?_cons_of_pos ((hasName_iff_of_inheritable h h 0).2 rfl), beq_self_eq_true]
      simp [Entry.value, breakAt_inheritable h]
    · have hno : ¬ Entry.hasName name ⟨0, name' ++ '=' :: value⟩ = true :=
        fun hm => hn ((hasName_iff_of_inheritable h hp 0).1 hm).symm
      rw [List.find?_cons_of_neg hno, beq_eq_false_iff_ne.2 hn]
      exact ih hps'

theorem get?_set_of_inheritable (env : Environment) {name : Text} (h : Inheritable name) (value : Text) :
    (env.set name value).get? name = some (readBack name value) := by
  rw [get?_set, breakAt_inheritable h]
  rfl

/-! ## Bindings -/

/-- What the entry of an inherited variable binds. -/
def boundAs (p : Text × Text) : Text × Text := (if '=' ∈ p.1 then [] else p.1, readBack p.1 p.2)

theorem bindings_ofInherited (strings : List Bytes) :
    (ofInherited (strings.filterMap splitInherited)).vars.bindings =
      (inheritedPairs strings).map boundAs := by
  unfold Table.bindings
  rw [entries_ofInherited, List.filterMap_map, List.filterMap_eq_map_iff_forall_eq_some]
  exact fun p hp => breakAt_inheritable (inheritable_of_mem hp) p.2

section Proper

variable {name : Text} (hne : name ≠ []) (hn : '=' ∉ name)

include hne hn

theorem lookup_map_boundAs (ps : List (Text × Text)) : (ps.map boundAs).lookup name = ps.lookup name := by
  induction ps with
  | nil => rfl
  | cons p ps ih =>
    obtain ⟨key, value⟩ := p
    rw [List.map_cons, boundAs, List.lookup_cons, List.lookup_cons, ih]
    by_cases hk : '=' ∈ key
    · have hkey : name ≠ key := fun h => hn (h ▸ hk)
      simp [hk, beq_eq_false_iff_ne.2 hne, beq_eq_false_iff_ne.2 hkey]
    · simp [hk, readBack_of_not_mem hk]

theorem count_map_boundAs (ps : List (Text × Text)) :
    ((ps.map boundAs).map (·.1)).count name = (ps.map (·.1)).count name := by
  rw [List.count_eq_countP, List.count_eq_countP, List.map_map, List.countP_map, List.countP_map]
  refine List.countP_congr fun p _ => ?_
  simp only [Function.comp_apply, boundAs, beq_iff_eq]
  by_cases hk : '=' ∈ p.1
  · rw [if_pos hk]
    exact iff_of_false (Ne.symm hne) fun h => hn (h ▸ hk)
  · rw [if_neg hk]

end Proper

theorem value?_launch_of_mem (env : Environment) (hs : env.stale = true) {name : Text} (hn : '=' ∈ name)
    (path : Text) (argv : List Text) : (External.launch path argv env).value? name = none := by
  show env.snapshot.reverse.lookup name = none
  refine lookup_eq_none_of_not_mem fun hm => ?_
  rw [snapshot_of_stale hs, pairs_eq, List.map_reverse, List.mem_reverse] at hm
  obtain ⟨p, hp, rfl⟩ := List.mem_map.1 hm
  obtain ⟨e, -, he⟩ := List.mem_filterMap.1 (List.mem_filter.1 hp).1
  exact Text.not_mem_of_breakAt he hn

/-! ## What is relied on -/

/-- There is one entry for a name, each name is found with a value that it came with, and a value that is
set later is found by the shell and by programs. -/
structure Represents (env : Environment) (ps : List (Text × Text)) : Prop where
  nodup : env.vars.names.Nodup
  get? : ∀ p ∈ ps, ∃ value, env.get? p.1 = some value ∧ (p.1, value) ∈ ps
  get?_set : ∀ p ∈ ps, ∀ value, (env.set p.1 value).get? p.1 = some value
  value?_set : ∀ p ∈ ps, ∀ value path argv,
    (External.launch path argv (env.set p.1 value)).value? p.1 = some value

theorem names_ofInherited {strings : List Bytes} (h : ∀ p ∈ inheritedPairs strings, '=' ∉ p.1) :
    (ofInherited (strings.filterMap splitInherited)).vars.names = (inheritedPairs strings).map (·.1) := by
  rw [Table.names, bindings_ofInherited, List.map_map]
  refine List.map_congr_left fun p hp => ?_
  exact if_neg (h p hp)

theorem value?_launch_set_ofInherited (strings : List Bytes) {name : Text} (h : Inheritable name)
    (value path : Text) (argv : List Text) :
    (External.launch path argv
        ((ofInherited (strings.filterMap splitInherited)).set name value)).value? name =
      if '=' ∈ name then none
      else if 1 < ((inheritedPairs strings).map (·.1)).count name then
        (inheritedPairs strings).reverse.lookup name
      else some value := by
  by_cases hn : '=' ∈ name
  · rw [if_pos hn, value?_launch_of_mem _ rfl hn]
  · rw [if_neg hn, value?_launch_set _ h.1 hn, Table.names, bindings_ofInherited,
      count_map_boundAs h.1 hn, ← List.map_reverse, lookup_map_boundAs h.1 hn]

theorem represents_ofInherited {strings : List Bytes} (hnodup : ((inheritedPairs strings).map (·.1)).Nodup)
    (hproper : ∀ p ∈ inheritedPairs strings, '=' ∉ p.1) :
    (ofInherited (strings.filterMap splitInherited)).Represents (inheritedPairs strings) where
  nodup := names_ofInherited hproper ▸ hnodup
  get? p hp := by
    obtain ⟨value, hlookup⟩ : ∃ value, (inheritedPairs strings).lookup p.1 = some value := by
      rw [← Option.isSome_iff_exists, List.lookup_isSome_iff]
      exact ⟨p, hp, by simp⟩
    obtain ⟨before, behind, heq, -⟩ := List.lookup_eq_some_iff.1 hlookup
    refine ⟨value, ?_, by rw [heq]; simp⟩
    rw [get?_ofInherited strings (inheritable_of_mem hp), hlookup, Option.map_some,
      readBack_of_not_mem (hproper p hp)]
  get?_set p hp value := by
    rw [get?_set_of_inheritable _ (inheritable_of_mem hp), readBack_of_not_mem (hproper p hp)]
  value?_set p hp value path argv := by
    have hcount := List.nodup_iff_count_le_one.1 hnodup p.1
    rw [value?_launch_set_ofInherited strings (inheritable_of_mem hp), if_neg (hproper p hp),
      if_neg (by omega)]

/-- Inherited variables can be relied on exactly if no name came twice and none begins with `=`. In any
case the first value of a name is found, and so is a value that is set, both behind the first `=` of the
entry; but a program finds nothing under a name that begins with `=`, and under one that came twice the
last value that came, whatever was set. -/
theorem ofInherited_represents_iff (strings : List Bytes) :
    let ps := inheritedPairs strings
    let env := ofInherited (strings.filterMap splitInherited)
    (env.Represents ps ↔ (ps.map (·.1)).Nodup ∧ ∀ p ∈ ps, '=' ∉ p.1) ∧
    ∀ name, Inheritable name →
      env.get? name = (ps.lookup name).map (readBack name) ∧
      ∀ value path argv,
        (env.set name value).get? name = some (readBack name value) ∧
        (External.launch path argv (env.set name value)).value? name =
          if '=' ∈ name then none
          else if 1 < (ps.map (·.1)).count name then ps.reverse.lookup name else some value := by
  intro ps env
  refine ⟨⟨fun h => ?_, fun h => represents_ofInherited h.1 h.2⟩, fun name h =>
    ⟨get?_ofInherited strings h, fun value path argv => ⟨get?_set_of_inheritable env h value,
      value?_launch_set_ofInherited strings h value path argv⟩⟩⟩
  have hproper : ∀ p ∈ ps, '=' ∉ p.1 := by
    intro p hp hm
    have := h.value?_set p hp [] [] []
    rw [value?_launch_set_ofInherited strings (inheritable_of_mem hp), if_pos hm] at this
    simp at this
  exact ⟨names_ofInherited hproper ▸ h.nodup, hproper⟩

/-- Two names, one value of which holds a `=`. -/
theorem represents_of_distinct_names :
    let strings := ["PATH=/bin".toList, "A=x=y".toList].map Utf8.encode
    let ps := inheritedPairs strings
    let env := ofInherited (strings.filterMap splitInherited)
    ps = [("PATH".toList, "/bin".toList), ("A".toList, "x=y".toList)] ∧ env.Represents ps ∧
      Inheritable "A".toList ∧
      (External.launch "/bin/show".toList [] (env.set "A".toList "9".toList)).value? "A".toList =
        some "9".toList := by
  intro strings ps env
  have hps : ps = [("PATH".toList, "/bin".toList), ("A".toList, "x=y".toList)] := by decide +kernel
  have hname : Inheritable "A".toList := ⟨by decide, by decide⟩
  obtain ⟨hiff, hall⟩ := ofInherited_represents_iff strings
  refine ⟨hps, hiff.2 ⟨by decide +kernel, by decide +kernel⟩, hname, ?_⟩
  have hvalue := ((hall "A".toList hname).2 "9".toList "/bin/show".toList []).2
  rw [if_neg (by decide), if_neg (by decide +kernel)] at hvalue
  exact hvalue

/-- A name that comes twice stays twice: what is set is found by the shell, but a program still finds the
last value that came. -/
theorem not_represents_of_repeated_name :
    let strings := ["A=1".toList, "A=B=2".toList].map Utf8.encode
    let ps := inheritedPairs strings
    let env := ofInherited (strings.filterMap splitInherited)
    let l := External.launch "/bin/show".toList [] (env.set "A".toList "9".toList)
    ps = [("A".toList, "1".toList), ("A".toList, "B=2".toList)] ∧
      env.vars.names = ["A".toList, "A".toList] ∧ ¬ env.Represents ps ∧
      (env.set "A".toList "9".toList).get? "A".toList = some "9".toList ∧
      l.value? "A".toList = some "B=2".toList := by
  intro strings ps env l
  have hnames : env.vars.names = ["A".toList, "A".toList] := by decide +kernel
  refine ⟨by decide +kernel, hnames, fun h => ?_, by decide +kernel, by decide +kernel⟩
  have := h.nodup
  rw [hnames] at this
  simp at this

end Environment

end LineShell
