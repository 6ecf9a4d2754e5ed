import LineShell.Proofs.Alias.Chain
import LineShell.Session
import Mathlib.Data.List.Forall2

/-!
# What the words of a command become

The words of a segment are put in place one by one: the first is followed through the aliases, and then
each that is `$` and a name gives way to a value. What has been put in place is not looked at again.

* `AliasTable.StopsAt` : the word at which the following of another stops;
* `Scope.IsReference`, `Scope.StandsFor` : words that stand for a value, and the text that each word stands
  for;
* `Session.Prepared` : words and what has been put in their places, as a relation with one text for each
  word;
* `Scope.Agrees` : all that a word refers to is the same twice.

`Session.prepare_words` : the words of a command are prepared in this way and in no other, and what stands
behind the first depends on nothing but what its own word refers to.
-/

namespace LineShell

/-! ## Where aliases lead -/

namespace AliasTable

variable {a : AliasTable} {depth : Nat} {name last last' : Text}

/-- The chain of `name` leads to `last`, and there it ends or has become `depth` aliases long. -/
def StopsAt (a : AliasTable) (depth : Nat) (name last : Text) : Prop :=
  ∃ k ≤ depth, a.chain name k = some last ∧ (k = depth ∨ a.lookup last = none)

theorem stopsAt_follow (a : AliasTable) (depth : Nat) (name : Text) :
    a.StopsAt depth name (a.follow depth name).2 := by
  have hle := a.follow_le depth name
  refine ⟨_, hle, a.chain_follow depth name, ?_⟩
  exact (Nat.lt_or_eq_of_le hle).symm.imp_right fun hlt => (endsAt_follow hlt).2

theorem StopsAt.unique (h : a.StopsAt depth name last) (h' : a.StopsAt depth name last') :
    last = last' := by
  obtain ⟨k, hk, hchain, hend⟩ := h
  obtain ⟨k', hk', hchain', hend'⟩ := h'
  -- the shorter of the two chains would have ended, and the longer one would go on behind its end
  have hkk' : k' ≤ k := hend.elim (fun heq => heq ▸ hk') fun hnone =>
    EndsAt.le ⟨hchain, hnone⟩ (by simp [hchain'])
  have hk'k : k ≤ k' := hend'.elim (fun heq => heq ▸ hk) fun hnone =>
    EndsAt.le ⟨hchain', hnone⟩ (by simp [hchain])
  obtain rfl := Nat.le_antisymm hk'k hkk'
  exact Option.some.inj (hchain.symm.trans hchain')

theorem stopsAt_iff : a.StopsAt depth name last ↔ last = (a.follow depth name).2 :=
  ⟨fun h => h.unique (a.stopsAt_follow depth name), fun h => h ▸ a.stopsAt_follow depth name⟩

end AliasTable

/-! ## What a word stands for -/

namespace Scope

variable {s s' : Scope} {word text : Text}

/-- `$` and a name, which has one character at least. -/
def IsReference (word : Text) : Prop := ∃ name, name ≠ [] ∧ word = '$' :: name

theorem isReference_iff : word.head? = some '$' ∧ word.tail ≠ [] ↔ IsReference word := by
  cases word <;> simp [IsReference, and_comm]

instance : DecidablePred IsReference := fun _ => decidable_of_iff _ isReference_iff

/-- The names of no variables: the status, the process and nothing at all. -/
def reserved : List Text := [[], ['?'], ['$']]

/-- The text that a word stands for. A variable that is not set has the empty text. -/
inductive StandsFor (s : Scope) : Text → Text → Prop
  | itself {word : Text} (h : ¬ IsReference word) : StandsFor s word word
  | status : StandsFor s "$?".toList (Text.ofInt s.status)
  | process : StandsFor s "$$".toList (Text.ofNat s.pid)
  | value {name : Text} (h : name ∉ reserved) : StandsFor s ('$' :: name) ((s.env.get? name).getD [])

theorem expandWord_of_not_isReference (h : ¬ IsReference word) : s.expandWord word = word := by
  unfold expandWord
  split
  · next c name => exact absurd ⟨c :: name, List.cons_ne_nil c name, rfl⟩ h
  · rfl

theorem expandWord_reference {name : Text} (h : name ≠ []) : s.expandWord ('$' :: name) = s.value name := by
  obtain ⟨c, name, rfl⟩ := List.exists_cons_of_ne_nil h
  rfl

theorem standsFor_expandWord (s : Scope) (word : Text) : s.StandsFor word (s.expandWord word) := by
  by_cases href : IsReference word
  · obtain ⟨name, hne, rfl⟩ := href
    rw [expandWord_reference hne, Scope.value]
    split
    · next hq => exact hq ▸ .status
    · split
      · next hd => exact hd ▸ .process
      · next hq hd => exact .value (by simp [reserved, hne, hq, hd])
  · rw [expandWord_of_not_isReference href]
    exact .itself href

theorem standsFor_iff : s.StandsFor word text ↔ text = s.expandWord word := by
  constructor
  · intro h
    cases h with
    | itself href => exact (expandWord_of_not_isReference href).symm
    | status => rfl
    | process => rfl
    | value hname =>
      obtain ⟨hne, hq, hd⟩ : _ ∧ _ ∧ _ := by simpa [reserved] using hname
      rw [expandWord_reference hne, Scope.value, if_neg hq, if_neg hd]
  · rintro rfl
    exact s.standsFor_expandWord word

/-- What a word refers to, if it refers to anything, is the same in two scopes. -/
structure Agrees (s s' : Scope) (word : Text) : Prop where
  status : word = "$?".toList → s.status = s'.status
  process : word = "$$".toList → s.pid = s'.pid
  value : ∀ name, word = '$' :: name → name ∉ reserved → s.env.get? name = s'.env.get? name

theorem agrees_of_get? {name : Text} (hname : name ∉ reserved) (h : s.env.get? name = s'.env.get? name) :
    s.Agrees s' ('$' :: name) where
  status hword := absurd ((List.cons.inj hword).2 ▸ by decide) hname
  process hword := absurd ((List.cons.inj hword).2 ▸ by decide) hname
  value _ hword _ := (List.cons.inj hword).2 ▸ h

theorem Agrees.expandWord (h : s.Agrees s' word) : s'.expandWord word = s.expandWord word := by
  refine standsFor_iff.1 ?_ |>.symm
  have hword := s.standsFor_expandWord word
  generalize s.expandWord word = text at hword ⊢
  cases hword with
  | itself href => exact .itself href
  | status => exact h.status rfl ▸ .status
  | process => exact h.process rfl ▸ .process
  | value hname => exact h.value _ rfl hname ▸ .value hname

end Scope

/-! ## The words of a command -/

namespace Session

variable {s : Session} {pid : Nat}

/-- What the words of a segment become: one text for each of them. For the first that is what the word stands
for that its aliases stop at, and for any other what the word itself stands for. -/
inductive Prepared (s : Session) (pid : Nat) : List Text → List Text → Prop
  | none : Prepared s pid [] []
  | words {name last text : Text} {rest texts : List Text}
      (hlast : s.aliases.StopsAt s.settings.maxAliasDepth name last)
      (hfirst : (s.scope pid).StandsFor last text)
      (hrest : List.Forall₂ (s.scope pid).StandsFor rest texts) :
      Prepared s pid (name :: rest) (text :: texts)

theorem forall₂_standsFor_iff {c : Scope} {words texts : List Text} :
    List.Forall₂ c.StandsFor words texts ↔ texts = words.map c.expandWord := by
  induction words generalizing texts with
  | nil => simp
  | cons word words ih => cases texts <;> simp [Scope.standsFor_iff, ih]

theorem argv_prepare_of_cons {segment name : Text} {rest : List Text}
    (h : Line.words segment = name :: rest) :
    (s.prepare pid segment).argv =
      (s.scope pid).expandWord (s.aliases.follow s.settings.maxAliasDepth name).2 ::
        rest.map (s.scope pid).expandWord := by
  show s.wordsOf pid segment = _
  rw [wordsOf, h]
  rfl

theorem argv_prepare_of_nil {segment : Text} (h : Line.words segment = []) :
    (s.prepare pid segment).argv = [] := by
  show s.wordsOf pid segment = _
  rw [wordsOf, h]
  rfl

theorem prepared_iff {segment : Text} {argv : List Text} :
    s.Prepared pid (Line.words segment) argv ↔ argv = (s.prepare pid segment).argv := by
  cases hwords : Line.words segment with
  | nil =>
    rw [argv_prepare_of_nil hwords]
    constructor
    · rintro ⟨⟩
      rfl
    · rintro rfl
      exact .none
  | cons name rest =>
    rw [argv_prepare_of_cons hwords]
    constructor
    · intro h
      cases h with
      | words hlast hfirst hrest =>
        rw [Scope.standsFor_iff.1 hfirst, AliasTable.stopsAt_iff.1 hlast, forall₂_standsFor_iff.1 hrest]
    · rintro rfl
      exact .words (AliasTable.stopsAt_iff.2 rfl) (Scope.standsFor_iff.2 rfl) (forall₂_standsFor_iff.2 rfl)

theorem getElem?_succ_prepare (s : Session) (pid : Nat) (segment : Text) (i : Nat) :
    (s.prepare pid segment).argv[i + 1]? =
      (Line.words segment)[i + 1]?.map (s.scope pid).expandWord := by
  cases hwords : Line.words segment with
  | nil =>
    rw [argv_prepare_of_nil hwords]
    rfl
  | cons name rest => rw [argv_prepare_of_cons hwords, List.getElem?_cons_succ, List.getElem?_cons_succ,
      List.getElem?_map]

/-- A command has one word for each word of its segment, and each is prepared by itself and once, whatever
characters a value has; nothing else of the session changes. A word behind the first is the same in all
sessions that agree on what it refers to, whatever their aliases: if it is no reference, in all. The first is
the same in all that agree on the word that its aliases stop at. -/
theorem prepare_words (s : Session) (pid : Nat) (segment : Text) :
    (s.prepare pid segment).argv.length = (Line.words segment).length ∧
    (∀ argv, s.Prepared pid (Line.words segment) argv ↔ argv = (s.prepare pid segment).argv) ∧
    s.prepare pid segment = { s with argv := (s.prepare pid segment).argv } ∧
    (∀ i word, (Line.words segment)[i + 1]? = some word → ¬ Scope.IsReference word →
      (s.prepare pid segment).argv[i + 1]? = some word) ∧
    (∀ (s' : Session) (pid' : Nat) (i : Nat) (word : Text), (Line.words segment)[i + 1]? = some word →
      (s.scope pid).Agrees (s'.scope pid') word →
      (s'.prepare pid' segment).argv[i + 1]? = (s.prepare pid segment).argv[i + 1]?) ∧
    (∀ (s' : Session) (pid' : Nat) (name last : Text), (Line.words segment).head? = some name →
      s.aliases.StopsAt s.settings.maxAliasDepth name last →
      s'.aliases.StopsAt s'.settings.maxAliasDepth name last →
      (s.scope pid).Agrees (s'.scope pid') last →
      (s'.prepare pid' segment).argv.head? = (s.prepare pid segment).argv.head?) := by
  refine ⟨?_, fun argv => prepared_iff, rfl, fun i word hword href => ?_,
    fun s' pid' i word hword hagrees => ?_, fun s' pid' name last hname hstops hstops' hagrees => ?_⟩
  · show (s.wordsOf pid segment).length = _
    rw [wordsOf, Scope.length_expand, AliasTable.length_expand]
  · rw [getElem?_succ_prepare, hword, Option.map_some, Scope.expandWord_of_not_isReference href]
  · rw [getElem?_succ_prepare, getElem?_succ_prepare, hword, Option.map_some, Option.map_some,
      hagrees.expandWord]
  · obtain ⟨rest, hwords⟩ : ∃ rest, Line.words segment = name :: rest :=
      List.head?_eq_some_iff.1 hname
    rw [argv_prepare_of_cons hwords, argv_prepare_of_cons hwords, ← AliasTable.stopsAt_iff.1 hstops,
      ← AliasTable.stopsAt_iff.1 hstops', List.head?_cons, List.head?_cons, hagrees.expandWord]

/-- Values that look like syntax, like a reference and like an alias, and a first word that two sessions come
to in different ways. -/
theorem prepare_words_of_values_like_syntax :
    let s : Session :=
      { Session.start "hsh".toList {} (.ofPairs
          [("CMD".toList, "ll".toList), ("A".toList, "a b;c #d".toList), ("B".toList, "$A".toList)]) with
        aliases := (AliasTable.empty.define "run=$CMD".toList).define "ll=ls".toList
        lastStatus := 7 }
    let s' : Session :=
      { s with
        env := s.env.set "A".toList "b".toList
        aliases := AliasTable.empty.define "run=$CMD".toList }
    let segment := "run $A $B $? $ ll $NONE".toList
    let argv := (s.prepare 9 segment).argv
    argv.length = 7 ∧
    argv = ["ll".toList, "a b;c #d".toList, "$A".toList, "7".toList, ['$'], "ll".toList, []] ∧
    argv[5]? = some "ll".toList ∧
    (s'.prepare 1 segment).argv[2]? = argv[2]? ∧ (s'.prepare 1 segment).argv[1]? ≠ argv[1]? ∧
    (s'.prepare 1 segment).argv.head? = argv.head? := by
  intro s s' segment argv
  have hstops : s.aliases.StopsAt s.settings.maxAliasDepth "run".toList "$CMD".toList := ⟨1, by decide⟩
  obtain ⟨hlength, hprepared, -, hword, hother, hfirst⟩ := prepare_words s 9 segment
  refine ⟨hlength.trans (by decide), ((hprepared _).1 ?_).symm, hword 4 _ (by decide) (by decide),
    hother s' 1 1 "$B".toList (by decide) (Scope.agrees_of_get? (by decide) (by decide)), by decide,
    hfirst s' 1 "run".toList "$CMD".toList (by decide) hstops ⟨1, by decide⟩
      (Scope.agrees_of_get? (by decide) (by decide))⟩
  -- each word by itself, by the rule for words of its kind
  refine .words hstops (.value (by decide)) ?_
  exact .cons (.value (by decide)) (.cons (.value (by decide)) (.cons .status
    (.cons (.itself (by decide)) (.cons (.itself (by decide)) (.cons (.value (by decide)) .nil)))))

end Session

end LineShell
