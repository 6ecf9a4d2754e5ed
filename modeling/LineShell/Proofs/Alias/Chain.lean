import LineShell.Alias
import Mathlib.Data.List.Nodup
import Mathlib.Data.List.Perm.Subperm

/-!
# Chains of aliases

The value of an alias may itself be the name of an alias. The words that one comes through in this way are
the chain of the word one starts with.

* `AliasTable.chain` : the word that another leads to through so many aliases, if its chain is that long;
* `AliasTable.EndsAt` : a chain that has an end; `EndsAt.le`, `EndsAt.chain_ne` : nothing comes behind the
  end, and up to it no word comes twice;
* `AliasTable.Cycles` : a chain in which a word comes twice, and which therefore has no end;
* `AliasTable.le_size_of_chain` : without a repetition no chain is longer than the table;
* `AliasTable.Followed` : what words look like whose first one has been followed.

`AliasTable.expand_followed` : following a word through at most so many aliases stops at the end of its
chain or at the bound, and a bound above the size of the table is reached by cycles only.
-/

namespace LineShell.AliasTable

variable {a : AliasTable} {name last : Text}

/-- The word that `name` leads to through `k` aliases; none if there are not that many. -/
def chain (a : AliasTable) (name : Text) : Nat → Option Text
  | 0 => some name
  | k + 1 => (a.chain name k).bind a.lookup

/-- The chain of `name` is `c` aliases long and its last word is `last`. -/
def EndsAt (a : AliasTable) (name : Text) (c : Nat) (last : Text) : Prop :=
  a.chain name c = some last ∧ a.lookup last = none

/-- Some word comes twice in the chain of `name`. -/
def Cycles (a : AliasTable) (name : Text) : Prop :=
  ∃ i j word, i < j ∧ a.chain name i = some word ∧ a.chain name j = some word

/-! ## Chains -/

theorem chain_add (a : AliasTable) (name : Text) (i k : Nat) :
    a.chain name (i + k) = (a.chain name i).bind fun word => a.chain word k := by
  induction k with
  | zero => exact (Option.bind_fun_some _).symm
  | succ k ih =>
    rw [← Nat.add_assoc, chain, ih, Option.bind_assoc]
    rfl

theorem chain_succ_head (a : AliasTable) (name : Text) (k : Nat) :
    a.chain name (k + 1) = (a.lookup name).bind fun word => a.chain word k := by
  rw [Nat.add_comm, chain_add]
  rfl

theorem chain_ne_none_of_le {i k : Nat} (hik : i ≤ k) (h : a.chain name k ≠ none) :
    a.chain name i ≠ none := by
  intro hi
  obtain ⟨d, rfl⟩ := Nat.exists_eq_add_of_le hik
  rw [chain_add, hi] at h
  exact h rfl

namespace EndsAt

variable {c : Nat}

/-- No word comes behind the last one. -/
theorem le (h : a.EndsAt name c last) {k : Nat} (hk : a.chain name k ≠ none) : k ≤ c := by
  by_contra hlt
  have hnext : a.chain name (c + 1) = none := by rw [chain, h.1, Option.bind_some, h.2]
  exact chain_ne_none_of_le (by omega) hk hnext

/-- Equal words are followed by equal words, so the end would come earlier if a word came twice. -/
theorem chain_ne (h : a.EndsAt name c last) {i j : Nat} (hij : i < j) (hj : j ≤ c) :
    a.chain name i ≠ a.chain name j := by
  intro heq
  have hearly : a.chain name (i + (c - j)) = some last := by
    rw [chain_add, heq, ← chain_add, Nat.add_sub_cancel' hj]
    exact h.1
  have hc : c ≤ i + (c - j) := le ⟨hearly, h.2⟩ (by simp [h.1])
  omega

theorem not_cycles (h : a.EndsAt name c last) : ¬ a.Cycles name := by
  rintro ⟨i, j, word, hij, hi, hj⟩
  exact h.chain_ne hij (h.le (by simp [hj])) (hi.trans hj.symm)

end EndsAt

/-! ## The bound -/

theorem mem_values_of_lookup {value : Text} (h : a.lookup name = some value) :
    value ∈ a.table.entries.filterMap Entry.value := by
  obtain ⟨e, he, hv⟩ := Option.bind_eq_some_iff.1 h
  exact List.mem_filterMap.2 ⟨e, List.mem_of_find?_eq_some he, hv⟩

/-- All words but the first are values of entries, so there are no more of them than entries. This counts
the values and not the names: two words of a chain may find the same entry. -/
theorem le_size_of_chain {k : Nat} (hk : a.chain name k ≠ none)
    (hne : ∀ i j, i < j → j ≤ k → a.chain name i ≠ a.chain name j) : k ≤ a.table.size := by
  let words := (List.range k).map fun i => a.chain name (i + 1)
  let values := a.table.entries.filterMap Entry.value
  have hnodup : words.Nodup := by
    refine List.Nodup.map_on (fun i hi j hj heq => ?_) List.nodup_range
    rw [List.mem_range] at hi hj
    rcases Nat.lt_trichotomy i j with hij | hij | hij
    · exact absurd heq (hne _ _ (by omega) (by omega))
    · exact hij
    · exact absurd heq.symm (hne _ _ (by omega) (by omega))
  have hvalues : words ⊆ values.map some := by
    intro word hword
    obtain ⟨i, hi, rfl⟩ := List.mem_map.1 hword
    rw [List.mem_range] at hi
    obtain ⟨value, hvalue⟩ := Option.ne_none_iff_exists'.1 (chain_ne_none_of_le (i := i + 1) hi hk)
    obtain ⟨before, -, hlookup⟩ := Option.bind_eq_some_iff.1 hvalue
    rw [hvalue]
    exact List.mem_map_of_mem (mem_values_of_lookup hlookup)
  calc k = words.length := by simp [words]
    _ ≤ (values.map some).length := (hnodup.subperm hvalues).length_le
    _ ≤ a.table.size := by
      rw [List.length_map]
      exact List.length_filterMap_le ..

theorem EndsAt.le_size {c : Nat} (h : a.EndsAt name c last) : c ≤ a.table.size :=
  le_size_of_chain (by simp [h.1]) fun _ _ hij hj => h.chain_ne hij hj

theorem cycles_of_size_lt {k : Nat} (hk : a.chain name k ≠ none) (hlt : a.table.size < k) :
    a.Cycles name := by
  by_contra hnot
  refine absurd (le_size_of_chain hk fun i j hij hj heq => hnot ?_) (by omega)
  obtain ⟨word, hword⟩ := Option.ne_none_iff_exists'.1 (chain_ne_none_of_le hj hk)
  exact ⟨i, j, word, hij, heq.trans hword, hword⟩

/-! ## Following a chain -/

theorem chain_follow (a : AliasTable) (depth : Nat) (name : Text) :
    a.chain name (a.follow depth name).1 = some (a.follow depth name).2 := by
  induction depth generalizing name with
  | zero => rfl
  | succ depth ih =>
    cases hlookup : a.lookup name with
    | none => simp only [follow, hlookup, chain]
    | some value =>
      simp only [follow, hlookup]
      rw [chain_succ_head, hlookup]
      exact ih value

theorem endsAt_follow {depth : Nat} (h : (a.follow depth name).1 < depth) :
    a.EndsAt name (a.follow depth name).1 (a.follow depth name).2 := by
  refine ⟨a.chain_follow depth name, ?_⟩
  induction depth generalizing name with
  | zero => simp at h
  | succ depth ih =>
    cases hlookup : a.lookup name with
    | none => simp only [follow, hlookup]
    | some value =>
      simp only [follow, hlookup] at h ⊢
      exact ih (by omega)

/-- A chain that is not longer than the bound is followed to its end. -/
theorem follow_of_endsAt {c depth : Nat} (h : a.EndsAt name c last) (hc : c < depth) :
    a.follow depth name = (c, last) := by
  have hchain := a.chain_follow depth name
  have hle : (a.follow depth name).1 ≤ c := h.le (by simp [hchain])
  have hend : a.EndsAt name (a.follow depth name).1 (a.follow depth name).2 := endsAt_follow (by omega)
  have hcount : (a.follow depth name).1 = c := Nat.le_antisymm hle (hend.le (by simp [h.1]))
  rw [hcount, h.1, Option.some.injEq] at hchain
  exact Prod.ext hcount hchain.symm

/-- What has become of the words `name :: rest` and how many aliases it took, if the first of them has been
followed through at most `depth` aliases. -/
structure Followed (a : AliasTable) (depth : Nat) (name : Text) (rest : List Text)
    (r : Nat × List Text) : Prop where
  le_depth : r.1 ≤ depth
  words : ∃ last, a.chain name r.1 = some last ∧ r.2 = last :: rest ∧
    (r.1 = depth ∨ a.lookup last = none)
  chain_ne : r.1 < depth → ∀ i j, i < j → j ≤ r.1 → a.chain name i ≠ a.chain name j
  le_size : r.1 < depth → r.1 ≤ a.table.size
  eq_depth_iff : a.table.size < depth → (r.1 = depth ↔ a.Cycles name)
  to_end : a.table.size < depth → ∀ c last, a.EndsAt name c last → r = (c, last :: rest)

/-- Words without a first one stay as they are. Of all others the first one is followed. -/
theorem expand_followed (a : AliasTable) (depth : Nat) :
    a.expand depth [] = (0, []) ∧
      ∀ name rest, a.Followed depth name rest (a.expand depth (name :: rest)) := by
  refine ⟨rfl, fun name rest => ?_⟩
  have hle := a.follow_le depth name
  have hchain := a.chain_follow depth name
  rcases Nat.lt_or_eq_of_le hle with hlt | heq
  · have hend := endsAt_follow hlt
    exact {
      le_depth := hle
      words := ⟨_, hchain, rfl, .inr hend.2⟩
      chain_ne := fun _ _ _ hij hj => hend.chain_ne hij hj
      le_size := fun _ => hend.le_size
      eq_depth_iff := fun _ => iff_of_false (Nat.ne_of_lt hlt) hend.not_cycles
      to_end := fun hsize c last h => by
        have hfollow := follow_of_endsAt h (Nat.lt_of_le_of_lt h.le_size hsize)
        rw [expand, hfollow] }
  · have hcycles : a.table.size < depth → a.Cycles name := fun hsize =>
      cycles_of_size_lt (by simp [hchain]) (heq ▸ hsize)
    exact {
      le_depth := hle
      words := ⟨_, hchain, rfl, .inl heq⟩
      chain_ne := fun hlt => absurd heq (Nat.ne_of_lt hlt)
      le_size := fun hlt => absurd heq (Nat.ne_of_lt hlt)
      eq_depth_iff := fun hsize => iff_of_true heq (hcycles hsize)
      to_end := fun hsize c last h => absurd (hcycles hsize) h.not_cycles }

/-- A word that leads into a cycle of two others, one that leads to itself, and one with a `=` in it that
finds the entry of another name. -/
theorem expand_followed_into_cycle :
    let a := ["s=t".toList, "t=u".toList, "u=t".toList, "w=w".toList, "x=y=z".toList].foldl define empty
    let args := ["s".toList]
    a.Followed 10 "s".toList args (a.expand 10 ("s".toList :: args)) ∧ a.table.size = 5 ∧
      a.expand 10 ("s".toList :: args) = (10, "u".toList :: args) ∧ a.Cycles "s".toList ∧
      a.expand 3 ("s".toList :: args) = (3, "t".toList :: args) ∧ a.Cycles "w".toList ∧
      a.expand 10 ["x=y".toList] = (1, ["y=z".toList]) ∧ ¬ a.Cycles "x=y".toList := by
  intro a args
  have h := (a.expand_followed 10).2
  have hs := h "s".toList args
  refine ⟨hs, by decide, by decide, (hs.eq_depth_iff (by decide)).1 (by decide), by decide, ?_, by decide, ?_⟩
  · exact ((h "w".toList []).eq_depth_iff (by decide)).1 (by decide)
  · exact mt ((h "x=y".toList []).eq_depth_iff (by decide)).2 (by decide)

end LineShell.AliasTable
