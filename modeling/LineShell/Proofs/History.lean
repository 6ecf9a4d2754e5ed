import LineShell.History
import LineShell.Proofs.Text.Lines
import Mathlib.Data.List.DropRight

/-!
# What a history keeps

* `rtake_rtake_append`, `rtake_append_rtake` : dropping old lines early makes no difference to the last
  ones;
* `History.texts_add_eq_rtake`, `History.texts_replace` : a history keeps the last `cap` lines;
* `History.Sound` : no more lines than the cap, none with a newline; it is kept by `History.add` and
  `History.load`;
* `History.load_cases` : what loading a file does;
* `Table.Numbered` : each entry has its place as its number;
* `History.Regular` : so have the entries of a history, of which there are not more than the cap; it is
  kept by whatever is done with a history (`History.regular_ofCalls`);
* `History.Keeps` : what a history then holds.
-/

namespace LineShell

/-- The last elements of a list are not changed by keeping more of them in between. -/
theorem rtake_rtake_append {α : Type} {k n : Nat} (h : k ≤ n) (a b : List α) :
    (a.rtake n ++ b).rtake k = (a ++ b).rtake k := by
  unfold List.rtake
  rw [List.drop_append, List.drop_append, List.drop_drop, List.length_append, List.length_append,
    List.length_drop]
  congr 2 <;> omega

theorem rtake_append_rtake {α : Type} (n : Nat) (a b : List α) :
    (a.rtake n ++ b).rtake n = (a ++ b).rtake n := rtake_rtake_append (Nat.le_refl n) a b

theorem rtake_of_length_le {α : Type} {n : Nat} {a : List α} (h : a.length ≤ n) : a.rtake n = a := by
  rw [List.rtake, Nat.sub_eq_zero_of_le h, List.drop_zero]

theorem length_rtake_le {α : Type} (n : Nat) (a : List α) : (a.rtake n).length ≤ n := by
  rw [List.rtake, List.length_drop]
  omega

theorem mem_of_mem_rtake {α : Type} {n : Nat} {a : List α} {x : α} (h : x ∈ a.rtake n) : x ∈ a :=
  List.mem_of_mem_drop h

theorem getLast?_rtake {α : Type} {n : Nat} (h : 0 < n) (a : List α) :
    (a.rtake n).getLast? = a.getLast? := by
  unfold List.rtake
  rw [List.getLast?_drop]
  split
  · next hle =>
    obtain rfl : a = [] := List.length_eq_zero_iff.1 (by omega)
    rfl
  · rfl

namespace History

theorem texts_add_eq_rtake (h : History) (line : Text) :
    (h.add line).texts = (h.texts ++ [line]).rtake h.cap := texts_add h line

theorem texts_replace (h : History) (ts : List Text) : (h.replace ts).texts = ts.rtake h.cap := by
  rw [replace, texts_trim]
  simp [texts, List.rtake]

theorem length_texts_add_le (h : History) (line : Text) : (h.add line).texts.length ≤ h.cap := by
  rw [texts_add_eq_rtake]
  exact length_rtake_le ..

theorem length_texts_replace_le (h : History) (ts : List Text) : (h.replace ts).texts.length ≤ h.cap := by
  rw [texts_replace]
  exact length_rtake_le ..

/-- No more lines than the cap, and none with a newline in it. -/
structure Sound (h : History) : Prop where
  length_le : h.texts.length ≤ h.cap
  no_newline : ∀ t ∈ h.texts, '\n' ∉ t

theorem sound_empty (cap : Nat) : (empty cap).Sound := ⟨Nat.zero_le _, fun _ h => nomatch h⟩

theorem Sound.add {h : History} (hs : h.Sound) {line : Text} (hl : '\n' ∉ line) :
    (h.add line).Sound := by
  constructor
  · rw [cap_add]
    exact length_texts_add_le ..
  · rw [texts_add_eq_rtake]
    intro t ht
    rcases List.mem_append.1 (mem_of_mem_rtake ht) with h' | h'
    · exact hs.no_newline t h'
    · obtain rfl : t = line := by simpa using h'
      exact hl

/-- Loading fails and changes nothing, or there is no file and nothing changes, or the last lines of the
file take the place of the present ones. -/
theorem load_cases (h : History) (opened : Except SysError ByteStream) :
    ((∃ e, (h.load opened).1 = .error e) ∧ (h.load opened).2 = h) ∨
    (opened = .error .notFound ∧ h.load opened = (.ok 0, h)) ∨
    ∃ bs n, opened = .ok ⟨bs, none⟩ ∧ h.load opened = (.ok n, h.replace (Bytes.textLines bs)) := by
  unfold load
  split
  · exact .inr (.inl ⟨rfl, rfl⟩)
  · exact .inl ⟨⟨_, rfl⟩, rfl⟩
  · exact .inl ⟨⟨_, rfl⟩, rfl⟩
  · next bs => exact .inr (.inr ⟨bs, _, rfl, rfl⟩)

@[simp] theorem cap_load (h : History) (opened : Except SysError ByteStream) :
    (h.load opened).2.cap = h.cap := by
  obtain ⟨-, hl⟩ | ⟨-, hl⟩ | ⟨bs, n, -, hl⟩ := load_cases h opened
  · rw [hl]
  · rw [hl]
  · rw [hl]
    rfl

theorem Sound.load {h : History} (hs : h.Sound) (opened : Except SysError ByteStream) :
    (h.load opened).2.Sound := by
  obtain ⟨-, hl⟩ | ⟨-, hl⟩ | ⟨bs, n, -, hl⟩ := load_cases h opened
  · rw [hl]
    exact hs
  · rw [hl]
    exact hs
  · rw [hl]
    constructor
    · exact length_texts_replace_le ..
    · rw [texts_replace]
      exact fun t ht => Bytes.not_mem_textLines (mem_of_mem_rtake ht)

/-- What is written can be read back. -/
theorem Sound.textLines_fileBytes {h : History} (hs : h.Sound) :
    Bytes.textLines h.fileBytes = h.texts := Bytes.textLines_ofLines hs.no_newline

end History

/-! ## Numbers -/

namespace Table

/-- Each entry has its place as its number. -/
def Numbered (t : Table) : Prop := ∀ (i : Nat) (e : Entry), t.entries[i]? = some e → e.number = i

theorem numbered_empty : empty.Numbered := by
  intro i e h
  simp [empty] at h

theorem Numbered.push {t : Table} (h : t.Numbered) (text : Text) : (t.push t.size text).Numbered := by
  intro i e he
  rw [Table.push, List.getElem?_append] at he
  split at he
  · exact h i e he
  · next hi =>
    obtain ⟨hlast, rfl⟩ : i - t.entries.length = 0 ∧ ⟨t.size, text⟩ = e := by
      rwa [List.getElem?_singleton, Option.ite_none_right_eq_some, Option.some.injEq] at he
    show t.size = i
    unfold size
    omega

theorem numbered_renumber (t : Table) : t.renumber.Numbered := by
  intro i e he
  rw [renumber, List.getElem?_map, List.getElem?_zipIdx] at he
  obtain ⟨p, hp, rfl⟩ := Option.map_eq_some_iff.1 he
  obtain ⟨e, -, rfl⟩ := Option.map_eq_some_iff.1 hp
  exact Nat.zero_add i

/-- Numbered entries are known by their texts. -/
theorem Numbered.entries {t : Table} (h : t.Numbered) :
    t.entries = t.texts.zipIdx.map fun p => ⟨p.2, p.1⟩ := by
  apply List.ext_getElem?
  intro i
  rw [List.getElem?_map, List.getElem?_zipIdx, texts, List.getElem?_map]
  cases he : t.entries[i]? with
  | none => rfl
  | some e =>
    have hnumber := h i e he
    simp [← hnumber]

end Table

namespace History

/-- However often lines are dropped on the way, the last `cap` of all are kept. -/
theorem texts_foldl_add {h : History} (hle : h.texts.length ≤ h.cap) (lines : List Text) :
    (lines.foldl add h).texts = (h.texts ++ lines).rtake h.cap := by
  induction lines generalizing h with
  | nil => rw [List.foldl_nil, List.append_nil, rtake_of_length_le hle]
  | cons line lines ih =>
    have hadd : (h.add line).texts.length ≤ (h.add line).cap := by
      rw [cap_add]
      exact length_texts_add_le ..
    rw [List.foldl_cons, ih hadd, texts_add_eq_rtake, cap_add, rtake_append_rtake, List.append_assoc]
    rfl

/-- Numbered entries, of which there are at most `cap`. -/
structure Regular (cap : Nat) (h : History) : Prop where
  cap_eq : h.cap = cap
  numbered : h.table.Numbered
  length_le : h.texts.length ≤ cap

theorem regular_empty (cap : Nat) : (empty cap).Regular cap := ⟨rfl, Table.numbered_empty, Nat.zero_le _⟩

theorem Regular.add {cap : Nat} {h : History} (hr : h.Regular cap) (line : Text) :
    (h.add line).Regular cap where
  cap_eq := (cap_add h line).trans hr.cap_eq
  numbered := by
    unfold History.add
    dsimp only
    split
    · exact Table.numbered_renumber _
    · exact hr.numbered.push line
  length_le := hr.cap_eq ▸ length_texts_add_le h line

theorem Regular.load {cap : Nat} {h : History} (hr : h.Regular cap) (opened : Except SysError ByteStream) :
    (h.load opened).2.Regular cap := by
  obtain ⟨-, hl⟩ | ⟨-, hl⟩ | ⟨bs, n, -, hl⟩ := load_cases h opened
  · rwa [hl]
  · rwa [hl]
  · rw [hl]
    exact ⟨hr.cap_eq, Table.numbered_renumber _, hr.cap_eq ▸ length_texts_replace_le ..⟩

/-- What can be done with a history on a machine. -/
inductive Call where
  | add (line : Text)
  | load (path : Text)
  | save (path : Text)

variable {ω : Type}

/-- The history and the machine after a call, also after one that fails. -/
def Call.act (m : Machine ω) (h : History) (w : ω) : Call → History × ω
  | add line => (h.add line, w)
  | load path =>
    let opened := m.readFile w path
    ((h.load (opened.map (·.1))).2, (opened.toOption.map (·.2)).getD w)
  | save path => (h, (m.writeFile w path h.fileBytes).toOption.getD w)

/-- A new history after some calls, and the machine. -/
def ofCalls (m : Machine ω) (cap : Nat) (w : ω) (calls : List Call) : History × ω :=
  calls.foldl (fun p call => call.act m p.1 p.2) (empty cap, w)

theorem regular_ofCalls (m : Machine ω) (cap : Nat) (w : ω) (calls : List Call) :
    (ofCalls m cap w calls).1.Regular cap := by
  have hcalls : ∀ p : History × ω, p.1.Regular cap →
      (calls.foldl (fun p call => call.act m p.1 p.2) p).1.Regular cap := by
    induction calls with
    | nil => exact fun _ h => h
    | cons call calls ih =>
      intro p h
      apply ih
      cases call with
      | add line => exact h.add line
      | load path => exact h.load _
      | save path => exact h
  exact hcalls _ (regular_empty cap)

/-- What a history of at most `cap` lines is and does: its entries have their places as numbers, and with
more lines behind its own, or behind those of a file, it holds the last of all of them. -/
structure Keeps (cap : Nat) (h : History) : Prop where
  numbered : ∀ (i : Nat) (e : Entry), h.table.entries[i]? = some e → e.number = i
  size_le : h.table.size ≤ cap
  added : ∀ lines, (lines.foldl History.add h).texts = (h.texts ++ lines).rtake cap
  loaded : ∀ bs lines, (lines.foldl History.add (h.load (.ok ⟨bs, none⟩)).2).texts =
    (Bytes.textLines bs ++ lines).rtake cap

theorem Regular.keeps {cap : Nat} {h : History} (hr : h.Regular cap) : h.Keeps cap where
  numbered := hr.numbered
  size_le := by
    have hle := hr.length_le
    rwa [texts, Table.length_texts] at hle
  added lines := by
    have hle : h.texts.length ≤ h.cap := hr.cap_eq ▸ hr.length_le
    rw [texts_foldl_add hle, hr.cap_eq]
  loaded bs lines := by
    have hloaded := hr.load (.ok ⟨bs, none⟩)
    have hle : (h.load (.ok ⟨bs, none⟩)).2.texts.length ≤ (h.load (.ok ⟨bs, none⟩)).2.cap :=
      hloaded.cap_eq ▸ hloaded.length_le
    have htexts : (h.load (.ok ⟨bs, none⟩)).2.texts = (Bytes.textLines bs).rtake h.cap := texts_replace ..
    rw [texts_foldl_add hle, hloaded.cap_eq, htexts, hr.cap_eq, rtake_append_rtake]

end History

end LineShell
