import LineShell.Proofs.Text.Lines

/-!
# Decoding and cutting

* `cutAt sep l` : the list cut at each `sep`, without an empty piece at the end; `intercalate_cutAt` : the
  pieces joined again are the list, but for a `sep` at its end;
* `Text.lines` : the lines of a text;
* `Utf8.decode_append_newline` : no newline is a part of another character, so what stands in front of one is
  decoded as if nothing came behind it;
* `Bytes.textLines_eq` : lines that are decoded one by one are the lines of all that is decoded at once;
* `Bytes.encode_textLines` : the octets of a text, from its lines.
-/

namespace LineShell

/-! ## Pieces -/

section Pieces

variable {α : Type} [DecidableEq α] {sep : α} {l a : List α}

/-- A list cut at each `sep`. What is behind the last one is a piece only if it is not empty. -/
def cutAt (sep : α) (l : List α) : List (List α) :=
  let pieces := l.splitOnP (· == sep)
  if pieces.getLast? = some [] then pieces.dropLast else pieces

/-- The `sep` that a list ends in, if it does. -/
def ending (sep : α) (l : List α) : List α := if l.getLast? = some sep then [sep] else []

@[simp] theorem cutAt_nil : cutAt sep [] = [] := by simp [cutAt]

theorem splitOnP_of_not_mem (hl : sep ∉ l) : l.splitOnP (· == sep) = [l] := by
  refine List.splitOnP_eq_singleton fun x hx => ?_
  rw [beq_eq_false_iff_ne]
  rintro rfl
  exact hl hx

theorem cutAt_of_not_mem (hl : sep ∉ l) (hne : l ≠ []) : cutAt sep l = [l] := by
  rw [cutAt, splitOnP_of_not_mem hl]
  simp [hne]

theorem cutAt_append_cons (ha : sep ∉ a) (b : List α) : cutAt sep (a ++ sep :: b) = a :: cutAt sep b := by
  obtain ⟨x, xs, hx⟩ := List.exists_cons_of_ne_nil (List.splitOnP_ne_nil (· == sep) b)
  unfold cutAt
  rw [List.splitOnP_append_cons (p := (· == sep)) _ _ (beq_self_eq_true sep), splitOnP_of_not_mem ha,
    List.singleton_append]
  simp only [hx, List.getLast?_cons_cons, List.dropLast_cons_cons]
  split <;> rfl

/-- A list is empty, one piece, or a piece with a `sep` behind it in front of a shorter list. -/
theorem cutAt_cases (sep : α) (l : List α) :
    l = [] ∨ (l ≠ [] ∧ sep ∉ l) ∨ ∃ a b, l = a ++ sep :: b ∧ sep ∉ a := by
  by_cases hl : sep ∈ l
  · obtain ⟨a, b, rfl, ha⟩ := List.eq_append_cons_of_mem hl
    exact .inr (.inr ⟨a, b, rfl, ha⟩)
  · by_cases hne : l = []
    · exact .inl hne
    · exact .inr (.inl ⟨hne, hl⟩)

theorem cutAt_eq_nil_iff : cutAt sep l = [] ↔ l = [] := by
  obtain rfl | ⟨hne, hl⟩ | ⟨a, b, rfl, ha⟩ := cutAt_cases sep l
  · simp
  · simp [cutAt_of_not_mem hl hne, hne]
  · simp [cutAt_append_cons ha]

/-- The pieces joined again are the list, but for a `sep` that it ends in. -/
theorem intercalate_cutAt (sep : α) (l : List α) : [sep].intercalate (cutAt sep l) ++ ending sep l = l := by
  obtain rfl | ⟨hne, hl⟩ | ⟨a, b, rfl, ha⟩ := cutAt_cases sep l
  · simp [ending]
  · have hlast : l.getLast? ≠ some sep := fun h => hl (List.mem_of_getLast? h)
    simp [cutAt_of_not_mem hl hne, ending, hlast]
  · rw [cutAt_append_cons ha]
    have ih := intercalate_cutAt sep b
    by_cases hb : b = []
    · subst hb
      simp [ending]
    · obtain ⟨x, xs, hx⟩ := List.exists_cons_of_ne_nil (mt cutAt_eq_nil_iff.1 hb)
      have hlast : ending sep (a ++ sep :: b) = ending sep b := by
        obtain ⟨c, cs, rfl⟩ := List.exists_cons_of_ne_nil hb
        simp [ending, List.getLast?_append]
      rw [hlast, hx, List.intercalate_cons_cons, ← hx, List.append_assoc, List.append_assoc, ih,
        List.singleton_append]
termination_by l.length
decreasing_by simp [*]; omega

end Pieces

/-- The lines of a text. -/
def Text.lines (t : Text) : List Text := cutAt '\n' t

/-! ## Decoding -/

namespace Utf8

variable {p : Option Partial}

/-- A first octet starts a character or is read as one. -/
theorem first_cases (b : Nat) : (∃ q, first b = (some q, [])) ∨ ∃ c, first b = (none, [c]) := by
  unfold first
  repeat' split
  all_goals simp

theorem step_ne_nil {b : Nat} (h : (step p b).1 = none) : (step p b).2 ≠ [] := by
  cases p with
  | none =>
    obtain ⟨q, hf⟩ | ⟨c, hf⟩ := first_cases b
    · simp [step, hf] at h
    · simp [step, hf]
  | some q =>
    by_cases hr : q.low ≤ b ∧ b ≤ q.high
    · by_cases hn : q.needed = 1
      · simp [step, hr, hn]
      · simp [step, hr, hn] at h
    · simp [step, hr]

theorem decodeFrom_eq_nil_iff {bs : Bytes} : decodeFrom [] p bs = [] ↔ p = none ∧ bs = [] := by
  induction bs generalizing p with
  | nil => cases p <;> simp [decodeFrom, finish]
  | cons b bs ih =>
    rw [decodeFrom_cons, List.append_eq_nil_iff, ih]
    constructor
    · rintro ⟨hout, hp, -⟩
      exact absurd hout (step_ne_nil hp)
    · simp

theorem decode_eq_nil_iff {bs : Bytes} : decode bs = [] ↔ bs = [] := by
  simp [decode, decodeFrom_eq_nil_iff]

/-- A newline ends what is under way and is read as itself. -/
theorem step_newline (hp : ∀ q, p = some q → q.Wide) : step p 10 = (none, finish p ++ ['\n']) := by
  cases p with
  | none => rfl
  | some q =>
    have hlow : ¬ (q.low ≤ 10 ∧ 10 ≤ q.high) := by
      have := (hp q rfl).1
      omega
    rw [step, if_neg hlow]
    rfl

theorem decodeFrom_append_newline (hp : ∀ q, p = some q → q.Wide) (a b : Bytes) :
    decodeFrom [] p (a ++ Bytes.newline :: b) = decodeFrom [] p a ++ '\n' :: decode b := by
  induction a generalizing p with
  | nil =>
    have hs : step p Bytes.newline.toNat = (none, finish p ++ ['\n']) := step_newline hp
    rw [List.nil_append, decodeFrom_cons, hs]
    simp [decodeFrom, decode]
  | cons c a ih =>
    have hq : ∀ q, (step p c.toNat).1 = some q → q.Wide := by
      by_cases hc : c.toNat = 10
      · rw [hc, step_newline hp]
        simp
      · exact (step_wide hp hc).1
    rw [List.cons_append, decodeFrom_cons, decodeFrom_cons, ih hq, List.append_assoc]

theorem decode_append_newline (a b : Bytes) :
    decode (a ++ Bytes.newline :: b) = decode a ++ '\n' :: decode b :=
  decodeFrom_append_newline (by simp) a b

end Utf8

/-! ## Lines -/

namespace Bytes

theorem lines_eq_cutAt (bs : Bytes) : lines bs = cutAt newline bs := rfl

/-- The lines of some octets are the lines of the text that they are read as. -/
theorem textLines_eq (bs : Bytes) : textLines bs = Text.lines (Utf8.decode bs) := by
  rw [textLines, lines_eq_cutAt, Text.lines]
  obtain rfl | ⟨hne, hbs⟩ | ⟨a, b, rfl, ha⟩ := cutAt_cases newline bs
  · simp
  · have hdecode : Utf8.decode bs ≠ [] := mt Utf8.decode_eq_nil_iff.1 hne
    rw [cutAt_of_not_mem hbs hne, cutAt_of_not_mem (Utf8.not_mem_decode hbs) hdecode]
    rfl
  · have ih := textLines_eq b
    rw [textLines, lines_eq_cutAt, Text.lines] at ih
    rw [cutAt_append_cons ha, Utf8.decode_append_newline, cutAt_append_cons (Utf8.not_mem_decode ha), ← ih]
    rfl
termination_by bs.length
decreasing_by simp [*]; omega

/-- Joined by newlines the lines of some octets are the text that these are read as, up to a newline at its
end. -/
theorem intercalate_textLines (bs : Bytes) :
    ['\n'].intercalate (textLines bs) ++ ending '\n' (Utf8.decode bs) = Utf8.decode bs := by
  rw [textLines_eq]
  exact intercalate_cutAt ..

/-- A text ends in a newline exactly if its octets do. -/
theorem encode_ending (t : Text) : Utf8.encode (ending '\n' t) = ending newline (Utf8.encode t) := by
  have hiff : t.getLast? = some '\n' ↔ (Utf8.encode t).getLast? = some newline := by
    constructor
    · intro h
      obtain ⟨front, rfl⟩ := List.getLast?_eq_some_iff.1 h
      refine List.getLast?_eq_some_iff.2 ⟨Utf8.encode front, ?_⟩
      rw [Utf8.encode_append]
      rfl
    · intro h
      obtain ⟨front, hfront⟩ := List.getLast?_eq_some_iff.1 h
      have hdecode := Utf8.decode_append_newline front []
      rw [← hfront, Utf8.decode_encode] at hdecode
      exact List.getLast?_eq_some_iff.2 ⟨_, hdecode⟩
  by_cases h : t.getLast? = some '\n'
  · rw [ending, ending, if_pos h, if_pos (hiff.1 h)]
    rfl
  · rw [ending, ending, if_neg h, if_neg (mt hiff.2 h)]
    rfl

/-- The octets of a text are those of its lines joined by newlines, up to a newline at its end. -/
theorem encode_textLines {bs : Bytes} {t : Text} (h : Utf8.encode t = bs) :
    Utf8.encode (['\n'].intercalate (textLines bs)) ++ ending newline bs = bs := by
  subst h
  rw [← encode_ending, ← Utf8.encode_append]
  have := intercalate_textLines (Utf8.encode t)
  rw [Utf8.decode_encode] at this
  rw [this]

end Bytes

end LineShell
