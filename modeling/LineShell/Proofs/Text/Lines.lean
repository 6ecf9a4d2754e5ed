import LineShell.Proofs.Text.Utf8
import LineShell.Text.Lines
import Mathlib.Data.List.TakeWhile

/-!
# Lines and newlines

* `firstLine?_eq_some_iff`, `firstLine?_eq_none_iff` : the first line ends at the first newline;
* `not_mem_textLines` : no line holds a newline;
* `textLines_ofLines` : texts without newlines that are written one a line are the lines read back.
-/

namespace LineShell.Bytes

theorem firstLine?_eq_none_iff {bs : Bytes} : firstLine? bs = none ↔ newline ∉ bs := by
  unfold firstLine?
  constructor
  · intro h hm
    split at h
    · simp at h
    · next hd =>
      have := List.dropWhile_eq_nil_iff.1 hd newline hm
      simp at this
  · intro h
    have hd : bs.dropWhile (· != newline) = [] := by
      refine List.dropWhile_eq_nil_iff.2 fun b hb => ?_
      simp only [bne_iff_ne]
      rintro rfl
      exact h hb
    rw [hd]

theorem firstLine?_eq_some_iff {bs line rest : Bytes} :
    firstLine? bs = some (line, rest) ↔ bs = line ++ newline :: rest ∧ newline ∉ line := by
  unfold firstLine?
  constructor
  · intro h
    split at h
    · next b behind hd =>
      obtain ⟨rfl, rfl⟩ := Prod.mk.inj (Option.some.inj h)
      have hb : b = newline := by
        have := List.head?_dropWhile_not (· != newline) bs
        simpa [hd] using this
      refine ⟨?_, fun hm => ?_⟩
      · subst hb
        rw [← hd, List.takeWhile_append_dropWhile]
      · simpa using not_newline_of_mem_takeWhile newline hm
    · simp at h
  · rintro ⟨rfl, hm⟩
    have hne : ∀ b ∈ line, (b != newline) = true := by
      intro b hb
      rw [bne_iff_ne]
      rintro rfl
      exact hm hb
    rw [List.dropWhile_append_of_pos hne, List.takeWhile_append_of_pos hne]
    simp

/-- The lines of some octets are none, the octets themselves, or the first line and those behind it. -/
theorem lines_cases (bs : Bytes) :
    (bs = [] ∧ lines bs = []) ∨ (bs ≠ [] ∧ newline ∉ bs ∧ lines bs = [bs]) ∨
    ∃ line rest, bs = line ++ newline :: rest ∧ newline ∉ line ∧ lines bs = line :: lines rest := by
  cases h : firstLine? bs with
  | some found =>
    obtain ⟨line, rest⟩ := found
    obtain ⟨hbs, hm⟩ := firstLine?_eq_some_iff.1 h
    exact .inr (.inr ⟨line, rest, hbs, hm, lines_of_firstLine?_eq_some h⟩)
  | none =>
    have hl := lines_of_firstLine?_eq_none h
    by_cases hb : bs = []
    · exact .inl ⟨hb, by rw [hl, if_pos hb]⟩
    · exact .inr (.inl ⟨hb, firstLine?_eq_none_iff.1 h, by rw [hl, if_neg hb]⟩)

theorem not_mem_lines {bs line : Bytes} (h : line ∈ lines bs) : newline ∉ line := by
  obtain ⟨-, hl⟩ | ⟨-, hm, hl⟩ | ⟨first, rest, hbs, hm, hl⟩ := lines_cases bs
  · simp [hl] at h
  · obtain rfl : line = bs := by simpa [hl] using h
    exact hm
  · have hlen : rest.length < bs.length := by simp [hbs]; omega
    rw [hl] at h
    rcases List.mem_cons.1 h with rfl | hr
    · exact hm
    · exact not_mem_lines hr
termination_by bs.length

theorem not_mem_textLines {bs : Bytes} {t : Text} (h : t ∈ textLines bs) : '\n' ∉ t := by
  obtain ⟨line, hl, rfl⟩ := List.mem_map.1 h
  exact Utf8.not_mem_decode (not_mem_lines hl)

/-- Texts that are written one a line are the lines read back. -/
theorem textLines_ofLines {ts : List Text} (h : ∀ t ∈ ts, '\n' ∉ t) :
    textLines (ofLines ts) = ts := by
  induction ts with
  | nil => rfl
  | cons t ts ih =>
    obtain ⟨ht, hts⟩ := List.forall_mem_cons.1 h
    have ho : ofLines (t :: ts) = Utf8.encode t ++ newline :: ofLines ts := by simp [ofLines]
    have hf : firstLine? (ofLines (t :: ts)) = some (Utf8.encode t, ofLines ts) :=
      firstLine?_eq_some_iff.2 ⟨ho, Utf8.not_mem_encode (d := '\n') (by decide) ht⟩
    rw [textLines, lines_of_firstLine?_eq_some hf, List.map_cons, Utf8.decode_encode]
    exact congrArg (t :: ·) (ih hts)

end LineShell.Bytes
