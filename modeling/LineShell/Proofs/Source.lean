import LineShell.Proofs.Text.Lines
import LineShell.Source

/-!
# The lines that a source gives

* `not_mem_of_next` : no line that is read holds a newline;
* `next_of_textLines_eq_nil`, `next_of_textLines_eq_cons` : octets give their lines one after another;
* `handle_next`, `next_ne_failed` : what gives octets only goes on to, and never fails.
-/

namespace LineShell.Source

variable {ω : Type}

theorem not_mem_of_last {bs : Bytes} (hbs : Bytes.newline ∉ bs) {raw : Text}
    (h : last bs = .line raw) : '\n' ∉ raw := by
  unfold last at h
  split at h
  · simp at h
  · obtain rfl : Utf8.decode bs = raw := by simpa using h
    exact Utf8.not_mem_decode hbs

theorem not_mem_of_next {m : Machine ω} {w : ω} {s : Source} {raw : Text}
    (h : (s.next m w).1 = .line raw) : '\n' ∉ raw := by
  unfold next at h
  cases hf : Bytes.firstLine? s.ahead with
  | some found =>
    obtain ⟨line, rest⟩ := found
    obtain rfl : Utf8.decode line = raw := by simpa [hf] using h
    exact Utf8.not_mem_decode (Bytes.firstLine?_eq_some_iff.1 hf).2
  | none =>
    have hahead := Bytes.firstLine?_eq_none_iff.1 hf
    cases hh : s.handle with
    | none => exact not_mem_of_last hahead (by simpa only [hf, hh] using h)
    | some handle =>
      simp only [hf, hh] at h
      cases hr : Bytes.firstLine? (m.readable w handle).bytes with
      | some found =>
        obtain ⟨line, rest⟩ := found
        obtain rfl : Utf8.decode (s.ahead ++ line) = raw := by simpa [hr] using h
        have hline := (Bytes.firstLine?_eq_some_iff.1 hr).2
        exact Utf8.not_mem_decode (by simpa using ⟨hahead, hline⟩)
      | none =>
        have hfound := Bytes.firstLine?_eq_none_iff.1 hr
        rw [hr] at h
        dsimp only at h
        split at h
        · simp at h
        · exact not_mem_of_last (by simpa using ⟨hahead, hfound⟩) h

/-! ## Octets -/

theorem handle_next {m : Machine ω} {w w' : ω} {s s' : Source} {reading : Reading} (h : s.handle = none)
    (hn : s.next m w = (reading, s', w')) : s'.handle = none := by
  unfold next at hn
  rw [h] at hn
  split at hn
  · obtain ⟨-, rfl, -⟩ : _ ∧ _ ∧ _ := by simpa using hn
    rfl
  · obtain ⟨-, rfl, -⟩ : _ ∧ _ ∧ _ := by simpa using hn
    rfl
  · next hh => simp at hh

theorem next_ne_failed {m : Machine ω} {w w' : ω} {s s' : Source} {e : SysError} (h : s.handle = none) :
    s.next m w ≠ (.failed e, s', w') := by
  intro hn
  unfold next last at hn
  rw [h] at hn
  split at hn
  · simp at hn
  · split at hn <;> simp at hn
  · next hh => simp at hh

theorem next_of_textLines_eq_nil (m : Machine ω) (w : ω) {bs : Bytes} (h : Bytes.textLines bs = []) :
    (ofBytes bs).next m w = (.ended, ofBytes [], w) := by
  have hl : Bytes.lines bs = [] := List.map_eq_nil_iff.1 h
  obtain ⟨rfl, -⟩ | ⟨-, -, hl'⟩ | ⟨line, rest, -, -, hl'⟩ := Bytes.lines_cases bs
  · rfl
  · simp [hl] at hl'
  · simp [hl] at hl'

theorem next_of_textLines_eq_cons (m : Machine ω) (w : ω) {bs : Bytes} {raw : Text} {rest : List Text}
    (h : Bytes.textLines bs = raw :: rest) :
    ∃ bs', (ofBytes bs).next m w = (.line raw, ofBytes bs', w) ∧ Bytes.textLines bs' = rest := by
  unfold Bytes.textLines at h
  obtain ⟨-, hl⟩ | ⟨hne, hm, hl⟩ | ⟨line, behind, rfl, hm, hl⟩ := Bytes.lines_cases bs
  · simp [hl] at h
  · rw [hl] at h
    obtain ⟨rfl, rfl⟩ := List.cons.inj h
    refine ⟨[], ?_, rfl⟩
    have he : bs.isEmpty = false := by simpa using hne
    simp only [next, ofBytes, Bytes.firstLine?_eq_none_iff.2 hm, last, he]
    rfl
  · rw [hl, List.map_cons] at h
    obtain ⟨rfl, rfl⟩ := List.cons.inj h
    refine ⟨behind, ?_, rfl⟩
    simp only [next, ofBytes, Bytes.firstLine?_eq_some_iff.2 ⟨rfl, hm⟩]

end LineShell.Source
