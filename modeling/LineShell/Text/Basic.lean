/-!
# Texts and octets

* `Text` : a text is its list of characters, so every function below is one on lists;
* `Bytes` : what files and output streams hold;
* `Text.breakAt c t` : `t` at its first `c`, the `c` itself dropped;
* `Text.ofNat`, `Text.ofInt` : decimal numerals; `Text.zeroed` : zeros in front of one.
-/

namespace LineShell

/-- A text, character by character. -/
abbrev Text := List Char

/-- A run of octets. -/
abbrev Bytes := List UInt8

namespace Text

/-- The parts of `t` before and after its first `c`; none if `c` does not occur. -/
def breakAt (c : Char) (t : Text) : Option (Text × Text) :=
  match t.dropWhile (· ≠ c) with
  | [] => none
  | _ :: rest => some (t.takeWhile (· ≠ c), rest)

def ofNat (n : Nat) : Text := Nat.toDigits 10 n

/-- The decimal numeral of an integer, `-` in front of a negative one. -/
def ofInt : Int → Text
  | .ofNat n => ofNat n
  | .negSucc n => '-' :: ofNat (n + 1)

/-- A text filled up to a width with zeros in front. -/
def zeroed (width : Nat) (t : Text) : Text := List.replicate (width - t.length) '0' ++ t

/-- The digits `0` to `9`, and no others. -/
def isDigit (c : Char) : Bool := '0' ≤ c && c ≤ '9'

/-- The number that a run of digits denotes. -/
def digitsValue (t : Text) : Nat :=
  t.foldl (fun n c => 10 * n + (c.toNat - '0'.toNat)) 0

theorem breakAt_eq_none_iff {c : Char} {t : Text} : breakAt c t = none ↔ c ∉ t := by
  induction t with
  | nil => simp [breakAt]
  | cons d t ih =>
    by_cases h : d = c
    · subst h; simp [breakAt]
    · have : breakAt c (d :: t) = (breakAt c t).map fun p => (d :: p.1, p.2) := by
        simp only [breakAt, List.dropWhile_cons, List.takeWhile_cons, ne_eq, h, not_false_eq_true,
          decide_true, if_true]
        cases t.dropWhile (fun x => decide (¬x = c)) <;> rfl
      rw [this, Option.map_eq_none_iff, ih]
      simp [Ne.symm h]

/-- Nothing is lost: the two parts and the character between them are the text. -/
theorem eq_of_breakAt {c : Char} {t a b : Text} (h : breakAt c t = some (a, b)) :
    t = a ++ c :: b := by
  induction t generalizing a with
  | nil => simp [breakAt] at h
  | cons d t ih =>
    by_cases hd : d = c
    · subst hd
      simp [breakAt] at h
      simp [← h.1, h.2]
    · have e : breakAt c (d :: t) = (breakAt c t).map fun p => (d :: p.1, p.2) := by
        simp only [breakAt, List.dropWhile_cons, List.takeWhile_cons, ne_eq, hd, not_false_eq_true,
          decide_true, if_true]
        cases t.dropWhile (fun x => decide (¬x = c)) <;> rfl
      rw [e, Option.map_eq_some_iff] at h
      obtain ⟨⟨a', b'⟩, hb, heq⟩ := h
      simp only [Prod.mk.injEq] at heq
      obtain ⟨rfl, rfl⟩ := heq
      simp [ih hb]

end Text

end LineShell
