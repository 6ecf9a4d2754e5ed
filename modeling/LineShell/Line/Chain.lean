import LineShell.Text.Blank

/-!
# Chained segments

A line such as `a && b || c; d` is worked off one segment at a time. An operator ends the segment in
front of it and says when the one behind it may run.

* `Link` : how a segment is joined to the one before it; `Link.admits` is its gate;
* `operator?` : the operator that a text starts with, and the text behind it;
* `cut` : the leading segment of a text, and what its operator leaves;
* `Cursor` : what is left of the current line; `Cursor.load`, `Cursor.next`.

When a gate fails the rest of the line is dropped, whatever operators follow.
-/

namespace LineShell

/-- A command's status; zero stands for success. -/
abbrev Status := Int

namespace Line

/-- How a segment is joined to the one before it. -/
inductive Link where
  /-- The first segment of a line. -/
  | first
  /-- Behind `;`. -/
  | sequence
  /-- Behind `&&`. -/
  | and
  /-- Behind `||`. -/
  | or
  deriving DecidableEq, Repr

/-- Whether a segment joined by this link runs after the status `s`. -/
def Link.admits : Link → Status → Bool
  | .and, s => s == 0
  | .or, s => s != 0
  | .first, _ | .sequence, _ => true

/-- The operator that a text starts with, and the text behind it. -/
def operator? : Text → Option (Link × Text)
  | '&' :: '&' :: rest => some (.and, rest)
  | '|' :: '|' :: rest => some (.or, rest)
  | ';' :: rest => some (.sequence, rest)
  | _ => none

/-- The leading segment of a text, behind the characters `seen` (last one first), with the operator
that ends it and the text behind that; no operator if the text ends first. -/
def cutFrom (seen : Text) : Text → Text × Option (Link × Text)
  | [] => (seen.reverse, none)
  | c :: rest =>
    match operator? (c :: rest) with
    | some next => (seen.reverse, some next)
    | none => cutFrom (c :: seen) rest

/-- The leading segment of a text, and what its operator leaves. -/
def cut (t : Text) : Text × Option (Link × Text) := cutFrom [] t

/-- What is left of the current line. -/
inductive Cursor where
  /-- Every segment has been taken or dropped. -/
  | exhausted
  /-- The text `rest` is still to be cut; its first segment is joined by `link`. -/
  | pending (link : Link) (rest : Text)
  deriving DecidableEq, Repr

namespace Cursor

/-- A new line; a blank one has no segments at all. -/
def load (line : Text) : Cursor := if Text.isBlank line then exhausted else pending .first line

/-- How the next segment is joined; `first` when there is none. -/
def link : Cursor → Link
  | exhausted => .first
  | pending l _ => l

def isExhausted : Cursor → Bool
  | exhausted => true
  | pending _ _ => false

/-- A bound on the segments still to come. -/
def size : Cursor → Nat
  | exhausted => 0
  | pending _ rest => rest.length + 1

/-- The next segment, if the gate in front of it admits the status `s`, and the cursor behind it. A
gate that fails drops the rest of the line. -/
def next (s : Status) : Cursor → Option Text × Cursor
  | exhausted => (none, exhausted)
  | pending l rest =>
    if l.admits s then
      match cut rest with
      | (segment, none) => (some segment, exhausted)
      | (segment, some (l', rest')) => (some segment, pending l' rest')
    else (none, exhausted)

def discard (_ : Cursor) : Cursor := exhausted

end Cursor

/-! ## Cutting -/

theorem length_of_operator? {t rest : Text} {l : Link} (h : operator? t = some (l, rest)) :
    rest.length < t.length := by
  unfold operator? at h
  split at h <;> simp only [Option.some.injEq, Prod.mk.injEq, reduceCtorEq] at h <;>
    obtain ⟨-, rfl⟩ := h <;> simp only [List.length_cons] <;> omega

theorem cutFrom_eq_append (seen t : Text) :
    cutFrom seen t = (seen.reverse ++ (cutFrom [] t).1, (cutFrom [] t).2) := by
  induction t generalizing seen with
  | nil => simp [cutFrom]
  | cons c rest ih =>
    simp only [cutFrom]
    cases operator? (c :: rest) with
    | some next => simp
    | none => simp only []; rw [ih, ih [c]]; simp

theorem cut_cons (c : Char) (t : Text) :
    cut (c :: t) = match operator? (c :: t) with
      | some next => ([], some next)
      | none => (c :: (cut t).1, (cut t).2) := by
  simp only [cut, cutFrom]
  cases operator? (c :: t) with
  | some next => rfl
  | none => simp only []; rw [cutFrom_eq_append]; rfl

/-- An operator takes at least one character. -/
theorem length_of_cut {t s rest : Text} {l : Link} (h : cut t = (s, some (l, rest))) :
    rest.length < t.length := by
  induction t generalizing s with
  | nil => simp [cut, cutFrom] at h
  | cons c t ih =>
    rw [cut_cons] at h
    cases ho : operator? (c :: t) with
    | some next =>
      rw [ho] at h
      simp only [Prod.mk.injEq, Option.some.injEq] at h
      rw [h.2] at ho
      exact length_of_operator? ho
    | none =>
      rw [ho] at h
      simp only [Prod.mk.injEq] at h
      have := ih (s := (cut t).1) (by rw [← h.2])
      simp only [List.length_cons]
      omega

/-- Every segment that is taken brings the end of the line nearer. -/
theorem Cursor.size_next {s : Status} {c : Cursor} {segment : Text}
    (h : (c.next s).1 = some segment) : (c.next s).2.size < c.size := by
  cases c with
  | exhausted => simp [next] at h
  | pending l rest =>
    unfold next at h ⊢
    by_cases ha : l.admits s
    · simp only [ha, if_true] at h ⊢
      rcases hc : cut rest with ⟨seg, _ | ⟨l', rest'⟩⟩
      · simp [size]
      · have := length_of_cut hc
        simp only [size]
        omega
    · simp [ha] at h

/-- A cursor that gives no segment has none left. -/
theorem Cursor.next_eq_none {s : Status} {c : Cursor} (h : (c.next s).1 = none) :
    (c.next s).2 = exhausted := by
  cases c with
  | exhausted => rfl
  | pending l rest =>
    unfold next at h ⊢
    by_cases ha : l.admits s
    · simp only [ha, if_true] at h
      split at h <;> simp at h
    · simp [ha]

end Line

end LineShell
