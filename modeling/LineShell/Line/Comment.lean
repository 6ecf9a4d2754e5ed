import LineShell.Text.Basic

/-!
# Comments

A `#` that is the first character of a line or directly follows a space starts a comment, which
runs to the end of the line. `stripComment` is the text in front of it.
-/

namespace LineShell.Line

/-- The text in front of the first comment, behind the characters `seen` (last one first). `fresh`
tells whether a `#` would start a comment here. -/
def stripCommentFrom (seen : Text) (fresh : Bool) : Text → Text
  | [] => seen.reverse
  | c :: rest =>
    if c == '#' && fresh then seen.reverse else stripCommentFrom (c :: seen) (c == ' ') rest

def stripComment (line : Text) : Text := stripCommentFrom [] true line

theorem stripCommentFrom_eq_append (seen : Text) (fresh : Bool) (t : Text) :
    stripCommentFrom seen fresh t = seen.reverse ++ stripCommentFrom [] fresh t := by
  induction t generalizing seen fresh with
  | nil => simp [stripCommentFrom]
  | cons c rest ih =>
    simp only [stripCommentFrom]
    split
    · simp
    · rw [ih, ih [c]]; simp

/-- What a line keeps, one character at a time. -/
theorem stripCommentFrom_cons (fresh : Bool) (c : Char) (t : Text) :
    stripCommentFrom [] fresh (c :: t) =
      if c == '#' && fresh then [] else c :: stripCommentFrom [] (c == ' ') t := by
  rw [stripCommentFrom]
  split
  · rfl
  · rw [stripCommentFrom_eq_append]; rfl

end LineShell.Line
