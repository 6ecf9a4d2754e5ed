import LineShell.Line.Chain

/-!
# The segments of a line

* `segments t` : the first segment of `t`, and each one behind it with the link that joins it;
* `segments_of_cut_none`, `segments_of_cut_some` : they are what cutting `t` once and again gives.
-/

namespace LineShell.Line

/-- A text cut at its leftmost operator, and again behind that until it holds none: the first
segment, and each further one with the link that joins it to the one before. -/
def segments : Text → Text × List (Link × Text)
  | [] => ([], [])
  | '&' :: '&' :: rest => ([], (.and, (segments rest).1) :: (segments rest).2)
  | '|' :: '|' :: rest => ([], (.or, (segments rest).1) :: (segments rest).2)
  | ';' :: rest => ([], (.sequence, (segments rest).1) :: (segments rest).2)
  | c :: rest => (c :: (segments rest).1, (segments rest).2)

/-- The segments of a text are its leading one and those of the text behind its operator. -/
theorem segments_eq_cut (t : Text) :
    segments t = ((cut t).1, match (cut t).2 with
      | none => []
      | some (l, rest) => (l, (segments rest).1) :: (segments rest).2) := by
  fun_induction segments t with
  | case1 => rfl
  | case2 rest _ => simp only [cut_cons, operator?]
  | case3 rest _ => simp only [cut_cons, operator?]
  | case4 rest _ => simp only [cut_cons, operator?]
  | case5 c rest hand hor hseq ih =>
    have hop : operator? (c :: rest) = none := by
      unfold operator?
      split
      · next r h => exact absurd (List.cons.inj h).2 (hand r (List.cons.inj h).1)
      · next r h => exact absurd (List.cons.inj h).2 (hor r (List.cons.inj h).1)
      · next r h => exact absurd (List.cons.inj h).1 hseq
      · rfl
    rw [cut_cons, hop, ih]

theorem segments_of_cut_none {t segment : Text} (h : cut t = (segment, none)) :
    segments t = (segment, []) := by
  rw [segments_eq_cut, h]

theorem segments_of_cut_some {t segment rest : Text} {l : Link}
    (h : cut t = (segment, some (l, rest))) :
    segments t = (segment, (l, (segments rest).1) :: (segments rest).2) := by
  rw [segments_eq_cut, h]

end LineShell.Line
