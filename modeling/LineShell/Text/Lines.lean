import LineShell.Text.Utf8

/-!
# Lines of octets

* `Bytes.lines` : the octets cut at each newline; the empty piece behind a final newline is no line;
* `Bytes.firstLine?` : the first line that a newline ends, and the octets behind it;
* `Bytes.textLines` : the lines as texts;
* `Bytes.ofLines` : texts written one a line.
-/

namespace LineShell.Bytes

def newline : UInt8 := 10

/-- The lines of some octets, without their newlines. -/
def lines (bs : Bytes) : List Bytes :=
  let pieces := bs.splitOnP (· == newline)
  if pieces.getLast? = some [] then pieces.dropLast else pieces

/-- The first line that a newline ends, without it, and the octets behind it; none if nothing ends one. -/
def firstLine? (bs : Bytes) : Option (Bytes × Bytes) :=
  match bs.dropWhile (· != newline) with
  | _ :: rest => some (bs.takeWhile (· != newline), rest)
  | [] => none

/-- The lines, each decoded by itself. -/
def textLines (bs : Bytes) : List Text := (lines bs).map Utf8.decode

/-- Each text with a newline behind it. -/
def ofLines (ts : List Text) : Bytes := ts.flatMap fun t => Utf8.encode t ++ [newline]

@[simp] theorem lines_nil : lines [] = [] := by decide

/-- What is behind the first line is shorter than the whole. -/
theorem length_of_firstLine?_eq_some {bs line rest : Bytes} (h : firstLine? bs = some (line, rest)) :
    rest.length < bs.length := by
  unfold firstLine? at h
  split at h
  · next b behind hd =>
    obtain ⟨rfl, rfl⟩ := Prod.mk.inj (Option.some.inj h)
    have := (List.dropWhile_sublist (· != newline) (l := bs)).length_le
    rw [hd] at this
    exact this
  · simp at h

/-- What stands in front of the first newline holds none. -/
theorem not_newline_of_mem_takeWhile {bs : Bytes} :
    ∀ b ∈ bs.takeWhile (· != newline), (b == newline) = false := by
  induction bs with
  | nil => simp
  | cons c bs ih =>
    intro b hb
    rw [List.takeWhile_cons] at hb
    split at hb
    · next hc =>
      rcases List.mem_cons.1 hb with rfl | h
      · simpa using hc
      · exact ih b h
    · simp at hb

/-- Without a newline there is at most one line. -/
theorem lines_of_firstLine?_eq_none {bs : Bytes} (h : firstLine? bs = none) :
    lines bs = if bs = [] then [] else [bs] := by
  have hbs : bs.takeWhile (· != newline) = bs := by
    unfold firstLine? at h
    split at h
    · simp at h
    · next hd => rw [← List.append_nil (bs.takeWhile _), ← hd, List.takeWhile_append_dropWhile]
  have hall : ∀ b ∈ bs, (b == newline) = false := hbs ▸ not_newline_of_mem_takeWhile
  unfold lines
  rw [List.splitOnP_eq_singleton hall]
  by_cases hb : bs = [] <;> simp [hb]

/-- The first line that a newline ends stands in front of the others. -/
theorem lines_of_firstLine?_eq_some {bs line rest : Bytes} (h : firstLine? bs = some (line, rest)) :
    lines bs = line :: lines rest := by
  unfold firstLine? at h
  split at h
  · next b behind hd =>
    obtain ⟨rfl, rfl⟩ := Prod.mk.inj (Option.some.inj h)
    have hb : (b == newline) = true := by
      have := List.head?_dropWhile_not (fun b => b != newline) bs
      simpa [hd] using this
    have hp : bs.splitOnP (· == newline) =
        bs.takeWhile (· != newline) :: behind.splitOnP (· == newline) := by
      conv => lhs; rw [← List.takeWhile_append_dropWhile (p := (· != newline)) (l := bs), hd]
      rw [List.splitOnP_append_cons (p := (· == newline)) _ _ hb,
        List.splitOnP_eq_singleton not_newline_of_mem_takeWhile, List.singleton_append]
    have hne := List.splitOnP_ne_nil (· == newline) behind
    unfold lines
    rw [hp]
    obtain ⟨x, xs, hx⟩ := List.exists_cons_of_ne_nil hne
    simp only [hx, List.getLast?_cons_cons, List.dropLast_cons_cons]
    split <;> rfl
  · simp at h

end LineShell.Bytes
