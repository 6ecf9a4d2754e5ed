import LineShell.Text.Basic

/-!
# Paths

A path is a text whose parts are separated by `/`.

* `isAbsolute` : whether a path starts at the root;
* `join` : a path seen from a directory;
* `parts` : the names that a path walks through;
* `above?` : the path of what a path's last name stands in;
* `isHere`, `isAbove` : the names that lead to no entry of a directory.
-/

namespace LineShell.Path

def isAbsolute (p : Text) : Bool := p.head? == some '/'

/-- `name` seen from the directory `base`: an absolute name stands for itself, any other is set
behind `base` and one `/`. -/
def join (base name : Text) : Text :=
  if isAbsolute name then name
  else if base.isEmpty || base.getLast? == some '/' then base ++ name
  else base ++ '/' :: name

/-- The names that a path walks through, in order. An empty name stands last if the path ends in `/`,
so that the path leads to a directory or nowhere. -/
def parts (p : Text) : List Text :=
  let names := p.splitOnP (· == '/')
  names.filter (!·.isEmpty) ++ if 1 < names.length && names.getLast? == some [] then [[]] else []

/-- Whether a name leads nowhere else: the empty name and `.`. -/
def isHere (name : Text) : Bool := name.isEmpty || name == ['.']

/-- Whether a name leads to the directory above. -/
def isAbove (name : Text) : Bool := name == ['.', '.']

/-- The path of the directory that the last name of a path is in, where `.` is no name unless it stands
first; none if there is no name. -/
def above? (p : Text) : Option Text :=
  let names := p.splitOnP (· == '/')
  let first := if names.head? == some ['.'] then [['.']] else []
  let start := if isAbsolute p then ['/'] else []
  match first ++ names.filter (!isHere ·) with
  | [] => none
  | names => some (start ++ (names.dropLast.intersperse ['/']).flatten)

theorem parts_eq_of_not_mem {p : Text} (h : '/' ∉ p) : parts p = [p].filter (!·.isEmpty) := by
  have : p.splitOnP (· == '/') = [p] := List.splitOnP_eq_singleton fun c hc => by
    have : c ≠ '/' := fun e => h (e ▸ hc)
    simpa using this
  simp [parts, this]

end LineShell.Path
