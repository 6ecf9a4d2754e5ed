import LineShell.Path

/-!
# Finding a command

The file that a command's name stands for, given a test `isFile` for regular files.

* `candidates` : where the directories of a search path could hold a name, in order;
* `find?` : the file that the search path leads to;
* `resolve?` : that file, or else the name itself where a name may stand for a file.

An empty directory in a search path is the working directory. Only regular files count; whether one
may be run turns out when it is started.
-/

namespace LineShell.Command

/-- The path of a name in the working directory; an absolute name stays as it is. -/
def here (name : Text) : Text := Path.join ['.'] name

/-- The path of a name in one directory of a search path. -/
def inDirectory (name dir : Text) : Text := if dir.isEmpty then here name else dir ++ '/' :: name

/-- The paths of a name in the directories of a search path, which `:` separates. -/
def candidates (searchPath name : Text) : List Text :=
  (searchPath.splitOnP (· == ':')).map (inDirectory name)

/-- Whether a name says by itself that its file is in the working directory or below it. -/
def isExplicit : Text → Bool
  | '.' :: '/' :: _ :: _ => true
  | _ => false

/-- The first regular file among an explicit name and the candidates of the search path. -/
def find? (isFile : Text → Bool) (searchPath : Option Text) (name : Text) : Option Text :=
  if name.isEmpty then none
  else if isExplicit name && isFile name then some name
  else (searchPath.map (candidates · name)).getD [] |>.find? isFile

/-- Whether a name may stand for a file that the search path does not lead to. -/
def mayStandForItself (searchPath : Option Text) (name : Text) (interactive : Bool) : Bool :=
  interactive || searchPath.isSome || Path.isAbsolute name

/-- The path of a name that stands for itself: it always has a `/`. -/
def itself (name : Text) : Text := if name.contains '/' then name else here name

/-- The file that a command's name stands for. -/
def resolve? (isFile : Text → Bool) (searchPath : Option Text) (name : Text) (interactive : Bool) :
    Option Text :=
  match find? isFile searchPath name with
  | some path => some path
  | none =>
    if mayStandForItself searchPath name interactive && !name.isEmpty && isFile name then
      some (itself name)
    else none

theorem candidates_append (p q name : Text) :
    candidates (p ++ ':' :: q) name = candidates p name ++ candidates q name := by
  unfold candidates
  rw [List.splitOnP_append_cons p q (by rfl), List.map_append]

end LineShell.Command
