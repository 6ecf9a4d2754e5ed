import LineShell.Proofs.Command.Places

/-!
# Search paths put together

A search path `p:q` is looked through like `p`, and like `q` behind it.

* `Command.directories` : the directories of a search path; there is always one at least;
* `Command.Thins` : fewer directories, those left out having no file of the name;
* `Command.find?_append`, `Command.find?_of_thins` : what is found in a search path that is put together of
  two, and in one with fewer directories;
* `Command.resolve?_some` : a name stands for what is found, or else for itself.

`Command.resolve?_append` : what a name stands for with two search paths put together, with more
directories behind, and with fewer of them.
-/

namespace LineShell.Command

/-- The directories of a search path, in order. The empty path has one, the working directory. -/
def directories (searchPath : Text) : List Text := searchPath.splitOnP (· == ':')

/-- The directories `fewer` are those of `all` without some that have no file called `name`. -/
inductive Thins (isFile : Text → Bool) (name : Text) : List Text → List Text → Prop
  | none : Thins isFile name [] []
  | keep {all fewer : List Text} (dir : Text) (h : Thins isFile name all fewer) :
      Thins isFile name (dir :: all) (dir :: fewer)
  | drop {all fewer : List Text} {dir : Text} (hdir : isFile (inDirectory name dir) = false)
      (h : Thins isFile name all fewer) : Thins isFile name (dir :: all) fewer

variable {isFile : Text → Bool} {name : Text}

/-- A name that is its own file is found at once; of all others the search path decides. -/
theorem find?_some (isFile : Text → Bool) (searchPath name : Text) :
    find? isFile (some searchPath) name =
      if name.isEmpty then none
      else (if isExplicit name && isFile name then some name else none).or
        ((candidates searchPath name).find? isFile) := by
  rw [find?]
  split
  · rfl
  · split <;> rfl

theorem find?_append (isFile : Text → Bool) (p q name : Text) :
    find? isFile (some (p ++ ':' :: q)) name =
      (find? isFile (some p) name).or (find? isFile (some q) name) := by
  rw [find?_some, find?_some, find?_some, candidates_append, List.find?_append]
  split
  · rfl
  · split
    · rfl
    · simp only [Option.none_or]

/-- The directories that are left out have nothing to be found. -/
theorem Thins.find?_map {all fewer : List Text} (h : Thins isFile name all fewer) :
    (fewer.map (inDirectory name)).find? isFile = (all.map (inDirectory name)).find? isFile := by
  induction h with
  | none => rfl
  | keep dir _ ih => rw [List.map_cons, List.map_cons, List.find?_cons, List.find?_cons, ih]
  | drop hdir _ ih =>
    rw [List.map_cons, List.find?_cons_of_neg (by simp [hdir])]
    exact ih

theorem find?_of_thins {p fewer : Text} (h : Thins isFile name (directories p) (directories fewer)) :
    find? isFile (some fewer) name = find? isFile (some p) name := by
  have hsearch : (candidates fewer name).find? isFile = (candidates p name).find? isFile := h.find?_map
  rw [find?_some, find?_some, hsearch]

/-- With a search path, whatever it is, a name may always stand for itself. -/
theorem resolve?_some (isFile : Text → Bool) (p name : Text) (interactive : Bool) :
    resolve? isFile (some p) name interactive = (find? isFile (some p) name).or
      (if !name.isEmpty && isFile name then some (itself name) else none) := by
  have hmay : mayStandForItself (some p) name interactive = true := by
    rw [mayStandForItself, Option.isSome_some, Bool.or_true, Bool.true_or]
  rw [resolve?, hmay, Bool.true_and]
  cases find? isFile (some p) name <;> rfl

/-- What a name stands for in `p:q` is what is found in `p`, and if nothing is, what it stands for in `q`. So a
name that is found stands for the same with any directories behind, and a search path may lose
directories that have no file of the name, as long as it keeps one. -/
theorem resolve?_append (isFile : Text → Bool) (p q name : Text) :
    find? isFile (some (p ++ ':' :: q)) name =
      (find? isFile (some p) name).or (find? isFile (some q) name) ∧
    (∀ interactive, resolve? isFile (some (p ++ ':' :: q)) name interactive =
      (find? isFile (some p) name).or (resolve? isFile (some q) name interactive)) ∧
    (∀ path, find? isFile (some p) name = some path → ∀ interactive,
      resolve? isFile (some p) name interactive = some path ∧
      resolve? isFile (some (p ++ ':' :: q)) name interactive = some path) ∧
    (∀ fewer, Thins isFile name (directories p) (directories fewer) →
      find? isFile (some fewer) name = find? isFile (some p) name ∧
      ∀ interactive, resolve? isFile (some fewer) name interactive =
        resolve? isFile (some p) name interactive) := by
  have happend : ∀ interactive, resolve? isFile (some (p ++ ':' :: q)) name interactive =
      (find? isFile (some p) name).or (resolve? isFile (some q) name interactive) := by
    intro interactive
    rw [resolve?_some, find?_append, Option.or_assoc, ← resolve?_some]
  refine ⟨find?_append isFile p q name, happend, fun path hpath interactive => ?_, fun fewer hthins => ?_⟩
  · rw [happend, resolve?_some, hpath]
    exact ⟨rfl, rfl⟩
  · have hfind := find?_of_thins hthins
    refine ⟨hfind, fun interactive => ?_⟩
    rw [resolve?_some, resolve?_some, hfind]

/-- A file in the third of four directories, which no other of them has, and one more directory behind. -/
theorem resolve?_append_between_empty_directories :
    let isFile := Host.overlaid.isFile
    let name := "x".toList
    Thins isFile name (directories ":q:p:".toList) (directories "p".toList) ∧
      find? isFile (some "p".toList) name = find? isFile (some ":q:p:".toList) name ∧
      find? isFile (some ":q:p:".toList) name = some "p/x".toList ∧
      resolve? isFile (some ":q:p::/w".toList) name false = some "p/x".toList := by
  have hhere : Host.overlaid.isFile "./x".toList = false := by cbv
  have hq : Host.overlaid.isFile "q/x".toList = false := by cbv
  have hfound : find? Host.overlaid.isFile (some ":q:p:".toList) "x".toList = some "p/x".toList := by cbv
  have hthins : Thins Host.overlaid.isFile "x".toList (directories ":q:p:".toList)
      (directories "p".toList) := .drop hhere (.drop hq (.keep _ (.drop hhere .none)))
  obtain ⟨-, -, hmore, hfewer⟩ :=
    resolve?_append Host.overlaid.isFile ":q:p:".toList "/w".toList "x".toList
  exact ⟨hthins, (hfewer _ hthins).1, hfound, (hmore _ hfound false).2⟩

end LineShell.Command
