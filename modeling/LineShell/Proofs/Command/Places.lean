import Mathlib
import LineShell.Command.Search
import LineShell.Proofs.Host.Paths

/-!
# Where commands are looked for

* `Command.SeesHere` : what `./` in front of a path does; `Host.seesHere` : it does so on the host;
* `Command.ownPlace`, `searchPlaces`, `lastPlaces` : the paths that a name may stand for by itself, in the
  directories of the search path, and if there is nothing in these; `Command.places` : all of them in order;
* `Command.find?_eq`, `Command.resolve?_eq` : commands are looked for at these places;
* `Command.slash_mem_of_mem_places` : each of them has a `/`.

`Command.resolve?_first_place` : a name stands for the first of its places at which there is a regular file.
-/

namespace LineShell

namespace Command

/-- A path that does not start at the root leads nowhere else with `./` in front of it, a name leads there
with `./` as well, and `./` alone leads to a directory. -/
structure SeesHere (isFile : Text → Bool) : Prop where
  of_here : ∀ path, path ≠ [] → Path.isAbsolute path = false →
    isFile ('.' :: '/' :: path) = true → isFile path = true
  here : ∀ name, name ≠ [] → '/' ∉ name → isFile name = true → isFile ('.' :: '/' :: name) = true
  directory : isFile "./".toList = false

/-! ## Places -/

/-- The name itself, if it says that its file is in the working directory or below it. -/
def ownPlace (name : Text) : List Text :=
  if "./".toList <+: name ∧ 2 < name.length then [name] else []

/-- The path of a name in one directory of a search path; the working directory is the empty one. -/
def placeIn (name dir : Text) : Text :=
  if dir ≠ [] then dir ++ '/' :: name
  else if name.head? = some '/' then name
  else "./".toList ++ name

/-- The paths of a name in the directories of the search path, if there is one. -/
def searchPlaces (searchPath : Option Text) (name : Text) : List Text :=
  searchPath.elim [] fun dirs => (dirs.splitOn ':').map (placeIn name)

/-- The name itself, where a name may stand for itself. -/
def lastPlaces (searchPath : Option Text) (name : Text) (interactive : Bool) : List Text :=
  if interactive = true ∨ searchPath.isSome = true ∨ name.head? = some '/' then
    [if '/' ∈ name then name else "./".toList ++ name]
  else []

/-- All paths that a name may stand for, in the order in which they are looked at. -/
def places (searchPath : Option Text) (name : Text) (interactive : Bool) : List Text :=
  if name = [] then []
  else ownPlace name ++ searchPlaces searchPath name ++ lastPlaces searchPath name interactive

theorem slash_mem_placeIn (name dir : Text) : '/' ∈ placeIn name dir := by
  unfold placeIn
  split
  · simp
  · split
    · next h => exact List.mem_of_mem_head? h
    · simp

theorem slash_mem_of_mem_places {searchPath : Option Text} {name path : Text} {interactive : Bool}
    (h : path ∈ places searchPath name interactive) : '/' ∈ path := by
  unfold places at h
  split at h
  · simp at h
  · rcases List.mem_append.1 h with h | h
    · rcases List.mem_append.1 h with h | h
      · unfold ownPlace at h
        split at h
        · next hown =>
          rw [List.mem_singleton.1 h]
          exact hown.1.subset (by decide)
        · simp at h
      · cases searchPath with
        | none => simp [searchPlaces] at h
        | some dirs =>
          obtain ⟨dir, -, rfl⟩ := List.mem_map.1 h
          exact slash_mem_placeIn name dir
    · unfold lastPlaces at h
      split at h
      · rw [List.mem_singleton.1 h]
        split
        · assumption
        · simp
      · simp at h

/-- Someone who is asked for each line has one more place or as many. -/
theorem places_false_prefix_true (searchPath : Option Text) (name : Text) :
    places searchPath name false <+: places searchPath name true := by
  unfold places
  split
  · exact List.prefix_refl _
  · refine (List.prefix_append_right_inj _).2 ?_
    have hlast : lastPlaces searchPath name true = [if '/' ∈ name then name else "./".toList ++ name] :=
      if_pos (.inl rfl)
    rw [hlast, lastPlaces]
    split
    · exact List.prefix_refl _
    · exact List.nil_prefix

/-! ## The search -/

theorem isAbsolute_iff {path : Text} : Path.isAbsolute path = true ↔ path.head? = some '/' := by
  rw [Path.isAbsolute, beq_iff_eq]

theorem here_eq (name : Text) :
    here name = if name.head? = some '/' then name else "./".toList ++ name := by
  simp only [here, Path.join, isAbsolute_iff]
  rfl

theorem isExplicit_iff {name : Text} :
    isExplicit name = true ↔ "./".toList <+: name ∧ 2 < name.length := by
  unfold isExplicit
  split
  · simp
  · next hno =>
    refine iff_of_false nofun ?_
    rintro ⟨⟨behind, rfl⟩, hlen⟩
    cases behind with
    | nil => simp at hlen
    | cons c behind => exact hno c behind rfl

theorem candidates_eq (dirs name : Text) :
    candidates dirs name = (dirs.splitOn ':').map (placeIn name) := by
  refine List.map_congr_left fun dir _ => ?_
  unfold inDirectory placeIn
  cases dir with
  | nil => simp [here_eq]
  | cons c dir => simp

variable {isFile : Text → Bool} {name : Text}

theorem find?_ownPlace : (ownPlace name).find? isFile =
    if isExplicit name && isFile name then some name else none := by
  unfold ownPlace
  by_cases hown : isExplicit name = true
  · rw [if_pos (isExplicit_iff.1 hown), hown, List.find?_singleton]
    rfl
  · rw [if_neg (mt isExplicit_iff.2 hown), Bool.eq_false_iff.2 hown]
    rfl

theorem find?_eq (hne : name ≠ []) (searchPath : Option Text) :
    find? isFile searchPath name = (ownPlace name ++ searchPlaces searchPath name).find? isFile := by
  have hsearch : (searchPath.map (candidates · name)).getD [] = searchPlaces searchPath name := by
    cases searchPath with
    | none => rfl
    | some dirs => exact candidates_eq dirs name
  rw [find?, if_neg (by simpa using hne), hsearch, List.find?_append, find?_ownPlace]
  split <;> rfl

/-- There is a file at the path of a name that stands for itself if there is one at the name. -/
theorem isFile_itself (h : SeesHere isFile) (hne : name ≠ []) : isFile (itself name) = isFile name := by
  unfold itself
  split
  · rfl
  · next hslash =>
    have hslash : '/' ∉ name := by simpa using hslash
    have hrel : ¬ name.head? = some '/' := fun hhead => hslash (List.mem_of_mem_head? hhead)
    rw [here_eq, if_neg hrel, Bool.eq_iff_iff]
    exact ⟨h.of_here name hne (Bool.eq_false_iff.2 (mt isAbsolute_iff.1 hrel)),
      h.here name hne hslash⟩

theorem find?_lastPlaces (h : SeesHere isFile) (hne : name ≠ []) (searchPath : Option Text)
    (interactive : Bool) : (lastPlaces searchPath name interactive).find? isFile =
      if mayStandForItself searchPath name interactive && isFile name then some (itself name)
      else none := by
  have hitself : (if '/' ∈ name then name else "./".toList ++ name) = itself name := by
    unfold itself
    by_cases hslash : '/' ∈ name
    · rw [if_pos hslash, if_pos (by simpa using hslash)]
    · have hrel : ¬ name.head? = some '/' := fun hhead => hslash (List.mem_of_mem_head? hhead)
      rw [if_neg hslash, if_neg (by simpa using hslash), here_eq, if_neg hrel]
  have hmay : mayStandForItself searchPath name interactive = true ↔
      interactive = true ∨ searchPath.isSome = true ∨ name.head? = some '/' := by
    rw [mayStandForItself, Bool.or_eq_true, Bool.or_eq_true, isAbsolute_iff, or_assoc]
  unfold lastPlaces
  by_cases hstand : mayStandForItself searchPath name interactive = true
  · rw [if_pos (hmay.1 hstand), hstand, hitself, List.find?_singleton, isFile_itself h hne]
    rfl
  · rw [if_neg (mt hmay.2 hstand), Bool.eq_false_iff.2 hstand]
    rfl

theorem resolve?_eq (h : SeesHere isFile) (searchPath : Option Text) (name : Text) (interactive : Bool) :
    resolve? isFile searchPath name interactive = (places searchPath name interactive).find? isFile := by
  by_cases hne : name = []
  · subst hne
    simp [resolve?, find?, places]
  · rw [resolve?, places, if_neg hne, List.find?_append, ← find?_eq hne, find?_lastPlaces h hne]
    cases find? isFile searchPath name with
    | some path => rfl
    | none => cases name <;> simp at hne ⊢

theorem isFile_of_resolve? (h : SeesHere isFile) {searchPath : Option Text} {interactive : Bool} {path : Text}
    (hpath : resolve? isFile searchPath name interactive = some path) : isFile path = true := by
  rw [resolve?_eq h] at hpath
  exact List.find?_some hpath

end Command

/-! ## On the host -/

namespace Host

theorem seesHere (h : Host) : Command.SeesHere h.isFile where
  of_here _ := isFile_of_here
  here _ := isFile_here
  directory := h.isFile_directory

/-- A host at work in the directory `/w`, where there is a file `y` and a directory `p`. In `p` there is a
file `x`, and one that is called `w/y`. -/
def overlaid : Host where
  system := usualSystem ⟨#[.directory directoryMode 0 [("w".toList, 1)] false,
    .directory directoryMode 0 [("p".toList, 2), ("y".toList, 3)] false,
    .directory directoryMode 1 [("x".toList, 4), ("w".toList, 5)] false,
    .file 0o755 [], .file 0o755 [],
    .directory directoryMode 2 [("y".toList, 6)] false, .file 0o755 []]⟩
  cwd := 1

end Host

namespace Command

/-- Where `./` in front of a path leads nowhere else, as on the host, a name stands for the first of its places at
which there is a regular file, and for nothing if there is none. What it stands for has a `/`, and is the same where
someone is asked for each line. -/
theorem resolve?_first_place (searchPath : Option Text) (name : Text) (interactive : Bool) :
    (∀ h : Host, SeesHere h.isFile) ∧
    ∀ isFile, SeesHere isFile →
      (∀ path, resolve? isFile searchPath name interactive = some path ↔
        ∃ before behind, places searchPath name interactive = before ++ path :: behind ∧
          isFile path = true ∧ ∀ other ∈ before, isFile other = false) ∧
      (resolve? isFile searchPath name interactive = none ↔
        ∀ path ∈ places searchPath name interactive, isFile path = false) ∧
      (∀ path, resolve? isFile searchPath name interactive = some path → '/' ∈ path) ∧
      (∀ path, resolve? isFile searchPath name false = some path →
        resolve? isFile searchPath name true = some path) := by
  refine ⟨Host.seesHere, fun isFile h => ?_⟩
  rw [resolve?_eq h, resolve?_eq h, resolve?_eq h]
  refine ⟨fun path => ?_, ?_, fun path hpath => ?_, fun path hpath => ?_⟩
  · rw [List.find?_eq_some_iff_append]
    constructor
    · rintro ⟨hfile, before, behind, hplaces, hbefore⟩
      exact ⟨before, behind, hplaces, hfile, fun other ho => by simpa using hbefore other ho⟩
    · rintro ⟨before, behind, hplaces, hfile, hbefore⟩
      exact ⟨hfile, before, behind, hplaces, fun other ho => by simpa using hbefore other ho⟩
  · rw [List.find?_eq_none]
    exact forall₂_congr fun path _ => Bool.eq_false_iff.symm
  · exact slash_mem_of_mem_places (List.mem_of_find?_eq_some hpath)
  · exact (places_false_prefix_true searchPath name).find?_eq_some hpath

/-- A file in a directory of the search path behind an empty one, and one that is found only where someone is
asked for each line, by a name without a `/`. -/
theorem resolve?_first_place_of_empty_directory :
    let isFile := Host.overlaid.isFile
    resolve? isFile (some ":p".toList) "x".toList false = some "p/x".toList ∧
      resolve? isFile (some ":p".toList) "x".toList true = some "p/x".toList ∧
      resolve? isFile none "y".toList true = some "./y".toList ∧
      resolve? isFile none "y".toList false = none := by
  have habsent : Host.overlaid.isFile "./x".toList = false := by cbv
  have hfile : Host.overlaid.isFile "p/x".toList = true := by cbv
  have hfile' : Host.overlaid.isFile "./y".toList = true := by cbv
  have hsees := Host.overlaid.seesHere
  obtain ⟨hsearched, -, -, hasked⟩ := (resolve?_first_place (some ":p".toList) "x".toList false).2 _ hsees
  have hx := (hsearched "p/x".toList).2
    ⟨["./x".toList], ["./x".toList], by decide, hfile, List.forall_mem_singleton.2 habsent⟩
  obtain ⟨hitself, -, -, -⟩ := (resolve?_first_place none "y".toList true).2 _ hsees
  have hy := (hitself "./y".toList).2 ⟨[], [], by decide, hfile', List.forall_mem_nil _⟩
  obtain ⟨-, hnone, -, -⟩ := (resolve?_first_place none "y".toList false).2 _ hsees
  have hplaces : places none "y".toList false = [] := by decide
  exact ⟨hx, hasked _ hx, hy, hnone.2 (hplaces ▸ List.forall_mem_nil _)⟩

end Command

end LineShell
