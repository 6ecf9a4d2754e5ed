import LineShell.Proofs.Command.Places

/-!
# Names that are paths

A name that starts at the root or with `./` says where its file is. It is looked for in the directories of the
search path all the same, behind a `./name` of its own and in front of any other.

* `Command.Explicit` : such names;
* `Command.Overlays` : a file below a directory of the search path that comes before the name's own file;
* `Command.find?_searchPlaces_eq_some_iff` : what is found in the search path;
* `Command.resolve?_of_own`, `resolve?_of_overlays`, `eq_or_overlays_of_resolve?` : which of the two files a
  name stands for.

`Command.resolve?_of_explicit` : a path stands for its own file or for one that overlays it;
`Command.resolve?_below_searchPath` : there are such files.
-/

namespace LineShell

namespace Command

/-- A name that starts at the root or with `./`. -/
def Explicit (name : Text) : Prop := name.head? = some '/' ∨ "./".toList <+: name

/-- The path of the name in a directory of the search path leads to a regular file, and no place before this
one does. -/
def Overlays (isFile : Text → Bool) (searchPath : Option Text) (name path : Text) : Prop :=
  ∃ dirs before dir behind, searchPath = some dirs ∧ dirs.splitOn ':' = before ++ dir :: behind ∧
    dir ≠ [] ∧ path = dir ++ '/' :: name ∧ isFile path = true ∧
    ∀ earlier ∈ ownPlace name ++ before.map (placeIn name), isFile earlier = false

variable {isFile : Text → Bool} {searchPath : Option Text} {name path : Text}

theorem Explicit.slash_mem (h : Explicit name) : '/' ∈ name := by
  rcases h with h | h
  · exact List.mem_of_mem_head? h
  · exact h.subset (by decide)

theorem Explicit.ne_nil (h : Explicit name) : name ≠ [] := List.ne_nil_of_mem h.slash_mem

/-- A file in a directory of the search path has a longer path than the name. -/
theorem Overlays.ne (h : Overlays isFile searchPath name path) : path ≠ name := by
  obtain ⟨_, _, dir, _, -, -, -, rfl, -⟩ := h
  refine fun heq => Nat.lt_irrefl name.length ?_
  calc name.length < (dir ++ '/' :: name).length := by simp; omega
    _ = name.length := by rw [heq]

/-- A path that starts at the root is the last of its own places. -/
theorem mem_places_of_root (hhead : name.head? = some '/') (searchPath : Option Text)
    (interactive : Bool) : name ∈ places searchPath name interactive := by
  have hslash : '/' ∈ name := List.mem_of_mem_head? hhead
  rw [places, if_neg (List.ne_nil_of_mem hslash), lastPlaces, if_pos (.inr (.inr hhead)), if_pos hslash]
  exact List.mem_append_right _ (List.mem_singleton_self _)

theorem find?_searchPlaces_eq_some_iff : (searchPlaces searchPath name).find? isFile = some path ↔
    ∃ dirs before dir behind, searchPath = some dirs ∧ dirs.splitOn ':' = before ++ dir :: behind ∧
      path = placeIn name dir ∧ isFile path = true ∧
      ∀ earlier ∈ before.map (placeIn name), isFile earlier = false := by
  rw [List.find?_eq_some_iff_append]
  constructor
  · rintro ⟨hfile, places, places', hplaces, hbefore⟩
    cases searchPath with
    | none => simp [searchPlaces] at hplaces
    | some dirs =>
      obtain ⟨before, rest, hdirs, rfl, hrest⟩ := List.map_eq_append_iff.1 hplaces
      obtain ⟨dir, behind, rfl, rfl, -⟩ := List.map_eq_cons_iff.1 hrest
      exact ⟨dirs, before, dir, behind, rfl, hdirs, rfl, hfile,
        fun earlier he => by simpa using hbefore earlier he⟩
  · rintro ⟨dirs, before, dir, behind, rfl, hdirs, rfl, hfile, hbefore⟩
    refine ⟨hfile, before.map (placeIn name), behind.map (placeIn name), ?_,
      fun earlier he => by simpa using hbefore earlier he⟩
    rw [searchPlaces, Option.elim_some, hdirs, List.map_append, List.map_cons]

/-- An existing `./name` is looked at before everything else. -/
theorem resolve?_of_own (h : SeesHere isFile) (hname : "./".toList <+: name) (hfile : isFile name = true)
    (searchPath : Option Text) (interactive : Bool) :
    resolve? isFile searchPath name interactive = some name := by
  have hlen : 2 < name.length := by
    obtain ⟨behind, rfl⟩ := hname
    cases behind with
    | nil =>
      rw [List.append_nil, h.directory] at hfile
      cases hfile
    | cons c behind => simp
  have hne : name ≠ [] := List.ne_nil_of_length_pos (by omega)
  rw [resolve?_eq h, places, if_neg hne, ownPlace, if_pos ⟨hname, hlen⟩]
  exact List.find?_cons_of_pos hfile

theorem resolve?_of_overlays (h : SeesHere isFile) (hover : Overlays isFile searchPath name path)
    (hne : name ≠ []) (interactive : Bool) :
    resolve? isFile searchPath name interactive = some path := by
  obtain ⟨dirs, before, dir, behind, hsome, hdirs, hdir, rfl, hfile, hbefore⟩ := hover
  have hplace : placeIn name dir = dir ++ '/' :: name := if_pos hdir
  have hown : (ownPlace name).find? isFile = none :=
    List.find?_eq_none.2 fun earlier he => by simp [hbefore earlier (List.mem_append_left _ he)]
  have hsearch : (searchPlaces searchPath name).find? isFile = some (dir ++ '/' :: name) :=
    find?_searchPlaces_eq_some_iff.2 ⟨dirs, before, dir, behind, hsome, hdirs, hplace.symm, hfile,
      fun earlier he => hbefore earlier (List.mem_append_right _ he)⟩
  rw [resolve?_eq h, places, if_neg hne, List.find?_append, List.find?_append, hown, hsearch]
  rfl

/-- The working directory has the name's own file, which comes first if it is called `./name`. -/
theorem placeIn_nil_of_resolve? (h : SeesHere isFile) (hname : Explicit name) {interactive : Bool}
    (hpath : resolve? isFile searchPath name interactive = some (placeIn name [])) :
    placeIn name [] = name := by
  by_cases hhead : name.head? = some '/'
  · rw [placeIn, if_neg (not_not_intro rfl), if_pos hhead]
  · have hplace : placeIn name [] = '.' :: '/' :: name := by
      rw [placeIn, if_neg (not_not_intro rfl), if_neg hhead]
      rfl
    have hrel : Path.isAbsolute name = false := Bool.eq_false_iff.2 (mt isAbsolute_iff.1 hhead)
    have hhere : isFile ('.' :: '/' :: name) = true := hplace ▸ isFile_of_resolve? h hpath
    have hfile : isFile name = true := h.of_here name hname.ne_nil hrel hhere
    have hfirst := resolve?_of_own h (hname.resolve_left hhead) hfile searchPath interactive
    exact Option.some.inj (hpath.symm.trans hfirst)

theorem eq_or_overlays_of_resolve? (h : SeesHere isFile) (hname : Explicit name) {interactive : Bool}
    (hpath : resolve? isFile searchPath name interactive = some path) :
    path = name ∨ Overlays isFile searchPath name path := by
  have hfirst := hpath
  rw [resolve?_eq h, places, if_neg hname.ne_nil, List.find?_append, List.find?_append] at hfirst
  rcases Option.or_eq_some_iff.1 hfirst with hfound | ⟨-, hlast⟩
  · rcases Option.or_eq_some_iff.1 hfound with hown | ⟨hown, hsearch⟩
    · rw [find?_ownPlace] at hown
      split at hown
      · exact .inl (Option.some.inj hown).symm
      · cases hown
    · obtain ⟨dirs, before, dir, behind, hdirs, hsplit, rfl, hfile, hbefore⟩ :=
        find?_searchPlaces_eq_some_iff.1 hsearch
      by_cases hdir : dir = []
      · subst hdir
        exact .inl (placeIn_nil_of_resolve? h hname hpath)
      · have hplace : placeIn name dir = dir ++ '/' :: name := if_pos hdir
        refine .inr ⟨dirs, before, dir, behind, hdirs, hsplit, hdir, hplace, hfile, fun earlier he => ?_⟩
        rcases List.mem_append.1 he with he | he
        · simpa using List.find?_eq_none.1 hown earlier he
        · exact hbefore earlier he
  · rw [find?_lastPlaces h hname.ne_nil] at hlast
    have hitself : itself name = name := if_pos (by simpa using hname.slash_mem)
    split at hlast
    · exact .inl ((Option.some.inj hlast).symm.trans hitself)
    · cases hlast

/-- Where `./` in front of a path leads nowhere else, as on the host, a name that is a path stands for nothing, for
its own file, or for one in a directory of the search path that overlays it. Nothing overlays the file of a
`./name`, and without such a file no name is passed by. -/
theorem resolve?_of_explicit (hname : Explicit name) (searchPath : Option Text) (interactive : Bool) :
    (∀ h : Host, SeesHere h.isFile) ∧
    ∀ isFile, SeesHere isFile →
      (∀ path, resolve? isFile searchPath name interactive = some path →
        isFile path = true ∧ (path = name ∨ Overlays isFile searchPath name path)) ∧
      (∀ path, Overlays isFile searchPath name path →
        resolve? isFile searchPath name interactive = some path ∧ path ≠ name) ∧
      ("./".toList <+: name → isFile name = true →
        resolve? isFile searchPath name interactive = some name) ∧
      (isFile name = true → (∀ path, ¬ Overlays isFile searchPath name path) →
        resolve? isFile searchPath name interactive = some name) := by
  refine ⟨Host.seesHere, fun isFile h => ?_⟩
  have hown (hhere : "./".toList <+: name) (hfile : isFile name = true) :=
    resolve?_of_own h hhere hfile searchPath interactive
  refine ⟨fun path hpath => ⟨isFile_of_resolve? h hpath, eq_or_overlays_of_resolve? h hname hpath⟩,
    fun path hover => ⟨resolve?_of_overlays h hover hname.ne_nil interactive, hover.ne⟩, hown,
    fun hfile hnone => ?_⟩
  rcases hname with hhead | hhere
  · cases hpath : resolve? isFile searchPath name interactive with
    | none =>
      rw [resolve?_eq h, List.find?_eq_none] at hpath
      exact absurd hfile (hpath name (mem_places_of_root hhead searchPath interactive))
    | some path =>
      rcases eq_or_overlays_of_resolve? h (.inl hhead) hpath with rfl | hover
      · rfl
      · exact absurd hover (hnone path)
  · exact hown hhere hfile

/-- The file `/w/y` is overlaid, the file `./y` is not although `p/./y` could be, and a path that has
no file is given one. -/
theorem resolve?_of_overlaid_path :
    let isFile := Host.overlaid.isFile
    (Explicit "/w/y".toList ∧ resolve? isFile (some "p".toList) "/w/y".toList false = some "p//w/y".toList) ∧
      (Explicit "./y".toList ∧ resolve? isFile (some "p".toList) "./y".toList false = some "./y".toList) ∧
      (Explicit "./x".toList ∧
        resolve? isFile (some "p".toList) "./x".toList false = some "p/./x".toList) := by
  have hroot : Explicit "/w/y".toList := .inl rfl
  have hhere : Explicit "./y".toList := .inr (by decide)
  have hhere' : Explicit "./x".toList := .inr (by decide)
  have hfile : Host.overlaid.isFile "p//w/y".toList = true := by cbv
  have hfile' : Host.overlaid.isFile "./y".toList = true := by cbv
  have hfile'' : Host.overlaid.isFile "p/./x".toList = true := by cbv
  have hno : Host.overlaid.isFile "./x".toList = false := by cbv
  have hsees := Host.overlaid.seesHere
  obtain ⟨-, hover, -, -⟩ := (resolve?_of_explicit hroot (some "p".toList) false).2 _ hsees
  obtain ⟨-, -, hown, -⟩ := (resolve?_of_explicit hhere (some "p".toList) false).2 _ hsees
  obtain ⟨-, hover', -, -⟩ := (resolve?_of_explicit hhere' (some "p".toList) false).2 _ hsees
  refine ⟨⟨hroot, (hover _ ?_).1⟩, ⟨hhere, hown (by decide) hfile'⟩, ⟨hhere', (hover' _ ?_).1⟩⟩
  · exact ⟨"p".toList, [], "p".toList, [], rfl, by decide, by decide, rfl, hfile, by decide⟩
  · exact ⟨"p".toList, [], "p".toList, [], rfl, by decide, by decide, rfl, hfile'',
      List.forall_mem_singleton.2 hno⟩

/-- Paths at which there is no file stand for files below a directory of the search path, and a path that
starts at the root stands for another file there than its own. -/
theorem resolve?_below_searchPath :
    let h := Host.overlaid
    (Explicit "/x".toList ∧ h.isFile "/x".toList = false ∧
      resolve? h.isFile (some "p".toList) "/x".toList false = some "p//x".toList) ∧
    (Explicit "./x".toList ∧ h.isFile "./x".toList = false ∧
      resolve? h.isFile (some "p".toList) "./x".toList false = some "p/./x".toList) ∧
    (Explicit "/w/y".toList ∧ h.isFile "/w/y".toList = true ∧
      resolve? h.isFile (some "p".toList) "/w/y".toList false = some "p//w/y".toList ∧
      h.nodeAt "/w/y".toList = .ok (some 3) ∧ h.nodeAt "p//w/y".toList = .ok (some 6)) := by
  refine ⟨⟨.inl rfl, ?_, ?_⟩, ⟨.inr (by decide), ?_, ?_⟩, .inl rfl, ?_, ?_, ?_, ?_⟩ <;> cbv

end Command

end LineShell
