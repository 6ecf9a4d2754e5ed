import LineShell.Host.Basic
import LineShell.Proofs.Text.Utf8

/-!
# Paths from the working directory

A path that does not start at the root leads where it leads with `./` in front of it. With the `./` it may
be too long, but not if it is a name: a name is too long before that.

* `Path.parts_here` : the names that such a path walks through;
* `FileTree.walk_here`, `FileTree.walk_long` : what the name `.` does, and a name that is too long;
* `FileTree.find_of_here`, `FileTree.find_here` : the node that such a path leads to;
* `Host.isFile_of_here`, `Host.isFile_here` : whether it leads to a regular file;
* `Host.isFile_directory` : `./` alone leads to none.
-/

namespace LineShell

namespace Text

theorem not_mem_toOctetText {c : Char} (hc : c.toNat < 0x80) {t : Text} (ht : c ∉ t) :
    c ∉ toOctetText t := by
  intro hm
  have hoctet : c.toNat.toUInt8 ∈ toOctets (toOctetText t) := List.mem_map_of_mem hm
  rw [toOctetText, toOctets_ofOctets] at hoctet
  exact Utf8.not_mem_encode hc ht hoctet

theorem toOctetText_append (s t : Text) : toOctetText (s ++ t) = toOctetText s ++ toOctetText t := by
  rw [toOctetText, Utf8.encode_append, ofOctets, List.map_append]
  rfl

/-- The first octet of a path is a `/` only if its first character is one. -/
theorem exists_toOctetText_cons {c : Char} (hc : c ≠ '/') (t : Text) :
    ∃ d u, toOctetText (c :: t) = d :: u ∧ d ≠ '/' := by
  obtain ⟨b, bs, hb⟩ := List.exists_cons_of_ne_nil (Utf8.encodeChar_ne_nil c)
  have hchar : toOctetText [c] = Char.ofNat b.toNat :: ofOctets bs := by
    rw [toOctetText, Utf8.encode, List.flatMap_singleton, hb]
    rfl
  have hslash : '/' ∉ toOctetText [c] := not_mem_toOctetText (by decide) (by simpa using Ne.symm hc)
  refine ⟨Char.ofNat b.toNat, ofOctets bs ++ toOctetText t, ?_, fun hd => ?_⟩
  · have happend := toOctetText_append [c] t
    rw [hchar] at happend
    exact happend
  · rw [hchar, hd] at hslash
    exact hslash (List.mem_cons_self ..)

end Text

/-- The names of a path that does not start at the root, without and with `./` in front. -/
theorem Path.parts_here {c : Char} (hc : c ≠ '/') (p : Text) :
    ∃ name rest, parts (c :: p) = (c :: name) :: rest ∧
      parts ('.' :: '/' :: c :: p) = ['.'] :: (c :: name) :: rest := by
  obtain ⟨name, names, hs⟩ : ∃ name names, (c :: p).splitOnP (· == '/') = (c :: name) :: names := by
    rw [List.splitOnP_cons_eq_if_modifyHead, if_neg (by simpa using hc)]
    obtain ⟨name, names, hp⟩ := List.exists_cons_of_ne_nil (List.splitOnP_ne_nil (· == '/') p)
    exact ⟨name, names, by rw [hp]; rfl⟩
  have hs' : ('.' :: '/' :: c :: p).splitOnP (· == '/') = ['.'] :: (c :: name) :: names := by
    have hcut : ('/' == '/') = true := rfl
    have := List.splitOnP_append_cons (p := (· == '/')) ['.'] (c :: p) hcut
    rwa [hs] at this
  refine ⟨name, names.filter (!·.isEmpty) ++ if !names.isEmpty && names.getLast? == some [] then [[]]
    else [], ?_, ?_⟩
  · cases names <;> simp [parts, hs, List.getLast?_cons]
  · cases names <;> simp [parts, hs', List.getLast?_cons]

namespace Host

namespace FileTree

variable {t : FileTree} {cwd : Nat} {p : Purpose}

/-- Walking through the name `.` takes the right to walk that the next name takes as well. -/
theorem walk_here (t : FileTree) (p : Purpose) (links cur : Nat) {name : Text} (hn : name ≠ [])
    (rest : List Text) :
    t.walk p links cur (['.'] :: name :: rest) = t.walk p links cur (name :: rest) := by
  cases hnode : t.node? cur with
  | none => rw [walk, walk, hnode]
  | some n =>
    cases n with
    | directory mode parent entries removed =>
      by_cases hmode : mode &&& Right.run.bit = 0
      · rw [walk, walk, hnode]
        simp [hn, hmode]
      · rw [walk, hnode]
        simp [hmode, Path.isHere]
    | _ => rw [walk, walk, hnode]

theorem walk_long (t : FileTree) (p : Purpose) (links cur : Nat) {name : Text}
    (h : maxNameLength < name.length) : ∃ e, t.walk p links cur [name] = .error e := by
  have hempty : name.isEmpty = false := by
    cases name
    · simp at h
    · rfl
  have hhere : Path.isHere name = false := by
    rw [Path.isHere, hempty, Bool.false_or, beq_eq_false_iff_ne]
    rintro rfl
    exact absurd h (by decide)
  have habove : Path.isAbove name = false := by
    rw [Path.isAbove, beq_eq_false_iff_ne]
    rintro rfl
    exact absurd h (by decide)
  rw [walk]
  cases t.node? cur with
  | none => exact ⟨_, rfl⟩
  | some n =>
    cases n with
    | directory mode parent entries removed =>
      by_cases hmode : mode &&& Right.run.bit = 0
      · exact ⟨.accessDenied, by simp [hempty, hmode]⟩
      · exact ⟨.nameTooLong, by simp [hempty, hmode, hhere, habove, h]⟩
    | _ => exact ⟨_, rfl⟩

theorem locate_here {c : Char} (hc : c ≠ '/') {path : Text}
    (hlen : (c :: path).length + 2 ≤ maxPathLength) :
    t.locate cwd p ('.' :: '/' :: c :: path) = t.locate cwd p (c :: path) := by
  obtain ⟨name, rest, hparts, hparts'⟩ := Path.parts_here hc path
  have hstart : startOf cwd ('.' :: '/' :: c :: path) = startOf cwd (c :: path) := by
    simp [startOf, Path.isAbsolute, hc]
  simp only [List.length_cons] at hlen
  have hshort : ¬ ('.' :: '/' :: c :: path).length > maxPathLength := by
    simp only [List.length_cons]
    omega
  have hshort' : ¬ (c :: path).length > maxPathLength := by
    simp only [List.length_cons]
    omega
  rw [locate, locate, if_neg hshort, if_neg hshort', hstart, hparts, hparts',
    walk_here _ _ _ _ (List.cons_ne_nil _ _)]
  simp

theorem find_of_locate_error {path : Text} (h : ∃ e, t.locate cwd .target path = .error e)
    (r : Nat × Node) : t.find cwd path ≠ .ok r := by
  obtain ⟨e, he⟩ := h
  rw [find, he]
  nofun

theorem find_of_here {c : Char} (hc : c ≠ '/') {path : Text} {r : Nat × Node}
    (h : t.find cwd ('.' :: '/' :: c :: path) = .ok r) : t.find cwd (c :: path) = .ok r := by
  by_cases hlen : (c :: path).length + 2 ≤ maxPathLength
  · rwa [find, locate_here hc hlen, ← find] at h
  · refine absurd h (find_of_locate_error ?_ r)
    have hlong : ('.' :: '/' :: c :: path).length > maxPathLength := by
      simp only [List.length_cons] at hlen ⊢
      omega
    rw [locate, if_pos hlong]
    split
    · exact ⟨_, rfl⟩
    · exact ⟨_, rfl⟩

/-- Only a directory is found under a path with a `/` at its end. -/
theorem find_directory {r : Nat × Node} (h : t.find cwd ['.', '/'] = .ok r) :
    ∃ mode parent entries removed, r.2 = .directory mode parent entries removed ∧
      t.node? r.1 = some r.2 := by
  have hparts : Path.parts ['.', '/'] = [['.'], []] := by decide
  rw [find, locate, if_neg (by decide), if_neg (by decide), if_neg (by decide), hparts, walk] at h
  cases hnode : t.node? (startOf cwd ['.', '/']) with
  | none => simp [hnode] at h
  | some n =>
    cases n with
    | directory mode parent entries removed =>
      by_cases hmode : mode &&& Right.run.bit = 0
      · simp [hnode, hmode] at h
      · obtain rfl : _ = r := by simpa [hnode, hmode, Path.isHere, walk] using h
        exact ⟨mode, parent, entries, removed, rfl, hnode⟩
    | _ => simp [hnode] at h

/-- A name that is too long with `./` in front of it is longer than any name can be. -/
theorem find_here {name : Text} (hne : name ≠ []) (hn : '/' ∉ name) {r : Nat × Node}
    (h : t.find cwd name = .ok r) : t.find cwd ('.' :: '/' :: name) = .ok r := by
  obtain ⟨c, path, rfl⟩ := List.exists_cons_of_ne_nil hne
  have hc : c ≠ '/' := fun hc => hn (hc ▸ List.mem_cons_self ..)
  by_cases hlen : (c :: path).length + 2 ≤ maxPathLength
  · rwa [find, locate_here hc hlen, ← find]
  · refine absurd h (find_of_locate_error ?_ r)
    have hlong : maxNameLength < (c :: path).length := by
      simp only [maxNameLength, maxPathLength] at hlen ⊢
      omega
    rw [locate, Path.parts_eq_of_not_mem hn]
    split
    · exact ⟨_, rfl⟩
    · split
      · exact ⟨_, rfl⟩
      · split
        · exact ⟨_, rfl⟩
        · exact walk_long _ _ _ _ hlong

end FileTree

theorem isFile_of_find {h : Host} {p q : Text}
    (hpq : ∀ r, h.tree.find h.cwd (Text.toOctetText p) = .ok r →
      h.tree.find h.cwd (Text.toOctetText q) = .ok r) (hp : h.isFile p = true) : h.isFile q = true := by
  unfold isFile nodeAt at hp ⊢
  cases hf : h.tree.find h.cwd (Text.toOctetText p) with
  | error e => simp [hf] at hp
  | ok r =>
    rw [hpq r hf]
    rwa [hf] at hp

theorem toOctetText_here (path : Text) :
    Text.toOctetText ('.' :: '/' :: path) = '.' :: '/' :: Text.toOctetText path :=
  Text.toOctetText_append "./".toList path

theorem isFile_of_here {h : Host} {path : Text} (hne : path ≠ []) (hrel : Path.isAbsolute path = false)
    (hfile : h.isFile ('.' :: '/' :: path) = true) : h.isFile path = true := by
  obtain ⟨c, path, rfl⟩ := List.exists_cons_of_ne_nil hne
  have hc : c ≠ '/' := by simpa [Path.isAbsolute] using hrel
  refine isFile_of_find (fun r hr => ?_) hfile
  obtain ⟨d, u, hu, hd⟩ := Text.exists_toOctetText_cons hc path
  rw [toOctetText_here, hu] at hr
  rw [hu]
  exact FileTree.find_of_here hd hr

theorem isFile_here {h : Host} {name : Text} (hne : name ≠ []) (hn : '/' ∉ name)
    (hfile : h.isFile name = true) : h.isFile ('.' :: '/' :: name) = true := by
  refine isFile_of_find (fun r hr => ?_) hfile
  obtain ⟨c, path, rfl⟩ := List.exists_cons_of_ne_nil hne
  have hc : c ≠ '/' := fun hc => hn (hc ▸ List.mem_cons_self ..)
  obtain ⟨d, u, hu, -⟩ := Text.exists_toOctetText_cons hc path
  rw [toOctetText_here]
  exact FileTree.find_here (by simp [hu]) (Text.not_mem_toOctetText (by decide) hn) hr

theorem isFile_directory (h : Host) : h.isFile "./".toList = false := by
  have hoctets : Text.toOctetText "./".toList = ['.', '/'] := toOctetText_here []
  unfold isFile nodeAt
  rw [hoctets]
  cases hf : h.tree.find h.cwd ['.', '/'] with
  | error e => rfl
  | ok r =>
    obtain ⟨id, n⟩ := r
    obtain ⟨mode, parent, entries, removed, rfl, hnode⟩ := FileTree.find_directory hf
    simp [hnode, Node.isRegular]

end Host

end LineShell
