import Mathlib
import LineShell.Host.Basic
import LineShell.Proofs.History
import LineShell.Proofs.Machine

/-!
# The history file

* `History.load_ok` : all of a history that has been loaded;
* `History.load_fileBytes`, `History.load_fileBytes_load` : a history that is written and loaded again;
* `History.LoadsOrKeeps h opened` : loading puts the last lines of the file in place of `h`, or fails and
  leaves `h` as it is.

`reload_of_written` : what is written is loaded, and a file that was loaded and written stays as it is.
`loadsOrKeeps_iff` : a history that holds lines does not lose them to a file that is missing.
-/

namespace LineShell

variable {ω : Type}

namespace Table

@[simp] theorem size_ofTexts (ts : List Text) : (ofTexts ts).size = ts.length := by
  rw [← length_texts, texts_ofTexts]

theorem renumber_eq (t : Table) : t.renumber = .ofTexts t.texts := by
  have hentries := (numbered_renumber t).entries
  rw [texts_renumber] at hentries
  exact congrArg Table.mk hentries

end Table

namespace History

theorem replace_eq (h : History) (ts : List Text) :
    h.replace ts = ⟨.ofTexts (ts.rtake h.cap), h.cap⟩ := by
  rw [replace, trim, Table.renumber_eq, Table.texts_dropFront, Table.texts_ofTexts, Table.size_ofTexts]
  rfl

/-- Nothing of the history from before is left but the cap. -/
theorem load_ok (h : History) (bs : Bytes) :
    let kept := (Bytes.textLines bs).rtake h.cap
    h.load (.ok ⟨bs, none⟩) = (.ok kept.length, ⟨.ofTexts kept, h.cap⟩) := by
  simp only [load, replace_eq, Table.size_ofTexts]

theorem texts_load_ok (h : History) (bs : Bytes) :
    (h.load (.ok ⟨bs, none⟩)).2.texts = (Bytes.textLines bs).rtake h.cap := texts_replace ..

/-! ## Written and loaded again -/

theorem load_fileBytes {h : History} (hn : ∀ t ∈ h.texts, '\n' ∉ t) (other : History) :
    let kept := h.texts.rtake other.cap
    other.load (.ok ⟨h.fileBytes, none⟩) = (.ok kept.length, ⟨.ofTexts kept, other.cap⟩) := by
  rw [load_ok, fileBytes, Bytes.textLines_ofLines hn]

/-- A history that was loaded is loaded again from the file that it is written to. -/
theorem load_fileBytes_load (h other : History) (hcap : other.cap = h.cap) (bs : Bytes) :
    let once := (h.load (.ok ⟨bs, none⟩)).2
    other.load (.ok ⟨once.fileBytes, none⟩) = (.ok once.table.size, once) := by
  intro once
  have honce : once = ⟨.ofTexts once.texts, other.cap⟩ := by
    rw [texts_load_ok, hcap]
    exact congrArg Prod.snd (load_ok h bs)
  have hn : ∀ t ∈ once.texts, '\n' ∉ t := by
    rw [texts_load_ok]
    exact fun t ht => Bytes.not_mem_textLines (mem_of_mem_rtake ht)
  have hkept : once.texts.rtake other.cap = once.texts := by
    rw [hcap, texts_load_ok]
    exact rtake_of_length_le (length_rtake_le ..)
  rw [load_fileBytes hn, hkept, ← honce]
  exact congrArg (fun n => (Except.ok n, once)) (Table.length_texts _)

/-- A history without newlines in its lines is loaded from the file that it is written to, if that one write is
read back: the last lines that the cap allows, numbered from zero. A history that was loaded from any octets and
written is loaded from its file as it is, under the same cap, and writing it once more changes nothing. -/
theorem reload_of_written (m : Machine ω) (path : Text) :
    (∀ (h other : History) (w w' : ω), (∀ t ∈ h.texts, '\n' ∉ t) → m.Rereads path w h.fileBytes →
      m.writeFile w path h.fileBytes = .ok w' →
      let kept := h.texts.rtake other.cap
      other.load ((m.readFile w' path).map (·.1)) =
        (.ok kept.length, ⟨.ofTexts kept, other.cap⟩)) ∧
    ∀ (bs : Bytes) (h other : History) (w w' : ω), other.cap = h.cap →
      let once := (h.load (.ok ⟨bs, none⟩)).2
      once.texts = (Bytes.textLines bs).rtake h.cap ∧
      (h.load (.ok ⟨bs, none⟩)).1 = .ok once.table.size ∧
      (m.Rereads path w once.fileBytes → m.writeFile w path once.fileBytes = .ok w' →
        other.load ((m.readFile w' path).map (·.1)) = (.ok once.table.size, once) ∧
        ∀ found v v', m.readFile w' path = .ok (found, v) →
          m.Rereads path v (other.load (.ok found)).2.fileBytes →
          m.writeFile v path (other.load (.ok found)).2.fileBytes = .ok v' →
          (m.readFile v' path).map (·.1) = .ok found) := by
  refine ⟨fun h other w w' hn hback hw => ?_, fun bs h other w w' hcap => ?_⟩
  · obtain ⟨v, hr⟩ := Machine.exists_readFile_of_contents? (hback w' hw)
    rw [hr]
    exact load_fileBytes hn other
  · intro once
    have hagain := load_fileBytes_load h other hcap bs
    refine ⟨texts_load_ok h bs, rfl, fun hback hw => ?_⟩
    obtain ⟨w'', hr⟩ := Machine.exists_readFile_of_contents? (hback w' hw)
    refine ⟨by rw [hr]; exact hagain, fun found v v' hr' hback' hw' => ?_⟩
    obtain ⟨rfl, rfl⟩ : ⟨once.fileBytes, none⟩ = found ∧ w'' = v := by simpa [hr] using hr'
    -- the second history is the first one, so the same octets are written
    obtain ⟨v'', hr''⟩ := Machine.exists_readFile_of_contents? (hback' v' hw')
    rw [hr'', hagain]
    rfl

end History

namespace Host

/-- A host at work in its root directory, in which there is one file, `h`. -/
def oneFile (bs : Bytes) : Host where
  system := usualSystem ⟨#[.directory directoryMode 0 [("h".toList, 1)] false, .file FileTree.usualMode bs]⟩
  cwd := FileTree.root

theorem readFile_oneFile (bs : Bytes) :
    machine.readFile (oneFile bs) "/h".toList = .ok (⟨bs, none⟩, oneFile bs) := by cbv

theorem writeFile_oneFile (bs bs' : Bytes) :
    machine.writeFile (oneFile bs) "/h".toList bs' = .ok (oneFile bs') := by cbv

theorem rereads_oneFile (bs bs' : Bytes) : machine.Rereads "/h".toList (oneFile bs) bs' := by
  intro h hw
  obtain rfl : oneFile bs' = h := Except.ok.inj ((writeFile_oneFile bs bs').symm.trans hw)
  exact Machine.contents?_of_readFile (readFile_oneFile bs')

end Host

namespace History

/-- Lines that are empty, end in blanks or hold other controls; and a file that is not UTF-8 and ends
without a newline. -/
theorem reload_of_written_odd_lines :
    let m := Host.machine
    let path := "/h".toList
    let h : History := ["".toList, "a \r".toList, "\x00 é\t".toList].foldl add (empty 5)
    let bs : Bytes := [97, 255, 10, 10, 98]
    let once := ((empty 2).load (.ok ⟨bs, none⟩)).2
    let old := Host.oneFile bs
    let saved := Host.oneFile h.fileBytes
    let resaved := Host.oneFile once.fileBytes
    (∀ t ∈ h.texts, '\n' ∉ t) ∧ m.Rereads path old h.fileBytes ∧
      m.writeFile old path h.fileBytes = .ok saved ∧
      (empty 2).load ((m.readFile saved path).map (·.1)) =
        (.ok 2, ⟨.ofTexts ["a \r".toList, "\x00 é\t".toList], 2⟩) ∧
      once.texts = ["".toList, "b".toList] ∧ m.Rereads path old once.fileBytes ∧
      m.writeFile old path once.fileBytes = .ok resaved ∧
      (empty 2).load ((m.readFile resaved path).map (·.1)) = (.ok 2, once) ∧
      m.Rereads path resaved once.fileBytes ∧ m.writeFile resaved path once.fileBytes = .ok resaved ∧
      (m.readFile resaved path).map (·.1) = .ok ⟨once.fileBytes, none⟩ := by
  intro m path h bs once old saved resaved
  have hn : ∀ t ∈ h.texts, '\n' ∉ t := by decide
  have hback : ∀ bs bs', m.Rereads path (Host.oneFile bs) bs' := Host.rereads_oneFile
  have hwrite : ∀ bs bs', m.writeFile (Host.oneFile bs) path bs' = .ok (Host.oneFile bs') :=
    Host.writeFile_oneFile
  have hagain : ((empty 2).load (.ok ⟨once.fileBytes, none⟩)).2.fileBytes = once.fileBytes := by decide +kernel
  obtain ⟨hload, honce⟩ := reload_of_written m path
  have hloaded := hload h (empty 2) old saved hn (hback bs _) (hwrite bs _)
  obtain ⟨-, -, hsaved⟩ := honce bs (empty 2) (empty 2) old resaved rfl
  obtain ⟨hsame, hstays⟩ := hsaved (hback bs _) (hwrite bs _)
  have hkept := hstays _ _ resaved (Host.readFile_oneFile once.fileBytes)
  rw [hagain] at hkept
  exact ⟨hn, hback bs _, hwrite bs _, hloaded, by decide +kernel, hback bs _, hwrite bs _, hsame,
    hback once.fileBytes _, hwrite once.fileBytes _, hkept (hback once.fileBytes _) (hwrite once.fileBytes _)⟩

/-! ## Replaced or kept -/

/-- The lines of the file that was opened; none if it is missing. -/
def linesOf : Except SysError ByteStream → List Text
  | .ok found => Bytes.textLines found.bytes
  | .error _ => []

/-- When loading gives a number, so many lines are there, the last of the file, numbered from zero,
whatever was there before; when it fails, all is as it was. -/
structure LoadsOrKeeps (h : History) (opened : Except SysError ByteStream) : Prop where
  loads : ∀ n, (h.load opened).1 = .ok n → n = (h.load opened).2.table.size ∧
    (h.load opened).2.table = .ofTexts ((linesOf opened).rtake h.cap)
  keeps : ∀ e, (h.load opened).1 = .error e → (h.load opened).2 = h

theorem loadsOrKeeps_ok (h : History) (bs : Bytes) : h.LoadsOrKeeps (.ok ⟨bs, none⟩) := by
  refine ⟨fun n hn => ?_, fun e he => ?_⟩
  · rw [load_ok] at hn ⊢
    obtain rfl := Except.ok.inj hn
    exact ⟨(Table.size_ofTexts _).symm, rfl⟩
  · simp [load_ok] at he

/-- Without a file the lines stay, though none are counted. -/
theorem loadsOrKeeps_notFound_iff (h : History) :
    h.LoadsOrKeeps (.error .notFound) ↔ h.table = .empty := by
  have hl : h.load (.error .notFound) = (.ok 0, h) := rfl
  have hnone : Table.ofTexts ((linesOf (.error .notFound)).rtake h.cap) = .empty := by
    rw [linesOf, List.rtake_nil]
    rfl
  constructor
  · intro hlaw
    have htable := (hlaw.loads 0 rfl).2
    rwa [hl, hnone] at htable
  · intro hempty
    refine ⟨fun n hn => ?_, fun e he => nomatch he⟩
    obtain rfl : 0 = n := Except.ok.inj hn
    rw [hl, hnone]
    exact ⟨by rw [hempty]; rfl, hempty⟩

theorem loadsOrKeeps_of_error {h : History} {opened : Except SysError ByteStream} {e : SysError}
    (he : (h.load opened).1 = .error e) (hh : (h.load opened).2 = h) : h.LoadsOrKeeps opened :=
  ⟨fun n hn => by simp [he] at hn, fun _ _ => hh⟩

/-- What cannot be opened fails to load, unless it is missing, and so does what ends in a failure. -/
theorem load_error_iff (h : History) (opened : Except SysError ByteStream) (e : SysError) :
    (h.load opened).1 = .error e ↔
      (opened = .error e ∧ e ≠ .notFound) ∨ ∃ bs, opened = .ok ⟨bs, some e⟩ := by
  unfold load
  split
  · refine iff_of_false (fun he => nomatch he) ?_
    rintro (⟨he, hne⟩ | ⟨bs, hbs⟩)
    · exact hne (Except.error.inj he).symm
    · nomatch hbs
  · next e' hother =>
    constructor
    · intro he
      obtain rfl := Except.error.inj he
      exact .inl ⟨rfl, hother⟩
    · rintro (⟨he, -⟩ | ⟨bs, hbs⟩)
      · exact congrArg _ (Except.error.inj he)
      · nomatch hbs
  · simp
  · simp

/-- Loading replaces the history or keeps it, but for a missing file: then none are counted and the
history stays, which is the same only for one that is empty. It fails exactly if the file cannot be
opened for another reason, or cannot be read to its end. -/
theorem loadsOrKeeps_iff (m : Machine ω) (h : History) (w : ω) (path : Text) :
    let opened := (m.readFile w path).map (·.1)
    (h.LoadsOrKeeps opened ↔ (opened = .error .notFound → h.table = .empty)) ∧
    (opened = .error .notFound → h.load opened = (.ok 0, h)) ∧
    ∀ e, (h.load opened).1 = .error e ↔
      (opened = .error e ∧ e ≠ .notFound) ∨ ∃ bs, opened = .ok ⟨bs, some e⟩ := by
  intro opened
  refine ⟨⟨fun hlaw hmissing => ?_, fun hempty => ?_⟩, fun hmissing => ?_, load_error_iff h opened⟩
  · rw [hmissing] at hlaw
    exact (loadsOrKeeps_notFound_iff h).1 hlaw
  · obtain ⟨⟨e, he⟩, hh⟩ | ⟨hmissing, -⟩ | ⟨bs, n, hopened, -⟩ := load_cases h opened
    · exact loadsOrKeeps_of_error he hh
    · rw [hmissing]
      exact (loadsOrKeeps_notFound_iff h).2 (hempty hmissing)
    · rw [hopened]
      exact loadsOrKeeps_ok h bs
  · rw [hmissing]
    rfl

/-- A file with more lines than are kept, in place of a line that was there before. -/
theorem loadsOrKeeps_of_longer_file :
    let m := Bench.machine
    let path := "/h".toList
    let w : Bench := Bench.plain.write path (Utf8.encode "one\ntwo\nthree".toList)
    let h := (empty 2).add "kept".toList
    let opened := (m.readFile w path).map (·.1)
    h.LoadsOrKeeps opened ∧
      h.load opened = (.ok 2, ⟨.ofTexts ["two".toList, "three".toList], 2⟩) := by
  intro m path w h opened
  have hfound : opened ≠ .error .notFound := by decide +kernel
  obtain ⟨hiff, -⟩ := loadsOrKeeps_iff m h w path
  exact ⟨hiff.2 fun hmissing => absurd hmissing hfound, by decide +kernel⟩

/-- A line is there before a missing file is loaded, and it stays, though no line is counted. -/
theorem not_loadsOrKeeps_of_missing_file :
    let m := Bench.machine
    let path := "/h".toList
    let h := (empty 2).add "kept".toList
    let opened := (m.readFile Bench.plain path).map (·.1)
    opened = .error .notFound ∧ (h.load opened).1 = .ok 0 ∧
      (h.load opened).2.texts = ["kept".toList] ∧ ¬ h.LoadsOrKeeps opened := by
  intro m path h opened
  have hopened : opened = .error .notFound := by decide +kernel
  have hload : h.load opened = (.ok 0, h) := by rw [hopened]; rfl
  refine ⟨hopened, congrArg Prod.fst hload, by rw [hload]; decide, fun hlaw => ?_⟩
  have hcount := (hlaw.loads 0 (congrArg Prod.fst hload)).1
  rw [hload] at hcount
  exact absurd hcount (by decide)

end History

end LineShell
