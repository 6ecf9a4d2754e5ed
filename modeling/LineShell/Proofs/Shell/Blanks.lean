import LineShell.Proofs.Line.Operators
import LineShell.Proofs.Line.Words
import LineShell.Proofs.Shell.Reports
import LineShell.Proofs.Words

/-!
# Blank lines, blank segments and segments without words

A line is blank if it holds nothing but white space. Words are parted by three kinds of white space only; a
character of any other kind, a carriage return for one, is blank and yet makes a word.

* `Line.IsStray` : white space that parts no words; `Line.words_eq_nil_iff_isBlank`;
* `Line.Cursor.MayGive` : the segments that a cursor gives for some statuses, which are its pieces;
* `Ran.OnlyCounts` : a segment that does nothing but count its line;
* `OneBlank` : a line of which the blank segments are those without words, and do nothing.

`oneBlank_iff` : a line is so exactly if none of its blank segments holds stray white space.
-/

namespace LineShell

/-! ## Blank texts -/

namespace Line

variable {c : Char} {t word : Text}

theorem isSpace_of_isDelimiter (h : isDelimiter c = true) : Text.isSpace c = true := by
  unfold isDelimiter at h
  obtain (rfl | rfl) | rfl : (c = ' ' ∨ c = '\t') ∨ c = '\n' := by simpa using h
  all_goals decide

/-- White space that parts no words. -/
def IsStray (c : Char) : Prop := Text.isSpace c = true ∧ isDelimiter c = false

instance : DecidablePred IsStray := fun _ => inferInstanceAs (Decidable (_ ∧ _))

/-- A text has no words exactly if it is blank and no white space in it is stray. -/
theorem words_eq_nil_iff_isBlank :
    words t = [] ↔ Text.isBlank t = true ∧ ∀ c ∈ t, ¬ IsStray c := by
  rw [words_eq_nil_iff, Text.isBlank, List.all_eq_true]
  constructor
  · intro h
    refine ⟨fun c hc => isSpace_of_isDelimiter (h c hc), fun c hc hstray => ?_⟩
    exact Bool.false_ne_true (hstray.2.symm.trans (h c hc))
  · rintro ⟨hblank, hstray⟩ c hc
    by_contra hd
    exact hstray c hc ⟨hblank c hc, by simpa using hd⟩

theorem isStray_of_mem_words (hblank : Text.isBlank t = true) (hword : word ∈ words t) :
    ∀ c ∈ word, IsStray c := by
  intro c hc
  obtain ⟨hmem, hd⟩ := (mem_words hword).2 c hc
  exact ⟨List.all_eq_true.1 hblank c hmem, hd⟩

theorem pieces_of_operatorCount_eq_zero (h : operatorCount t = 0) : pieces t = [t] := by
  obtain ⟨segment, -, hlead⟩ | ⟨segment, l, rest, -, hl, hlead⟩ := leads_cut t
  · have htext : t = segment := by simpa [Link.text] using hlead.text
    rw [hlead.pieces_eq, if_pos rfl, ← htext]
  · have hlength := length_pieces t
    rw [hlead.pieces_eq, if_neg hl, List.length_cons, length_pieces rest, h] at hlength
    omega

/-- No operator is white space. -/
theorem operatorCount_of_isBlank (h : Text.isBlank t = true) : operatorCount t = 0 := by
  obtain ⟨segment, -, hlead⟩ | ⟨segment, l, rest, -, hl, hlead⟩ := leads_cut t
  · have hlength := length_pieces t
    rw [hlead.pieces_eq, if_pos rfl, List.length_singleton] at hlength
    omega
  · have hoperator : Text.isBlank l.text = true := by
      rw [hlead.text, Text.isBlank_append, Text.isBlank_append, Bool.and_eq_true, Bool.and_eq_true] at h
      exact h.2.1
    cases l with
    | first => exact absurd rfl hl
    | sequence => exact absurd hoperator (by decide)
    | and => exact absurd hoperator (by decide)
    | or => exact absurd hoperator (by decide)

theorem mem_of_mem_pieces {t segment : Text} (h : segment ∈ pieces t) : ∀ c ∈ segment, c ∈ t := by
  obtain ⟨first, -, hlead⟩ | ⟨first, l, rest, hcut, hl, hlead⟩ := leads_cut t
  · rw [hlead.pieces_eq, if_pos rfl, List.mem_singleton] at h
    subst h
    intro c hc
    rw [hlead.text]
    exact List.mem_append_left _ hc
  · have hshorter : rest.length < t.length := length_of_cut hcut
    rw [hlead.pieces_eq, if_neg hl, List.mem_cons] at h
    intro c hc
    rw [hlead.text]
    obtain rfl | h := h
    · exact List.mem_append_left _ hc
    · exact List.mem_append_right _ (List.mem_append_right _ (mem_of_mem_pieces h c hc))
termination_by t.length

/-! ## What a cursor may give -/

namespace Cursor

variable {cursor : Cursor} {segment : Text}

/-- For some statuses the cursor gives the segment, sooner or later. -/
def MayGive (cursor : Cursor) (segment : Text) : Prop :=
  ∃ statuses, segment ∈ (cursor.run statuses).1.map (·.1)

theorem exists_admits (l : Link) : ∃ s, l.admits s = true := by
  cases l with
  | or => exact ⟨1, rfl⟩
  | _ => exact ⟨0, rfl⟩

theorem run_prefix_pieces (statuses : List Status) (cursor : Cursor) :
    (cursor.run statuses).1.map (·.1) <+: cursor.pieces := by
  induction statuses generalizing cursor with
  | nil => exact List.nil_prefix
  | cons s statuses ih =>
    obtain ⟨rfl, hn⟩ | ⟨-, -, hn⟩ | ⟨segment, behind, hn, -, -⟩ := next_cases s cursor
    · rw [run_exhausted]
      exact List.nil_prefix
    · rw [run_cons_of_none statuses hn]
      exact List.nil_prefix
    · rw [run_cons_of_some statuses hn, pieces_of_next hn, List.map_cons, List.cons_prefix_cons]
      exact ⟨rfl, ih behind⟩

/-- With a status that each gate admits, all pieces are given. -/
theorem exists_run_eq_pieces (cursor : Cursor) :
    ∃ statuses, (cursor.run statuses).1.map (·.1) = cursor.pieces := by
  obtain ⟨s, hs⟩ := exists_admits cursor.link
  obtain ⟨rfl, -⟩ | ⟨-, ha, -⟩ | ⟨segment, behind, hn, -, -⟩ := next_cases s cursor
  · exact ⟨[], rfl⟩
  · exact absurd (ha.symm.trans hs) Bool.false_ne_true
  · have hshorter : behind.size < cursor.size := by
      have hlt := size_next (congrArg Prod.fst hn)
      rwa [hn] at hlt
    obtain ⟨statuses, hrun⟩ := exists_run_eq_pieces behind
    refine ⟨s :: statuses, ?_⟩
    rw [run_cons_of_some statuses hn, pieces_of_next hn, List.map_cons, hrun]
termination_by cursor.size

theorem mayGive_iff : cursor.MayGive segment ↔ segment ∈ cursor.pieces := by
  constructor
  · rintro ⟨statuses, h⟩
    exact (run_prefix_pieces statuses cursor).subset h
  · intro h
    obtain ⟨statuses, hrun⟩ := exists_run_eq_pieces cursor
    exact ⟨statuses, hrun ▸ h⟩

/-- A blank line has no segments, any other has its pieces. -/
theorem mayGive_load_iff {line : Text} :
    (load line).MayGive segment ↔ Text.isBlank line = false ∧ segment ∈ Line.pieces line := by
  rw [mayGive_iff, load]
  cases Text.isBlank line <;> simp [pieces]

end Cursor

end Line

/-! ## Blank segments -/

namespace Shell

variable {ω : Type} {m : Machine ω}

/-- Running the segment counts its line, and does nothing else. -/
def Ran.OnlyCounts (m : Machine ω) (r : Ran ω) : Prop :=
  r.outcome? m = none ∧ r.after m = ⟨{ r.shell.session with argv := [] }.countLine, r.shell.world,
    r.shell.journal.note (.ran r.segment [])⟩

/-- The segments of a line that was read are blank exactly if they have no words, and a blank one only
counts its line. Without operators, the line has no segments exactly if it has no words. -/
structure OneBlank (m : Machine ω) (s : Session) (raw : Text) : Prop where
  words : ∀ segment, (s.accept raw).cursor.MayGive segment →
    (Text.isBlank segment = true ↔ Line.words segment = [])
  onlyCounts : ∀ segment, (s.accept raw).cursor.MayGive segment → Text.isBlank segment = true →
    ∀ sh, Ran.OnlyCounts m ⟨segment, sh⟩
  line : Line.operatorCount (Line.stripComment raw) = 0 →
    ((∀ segment, ¬ (s.accept raw).cursor.MayGive segment) ↔ Line.words (Line.stripComment raw) = [])

theorem mayGive_accept_iff {s : Session} {raw segment : Text} : (s.accept raw).cursor.MayGive segment ↔
    Text.isBlank (Line.stripComment raw) = false ∧ segment ∈ Line.pieces (Line.stripComment raw) :=
  Line.Cursor.mayGive_load_iff

theorem Ran.onlyCounts_of_words {segment : Text} (h : Line.words segment = []) (sh : Shell ω) :
    Ran.OnlyCounts m ⟨segment, sh⟩ := by
  have hargv : sh.session.wordsOf m.pid segment = [] := Session.argv_prepare_of_nil h
  refine ⟨?_, Ran.after_eq_of_nil hargv⟩
  unfold Ran.outcome?
  rw [hargv]

theorem not_isReference_of_isStray {word : Text} (h : ∀ c ∈ word, Line.IsStray c) :
    ¬ Scope.IsReference word := by
  rintro ⟨name, -, rfl⟩
  exact absurd (h '$' List.mem_cons_self) (by decide)

/-- Every command of the shell has a name that is not blank. -/
theorem named?_of_isStray {word : Text} (h : ∀ c ∈ word, Line.IsStray c) : Builtin.named? word = none := by
  have hnames : ∀ b ∈ Builtin.all, b.name.all (fun c => decide (Line.IsStray c)) = false := by decide
  refine List.find?_eq_none.2 fun b hb hname => ?_
  obtain rfl : b.name = word := by simpa using hname
  refine Bool.eq_false_iff.1 (hnames b hb) (List.all_eq_true.2 fun c hc => ?_)
  exact decide_eq_true (h c hc)

theorem Ran.outcome?_of_isBlank {segment word : Text} {rest : List Text}
    (hblank : Text.isBlank segment = true) (hwords : Line.words segment = word :: rest) (sh : Shell ω)
    (halias : sh.session.aliases.lookup word = none) :
    Builtin.named? word = none ∧ ∃ result, Ran.outcome? m ⟨segment, sh⟩ = some (word, result) := by
  have hstray := Line.isStray_of_mem_words hblank (hwords ▸ List.mem_cons_self)
  have hfollow : (sh.session.aliases.follow sh.session.settings.maxAliasDepth word).2 = word :=
    (AliasTable.stopsAt_iff.1 ⟨0, Nat.zero_le _, rfl, .inr halias⟩).symm
  have hargv : sh.session.wordsOf m.pid segment = _ := Session.argv_prepare_of_cons hwords
  rw [hfollow, Scope.expandWord_of_not_isReference (not_isReference_of_isStray hstray)] at hargv
  exact ⟨named?_of_isStray hstray, _, Ran.outcome?_of_cons hargv⟩

/-- One notion of blank holds for a line exactly if no blank segment of it holds white space that parts no
words; so it does for every line without such white space. A segment without words is always blank and only
counts its line. A blank one with words is run: its first word, all of it stray white space, names no command
of the shell, and unless it is an alias it is the program that is looked for. -/
theorem oneBlank_iff (m : Machine ω) (s : Session) (raw : Text) :
    (OneBlank m s raw ↔ ∀ segment ∈ Line.pieces (Line.stripComment raw),
      Text.isBlank segment = true → ∀ c ∈ segment, ¬ Line.IsStray c) ∧
    ((∀ c ∈ Line.stripComment raw, ¬ Line.IsStray c) → OneBlank m s raw) ∧
    (∀ segment, Line.words segment = [] →
      Text.isBlank segment = true ∧ ∀ sh, Ran.OnlyCounts m ⟨segment, sh⟩) ∧
    ∀ segment word rest, Text.isBlank segment = true → Line.words segment = word :: rest →
      (∀ c ∈ word, Line.IsStray c) ∧ Builtin.named? word = none ∧
      ∀ sh : Shell ω, sh.session.aliases.lookup word = none →
        ∃ result, Ran.outcome? m ⟨segment, sh⟩ = some (word, result) := by
  have hiff : OneBlank m s raw ↔ ∀ segment ∈ Line.pieces (Line.stripComment raw),
      Text.isBlank segment = true → ∀ c ∈ segment, ¬ Line.IsStray c := by
    constructor
    · intro h segment hmem hblank
      cases hline : Text.isBlank (Line.stripComment raw) with
      | false =>
        have hgiven : (s.accept raw).cursor.MayGive segment := mayGive_accept_iff.2 ⟨hline, hmem⟩
        exact (Line.words_eq_nil_iff_isBlank.1 ((h.words segment hgiven).1 hblank)).2
      | true =>
        -- a blank line is its only piece, and is not given
        have hcount := Line.operatorCount_of_isBlank hline
        rw [Line.pieces_of_operatorCount_eq_zero hcount, List.mem_singleton] at hmem
        subst hmem
        refine (Line.words_eq_nil_iff_isBlank.1 ((h.line hcount).1 fun segment hgiven => ?_)).2
        exact absurd (hline.symm.trans (mayGive_accept_iff.1 hgiven).1) (by decide)
    · intro h
      have hwords : ∀ segment ∈ Line.pieces (Line.stripComment raw),
          Text.isBlank segment = true → Line.words segment = [] := fun segment hmem hblank =>
        Line.words_eq_nil_iff_isBlank.2 ⟨hblank, h segment hmem hblank⟩
      refine ⟨fun segment hgiven => ⟨?_, fun hnone => ?_⟩, fun segment hgiven hblank sh => ?_,
        fun hcount => ?_⟩
      · exact hwords segment (mayGive_accept_iff.1 hgiven).2
      · exact (Line.words_eq_nil_iff_isBlank.1 hnone).1
      · exact Ran.onlyCounts_of_words (hwords segment (mayGive_accept_iff.1 hgiven).2 hblank) sh
      · have hpieces := Line.pieces_of_operatorCount_eq_zero hcount
        have hself : Line.stripComment raw ∈ Line.pieces (Line.stripComment raw) := by simp [hpieces]
        constructor
        · intro hnone
          refine hwords _ hself ?_
          by_contra hline
          exact hnone _ (mayGive_accept_iff.2 ⟨by simpa using hline, hself⟩)
        · intro hline segment hgiven
          have hblank := (Line.words_eq_nil_iff_isBlank.1 hline).1
          exact absurd (hblank.symm.trans (mayGive_accept_iff.1 hgiven).1) (by decide)
  refine ⟨hiff, fun h => hiff.2 fun segment hmem _ c hc => h c (Line.mem_of_mem_pieces hmem c hc),
    fun segment hnone => ⟨(Line.words_eq_nil_iff_isBlank.1 hnone).1, Ran.onlyCounts_of_words hnone⟩,
    fun segment word rest hblank hwords => ?_⟩
  have hstray := Line.isStray_of_mem_words hblank (hwords ▸ List.mem_cons_self)
  exact ⟨hstray, named?_of_isStray hstray, fun sh halias =>
    (Ran.outcome?_of_isBlank hblank hwords sh halias).2⟩

/-- A line with a blank segment of delimiters, and a carriage return that is no segment of its own. -/
theorem oneBlank_of_tab_segment :
    let raw := "true; \t ;false\r # \r".toList
    let s := Session.start "sh".toList {} (.ofPairs [("PATH".toList, "/bin".toList)])
    let blank := " \t ".toList
    OneBlank Bench.machine s raw ∧ (s.accept raw).cursor.MayGive blank ∧ Text.isBlank blank = true ∧
      Line.words blank = [] ∧ Ran.OnlyCounts Bench.machine ⟨blank, start s Bench.plain⟩ ∧
      Ran.outcome? Bench.machine ⟨"\r".toList, start s Bench.plain⟩ =
        some ("\r".toList, .error .commandNotFound) := by
  intro raw s blank
  obtain ⟨hiff, -, hwordless, hworded⟩ := oneBlank_iff Bench.machine s raw
  have hnone : Line.words blank = [] := by decide
  have honly : ∀ segment ∈ Line.pieces (Line.stripComment raw),
      Text.isBlank segment = true → segment = blank := by decide
  have hclean : OneBlank Bench.machine s raw := hiff.2 fun segment hmem hblank =>
    honly segment hmem hblank ▸ (Line.words_eq_nil_iff_isBlank.1 hnone).2
  obtain ⟨result, hresult⟩ :=
    (hworded "\r".toList "\r".toList [] (by decide) (by decide)).2.2 (start s Bench.plain) (by decide)
  have hfound : result = .error .commandNotFound := by
    have hnow : Ran.outcome? Bench.machine ⟨"\r".toList, start s Bench.plain⟩ =
        some ("\r".toList, .error .commandNotFound) := by decide +kernel
    exact (Prod.mk.inj (Option.some.inj (hresult.symm.trans hnow))).2
  exact ⟨hclean, mayGive_accept_iff.2 (by decide), by decide, hnone,
    (hwordless blank hnone).2 _, hfound ▸ hresult⟩

/-- Behind the operator of a line that ends in a carriage return, the return is looked for as a program and
not found; as a line by itself it is blank and nothing is run. -/
theorem not_oneBlank_of_carriage_return :
    let m := Bench.machine
    let s := Session.start "sh".toList {} (.ofPairs [("PATH".toList, "/bin".toList)])
    let result := fun script : Text => work isLeaving m (.ofBytes (Utf8.encode script)) (start s Bench.plain)
    Text.isBlank "\r".toList = true ∧ Line.words "\r".toList = ["\r".toList] ∧
      ¬ OneBlank m s "true;\r".toList ∧ ¬ OneBlank m s "\r".toList ∧
      (result "true;\r\n".toList).session.lastStatus = 127 ∧
      (result "true;\r\n".toList).journal.reports =
        [Utf8.encode "sh: 1: \r: command not found\n".toList] ∧
      (result "\r\n".toList).session.lastStatus = 0 ∧ (result "\r\n".toList).journal.reports = [] := by
  intro m s result
  have hwords : Line.words "\r".toList = ["\r".toList] := by decide
  refine ⟨by decide, hwords, fun h => ?_, fun h => ?_, by decide +kernel, by decide +kernel,
    by decide +kernel, by decide +kernel⟩
  · have hgiven : (s.accept "true;\r".toList).cursor.MayGive "\r".toList :=
      mayGive_accept_iff.2 (by decide)
    have hnone := (h.words _ hgiven).1 (by decide)
    rw [hwords] at hnone
    exact List.cons_ne_nil _ _ hnone
  · have hnone := (h.line (by decide)).1 fun segment hgiven =>
      absurd (mayGive_accept_iff.1 hgiven).1 (by decide)
    exact absurd hnone (by decide)

end Shell

end LineShell
