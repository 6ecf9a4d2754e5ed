import LineShell.Line.Word

/-!
# The words of a text

* `words_eq_nil_iff` : a text without words is one of delimiters;
* `mem_words` : a word is not empty, and no character in it is a delimiter;
* `IsRun a word b` : between `a` and `b` a word stands that goes on into neither; `IsRun.words_append` : it is a
  word of the whole text, and `exists_run_of_words` : there are no others;
* `Layout` : a way to join words with gaps; `exists_layout` : each text is one, and `words_joined` : its words
  are those that were joined.

`words_runs` : the words of a text are its runs, however it is laid out.
-/

namespace LineShell.Line

variable {c : Char} {t word : Text}

theorem words_cons_of_isDelimiter (h : isDelimiter c = true) (t : Text) : words (c :: t) = words t := by
  simpa using words_append_delimiter h [] t

/-- A text of which the first character is no delimiter has a first word. -/
theorem words_cons_ne_nil (h : isDelimiter c = false) (t : Text) : words (c :: t) ≠ [] := by
  obtain ⟨piece, pieces, hpieces⟩ := List.exists_cons_of_ne_nil (List.splitOnP_ne_nil isDelimiter t)
  unfold words
  rw [List.splitOnP_cons_eq_if_modifyHead, h, hpieces]
  simp

theorem words_eq_nil_iff : words t = [] ↔ ∀ c ∈ t, isDelimiter c = true := by
  induction t with
  | nil => simp
  | cons c t ih =>
    rw [List.forall_mem_cons]
    cases hc : isDelimiter c with
    | true =>
      rw [words_cons_of_isDelimiter hc, ih]
      simp
    | false => exact iff_of_false (words_cons_ne_nil hc t) (by simp)

theorem mem_splitOnP {piece : Text} (h : piece ∈ t.splitOnP isDelimiter) :
    ∀ c ∈ piece, c ∈ t ∧ isDelimiter c = false := by
  induction t generalizing piece with
  | nil =>
    obtain rfl : piece = [] := by simpa using h
    exact List.forall_mem_nil _
  | cons d t ih =>
    obtain ⟨first, rest, hpieces⟩ := List.exists_cons_of_ne_nil (List.splitOnP_ne_nil isDelimiter t)
    have hmem : ∀ piece ∈ first :: rest, ∀ c ∈ piece, c ∈ d :: t ∧ isDelimiter c = false :=
      fun piece hp c hc => (ih (hpieces ▸ hp) c hc).imp_left (List.mem_cons_of_mem d)
    rw [List.splitOnP_cons_eq_if_modifyHead, hpieces] at h
    cases hd : isDelimiter d with
    | true =>
      rw [if_pos hd, List.mem_cons] at h
      obtain rfl | h := h
      · exact List.forall_mem_nil _
      · exact hmem piece h
    | false =>
      rw [if_neg (by simp [hd]), List.modifyHead_cons, List.mem_cons] at h
      obtain rfl | h := h
      · exact List.forall_mem_cons.2 ⟨⟨List.mem_cons_self, hd⟩, hmem first List.mem_cons_self⟩
      · exact hmem piece (List.mem_cons_of_mem first h)

theorem mem_words (h : word ∈ words t) : word ≠ [] ∧ ∀ c ∈ word, c ∈ t ∧ isDelimiter c = false := by
  obtain ⟨hpiece, hne⟩ := List.mem_filter.1 h
  exact ⟨by simpa using hne, mem_splitOnP hpiece⟩

/-! ## Runs -/

/-- Nothing but delimiters. -/
def IsGap (t : Text) : Prop := ∀ c ∈ t, isDelimiter c = true

/-- At least one character, and no delimiter. -/
def IsWord (t : Text) : Prop := t ≠ [] ∧ ∀ c ∈ t, isDelimiter c = false

-- by the characters of the text, and not by all characters that there are
instance : DecidablePred IsGap := fun t => List.decidableBAll (isDelimiter · = true) t

instance : DecidablePred IsWord := fun t =>
  have := List.decidableBAll (isDelimiter · = false) t
  inferInstanceAs (Decidable (t ≠ [] ∧ _))

/-- A word that goes on neither into the text `a` in front of it nor into the text `b` behind it. -/
structure IsRun (a word b : Text) : Prop where
  isWord : IsWord word
  left : ∀ c ∈ a.getLast?, isDelimiter c = true
  right : ∀ c ∈ b.head?, isDelimiter c = true

theorem IsGap.words_eq_nil (h : IsGap t) : words t = [] := words_eq_nil_iff.2 h

theorem IsWord.words_eq (h : IsWord t) : words t = [t] := by
  unfold words
  rw [List.splitOnP_eq_singleton h.2]
  simp [h.1]

theorem IsWord.not_isDelimiter_head? (h : IsWord t) (u : Text) :
    ¬ ∀ c ∈ (t ++ u).head?, isDelimiter c = true := by
  obtain ⟨c, t, rfl⟩ := List.exists_cons_of_ne_nil h.1
  intro hd
  exact Bool.false_ne_true ((h.2 c List.mem_cons_self).symm.trans (hd c rfl))

/-- A text has the words of its two parts if it is cut behind a delimiter. -/
theorem words_append_of_getLast? {a : Text} (h : ∀ c ∈ a.getLast?, isDelimiter c = true) (b : Text) :
    words (a ++ b) = words a ++ words b := by
  obtain rfl | ⟨a, d, rfl⟩ := List.eq_nil_or_concat a
  · rfl
  · rw [List.concat_eq_append] at h ⊢
    have hd : isDelimiter d = true := h d (by simp)
    have hends : words (a ++ [d]) = words a ++ words [] := words_append_delimiter hd a []
    rw [List.append_assoc, List.singleton_append, words_append_delimiter hd, hends, words_nil,
      List.append_nil]

theorem words_append_of_head? {b : Text} (h : ∀ c ∈ b.head?, isDelimiter c = true) (a : Text) :
    words (a ++ b) = words a ++ words b := by
  cases b with
  | nil => simp
  | cons d b =>
    have hd : isDelimiter d = true := h d rfl
    rw [words_append_delimiter hd, words_cons_of_isDelimiter hd]

theorem IsRun.words_append {a b : Text} (h : IsRun a word b) :
    words (a ++ word ++ b) = words a ++ word :: words b := by
  rw [words_append_of_head? h.right, words_append_of_getLast? h.left, h.isWord.words_eq,
    List.append_assoc, List.singleton_append]

theorem IsGap.getLast? (h : IsGap t) : ∀ c ∈ t.getLast?, isDelimiter c = true :=
  fun c hc => h c (List.mem_of_getLast? hc)

/-- A text is a gap, or begins with one and goes on with its first word. -/
theorem words_cases (t : Text) : IsGap t ∨
    ∃ lead word rest, t = lead ++ word ++ rest ∧ IsGap lead ∧ IsRun lead word rest := by
  have hlead : IsGap (t.takeWhile isDelimiter) := fun c hc => List.all_eq_true.1 List.all_takeWhile c hc
  have ht : t.takeWhile isDelimiter ++ t.dropWhile isDelimiter = t := List.takeWhile_append_dropWhile
  cases hbehind : t.dropWhile isDelimiter with
  | nil =>
    rw [hbehind, List.append_nil] at ht
    exact .inl (ht ▸ hlead)
  | cons c u =>
    have hc : isDelimiter c = false := by
      have hhead := List.head?_dropWhile_not isDelimiter t
      rw [hbehind] at hhead
      simpa using hhead
    refine .inr ⟨_, (c :: u).takeWhile (!isDelimiter ·), (c :: u).dropWhile (!isDelimiter ·), ?_, hlead,
      ⟨?_, fun d hd => ?_⟩, hlead.getLast?, fun d hd => ?_⟩
    · rw [List.append_assoc, List.takeWhile_append_dropWhile, ← hbehind, ht]
    · rw [List.takeWhile_cons_of_pos (by simpa using hc)]
      exact List.cons_ne_nil _ _
    · simpa using List.all_eq_true.1 List.all_takeWhile d hd
    · have hhead := List.head?_dropWhile_not (!isDelimiter ·) (c :: u)
      rw [Option.mem_def.1 hd] at hhead
      simpa using hhead

/-! ## Layouts -/

/-- Words, each in front of a gap, behind the gap `lead`. -/
def joined (lead : Text) : List (Text × Text) → Text
  | [] => lead
  | (word, gap) :: parts => lead ++ word ++ joined gap parts

/-- A way to join words: there is a gap in front of them all and one behind each of them. Only the first gap and
the last one may be empty. -/
structure Layout where
  lead : Text
  parts : List (Text × Text)
  isGap_lead : IsGap lead
  isWord : ∀ p ∈ parts, IsWord p.1
  isGap : ∀ p ∈ parts, IsGap p.2
  parted : ∀ p ∈ parts.dropLast, p.2 ≠ []

namespace Layout

def text (l : Layout) : Text := joined l.lead l.parts

/-- The words that are joined. -/
def listed (l : Layout) : List Text := l.parts.map Prod.fst

end Layout

theorem mem_dropLast_cons {α : Type} {x y : α} {xs : List α} (h : x ∈ xs.dropLast) : x ∈ (y :: xs).dropLast := by
  cases xs with
  | nil => exact absurd h List.not_mem_nil
  | cons z xs => exact List.mem_cons_of_mem y h

/-- What is joined behind a word begins with a delimiter, if there is anything. -/
theorem head?_joined {gap : Text} {parts : List (Text × Text)} (hgap : IsGap gap)
    (hparted : gap = [] → parts = []) : ∀ c ∈ (joined gap parts).head?, isDelimiter c = true := by
  intro c hc
  cases gap with
  | nil =>
    rw [hparted rfl] at hc
    cases hc
  | cons d gap =>
    obtain rfl : d = c := by
      cases parts with
      | nil => exact Option.some.inj hc
      | cons p parts => exact Option.some.inj hc
    exact hgap d List.mem_cons_self

theorem words_joined {lead : Text} {parts : List (Text × Text)} (hlead : IsGap lead)
    (hword : ∀ p ∈ parts, IsWord p.1) (hgap : ∀ p ∈ parts, IsGap p.2) (hparted : ∀ p ∈ parts.dropLast, p.2 ≠ []) :
    words (joined lead parts) = parts.map Prod.fst := by
  induction parts generalizing lead with
  | nil => exact hlead.words_eq_nil
  | cons p parts ih =>
    obtain ⟨word, gap⟩ := p
    obtain ⟨hword, hwords⟩ := List.forall_mem_cons.1 hword
    obtain ⟨hgap, hgaps⟩ := List.forall_mem_cons.1 hgap
    have hlast : gap = [] → parts = [] := by
      intro hnone
      cases parts with
      | nil => rfl
      | cons q parts => exact absurd hnone (hparted (word, gap) List.mem_cons_self)
    have hrun : IsRun lead word (joined gap parts) := ⟨hword, hlead.getLast?, head?_joined hgap hlast⟩
    have hrest := ih hgap hwords hgaps fun q hq => hparted q (mem_dropLast_cons hq)
    rw [joined, hrun.words_append, hlead.words_eq_nil, hrest]
    rfl

/-- The characters of joined words that are no delimiters are those of the words. -/
theorem filter_joined {lead : Text} {parts : List (Text × Text)} (hlead : IsGap lead)
    (hword : ∀ p ∈ parts, IsWord p.1) (hgap : ∀ p ∈ parts, IsGap p.2) :
    (joined lead parts).filter (!isDelimiter ·) = (parts.map Prod.fst).flatten := by
  have hnone : lead.filter (!isDelimiter ·) = [] := List.filter_eq_nil_iff.2 fun c hc => by simp [hlead c hc]
  induction parts generalizing lead with
  | nil => exact hnone
  | cons p parts ih =>
    obtain ⟨word, gap⟩ := p
    obtain ⟨hword, hwords⟩ := List.forall_mem_cons.1 hword
    obtain ⟨hgap, hgaps⟩ := List.forall_mem_cons.1 hgap
    have hall : word.filter (!isDelimiter ·) = word := List.filter_eq_self.2 fun c hc => by simp [hword.2 c hc]
    have hnext : gap.filter (!isDelimiter ·) = [] := List.filter_eq_nil_iff.2 fun c hc => by simp [hgap c hc]
    rw [joined, List.filter_append, List.filter_append, hnone, hall, ih hgap hwords hgaps hnext]
    rfl

theorem exists_layout (t : Text) : ∃ l : Layout, l.text = t := by
  obtain hgap | ⟨lead, word, rest, rfl, hlead, hrun⟩ := words_cases t
  · exact ⟨⟨t, [], hgap, by simp, by simp, by simp⟩, rfl⟩
  · have hshorter : rest.length < (lead ++ word ++ rest).length := by
      have hpos := List.length_pos_iff.2 hrun.isWord.1
      simp only [List.length_append]
      omega
    obtain ⟨⟨gap, parts, hgap, hwords, hgaps, hparted⟩, rfl⟩ := exists_layout rest
    refine ⟨⟨lead, (word, gap) :: parts, hlead, List.forall_mem_cons.2 ⟨hrun.isWord, hwords⟩,
      List.forall_mem_cons.2 ⟨hgap, hgaps⟩, ?_⟩, rfl⟩
    cases parts with
    | nil => exact List.forall_mem_nil _
    | cons next parts =>
      refine List.forall_mem_cons.2 ⟨?_, hparted⟩
      -- without a gap this word would go on with the next one
      rintro rfl
      exact (hwords next List.mem_cons_self).not_isDelimiter_head? _ hrun.right
termination_by t.length

/-- The words of a text are listed by its layouts, and by no others. -/
theorem words_eq_iff {ws : List Text} : words t = ws ↔ ∃ l : Layout, l.text = t ∧ l.listed = ws := by
  constructor
  · rintro rfl
    obtain ⟨l, rfl⟩ := exists_layout t
    exact ⟨l, rfl, (words_joined l.isGap_lead l.isWord l.isGap l.parted).symm⟩
  · rintro ⟨l, rfl, rfl⟩
    exact words_joined l.isGap_lead l.isWord l.isGap l.parted

/-- A word of a text is a run of it, which stands behind the words of what is in front of it. -/
theorem exists_run_of_words {front back : List Text} (h : words t = front ++ word :: back) :
    ∃ a b, t = a ++ word ++ b ∧ IsRun a word b ∧ words a = front ∧ words b = back := by
  induction front generalizing t with
  | nil =>
    obtain hgap | ⟨lead, first, rest, rfl, hlead, hrun⟩ := words_cases t
    · simp [hgap.words_eq_nil] at h
    · rw [hrun.words_append, hlead.words_eq_nil] at h
      obtain ⟨rfl, rfl⟩ := List.cons.inj h
      exact ⟨lead, rest, rfl, hrun, hlead.words_eq_nil, rfl⟩
  | cons first front ih =>
    obtain hgap | ⟨lead, first', rest, rfl, hlead, hrun⟩ := words_cases t
    · simp [hgap.words_eq_nil] at h
    · rw [hrun.words_append, hlead.words_eq_nil] at h
      obtain ⟨rfl, hrest⟩ := List.cons.inj h
      obtain ⟨a, b, rfl, hword, rfl, rfl⟩ := ih hrest
      -- a delimiter stands behind the first word, so there is something in front of this one
      have hne : a ≠ [] := by
        rintro rfl
        exact hword.isWord.not_isDelimiter_head? b hrun.right
      have hfirst : IsRun lead first' a := ⟨hrun.isWord, hrun.left, fun c hc => hrun.right c (by
        rw [List.append_assoc, List.head?_append, Option.mem_def.1 hc]
        rfl)⟩
      refine ⟨lead ++ first' ++ a, b, by simp, ⟨hword.isWord, fun c hc => hword.left c ?_, hword.right⟩, ?_, rfl⟩
      · rw [List.getLast?_append, List.getLast?_eq_some_getLast hne] at hc
        rwa [List.getLast?_eq_some_getLast hne]
      · rw [hfirst.words_append, hlead.words_eq_nil]
        rfl

/-- The words of a text are its maximal runs of characters other than space, tab and newline, each in its place:
a run is a word behind those of the text in front of it. Words are listed as they are laid out, whatever the gaps
between them, and each text is such a layout; its other characters are those of the words, in order. Cut at a
delimiter, a text has the words of its two parts. -/
theorem words_runs (t : Text) :
    (∀ ws, words t = ws ↔ ∃ l : Layout, l.text = t ∧ l.listed = ws) ∧
    (∀ front word back, words t = front ++ word :: back ↔
      ∃ a b, t = a ++ word ++ b ∧ IsRun a word b ∧ words a = front ∧ words b = back) ∧
    (∀ word ∈ words t, IsWord word) ∧ (words t).flatten = t.filter (!isDelimiter ·) ∧
    (∀ c, isDelimiter c = true ↔ c = ' ' ∨ c = '\t' ∨ c = '\n') ∧
    ∀ a d b, isDelimiter d = true → words (a ++ d :: b) = words a ++ words b := by
  refine ⟨fun ws => words_eq_iff, fun front word back => ⟨exists_run_of_words, ?_⟩, fun word hword => ?_, ?_,
    fun c => by simp [isDelimiter, or_assoc], fun a d b hd => words_append_delimiter hd a b⟩
  · rintro ⟨a, b, rfl, hrun, rfl, rfl⟩
    exact hrun.words_append
  · exact (mem_words hword).imp_right fun h c hc => (h c hc).2
  · obtain ⟨l, rfl, hwords⟩ := words_eq_iff.1 (show words t = _ from rfl)
    rw [← hwords]
    exact (filter_joined l.isGap_lead l.isWord l.isGap).symm

/-- A carriage return is a character of a word, also between a word and the newline behind it. -/
theorem words_runs_of_carriage_return :
    let l : Layout := ⟨['\t', ' '], [("ls".toList, [' ', '\t']), ("-l\r".toList, ['\n'])], by decide, by decide,
      by decide, by decide⟩
    l.text = "\t ls \t-l\r\n".toList ∧ words l.text = ["ls".toList, "-l\r".toList] ∧
      isDelimiter '\t' = true ∧
      words l.text = words "\t ls ".toList ++ words "-l\r\n".toList := by
  intro l
  obtain ⟨hlayouts, -, -, -, -, hcut⟩ := words_runs l.text
  exact ⟨by decide, (hlayouts _).2 ⟨l, rfl, rfl⟩, by decide, hcut "\t ls ".toList '\t' "-l\r\n".toList (by decide)⟩

end LineShell.Line
