import LineShell.Proofs.Line.Segments

/-!
# Operators

* `Link.text` : the characters of an operator; `operator?_eq_some_iff` : `operator?` finds these;
* `Leads t segment l rest` : `t` is `segment`, then its leftmost operator, which is that of `l`, then
  `rest`; by `Leads.unique` in one way only;
* `leads_cut` : a cut is made at the leftmost operator; `Leads.not_infix` : none is left in the segment;
* `Cuts t parts rest` : segments are cut off from `t` like this until `rest` is left;
* `pieces` : all segments of a text; `Cuts.prefix_pieces` : the first of them are cut off;
* `Cursor.run` : what a cursor gives for some statuses; by `Cursor.cuts_run` it cuts until a gate fails.
-/

namespace LineShell.Line

def Link.text : Link → Text
  | first => []
  | sequence => [';']
  | and => ['&', '&']
  | or => ['|', '|']

theorem operator?_text_append {l : Link} (hl : l ≠ .first) (rest : Text) :
    operator? (l.text ++ rest) = some (l, rest) := by
  cases l with
  | first => exact absurd rfl hl
  | sequence => rfl
  | and => rfl
  | or => rfl

theorem operator?_eq_some_iff {t rest : Text} {l : Link} :
    operator? t = some (l, rest) ↔ l ≠ .first ∧ t = l.text ++ rest := by
  constructor
  · intro h
    unfold operator? at h
    split at h
    · obtain ⟨rfl, rfl⟩ := Prod.mk.inj (Option.some.inj h)
      exact ⟨nofun, rfl⟩
    · obtain ⟨rfl, rfl⟩ := Prod.mk.inj (Option.some.inj h)
      exact ⟨nofun, rfl⟩
    · obtain ⟨rfl, rfl⟩ := Prod.mk.inj (Option.some.inj h)
      exact ⟨nofun, rfl⟩
    · cases h
  · rintro ⟨hl, rfl⟩
    exact operator?_text_append hl rest

theorem operator?_eq_none_iff {t : Text} :
    operator? t = none ↔ ∀ l : Link, l ≠ .first → ¬ l.text <+: t := by
  constructor
  · rintro h l hl ⟨rest, rfl⟩
    rw [operator?_text_append hl] at h
    cases h
  · intro h
    cases ho : operator? t with
    | none => rfl
    | some found =>
      obtain ⟨hl, rfl⟩ := operator?_eq_some_iff.1 (show operator? t = some (found.1, found.2) from ho)
      exact absurd (List.prefix_append ..) (h found.1 hl)

/-- A text is `segment`, then its leftmost operator, which is that of `l`, then `rest`; or no operator
starts in it anywhere, and it is `segment` alone. -/
structure Leads (t segment : Text) (l : Link) (rest : Text) : Prop where
  text : t = segment ++ (l.text ++ rest)
  leftmost : ∀ i < segment.length, ∀ o : Link, o ≠ .first → ¬ o.text <+: t.drop i
  last : l = .first → rest = []

theorem Leads.nil {t rest : Text} {l : Link} (h : operator? t = some (l, rest)) : Leads t [] l rest := by
  obtain ⟨hl, ht⟩ := operator?_eq_some_iff.1 h
  exact ⟨ht, fun i hi => absurd hi (Nat.not_lt_zero i), fun hf => absurd hf hl⟩

theorem Leads.cons {c : Char} {t segment rest : Text} {l : Link} (hc : operator? (c :: t) = none)
    (h : Leads t segment l rest) : Leads (c :: t) (c :: segment) l rest := by
  refine ⟨congrArg (c :: ·) h.text, fun i hi o ho => ?_, h.last⟩
  cases i with
  | zero => exact operator?_eq_none_iff.1 hc o ho
  | succ i => exact h.leftmost i (Nat.lt_of_succ_lt_succ hi) o ho

/-- An operator inside of a segment would be further left than the one behind it. -/
theorem Leads.not_infix {t segment rest : Text} {l : Link} (h : Leads t segment l rest) {o : Link}
    (ho : o ≠ .first) : ¬ o.text <:+: segment := by
  rintro ⟨front, behind, hs⟩
  have hlen : front.length < segment.length := by
    have htext : 0 < o.text.length := by
      cases o with
      | first => exact absurd rfl ho
      | sequence => exact Nat.one_pos
      | and => exact Nat.two_pos
      | or => exact Nat.two_pos
    rw [← hs, List.length_append, List.length_append]
    omega
  refine h.leftmost front.length hlen o ho ⟨behind ++ (l.text ++ rest), ?_⟩
  rw [h.text, ← hs, List.append_assoc, List.append_assoc, List.drop_left]

/-- Where a text is cut: at its leftmost operator, or not at all. -/
theorem leads_cut (t : Text) :
    (∃ segment, cut t = (segment, none) ∧ Leads t segment .first []) ∨
    ∃ segment l rest, cut t = (segment, some (l, rest)) ∧ l ≠ .first ∧ Leads t segment l rest := by
  induction t with
  | nil => exact .inl ⟨[], rfl, rfl, fun i hi => absurd hi (Nat.not_lt_zero i), fun _ => rfl⟩
  | cons c t ih =>
    rw [cut_cons]
    cases ho : operator? (c :: t) with
    | some found =>
      obtain ⟨l, rest⟩ := found
      exact .inr ⟨[], l, rest, rfl, (operator?_eq_some_iff.1 ho).1, .nil ho⟩
    | none =>
      obtain ⟨segment, hcut, hlead⟩ | ⟨segment, l, rest, hcut, hl, hlead⟩ := ih
      · rw [hcut]
        exact .inl ⟨c :: segment, rfl, hlead.cons ho⟩
      · rw [hcut]
        exact .inr ⟨c :: segment, l, rest, rfl, hl, hlead.cons ho⟩

/-- There is only one way to find the leftmost operator. -/
theorem Leads.unique {t segment segment' rest rest' : Text} {l l' : Link} (h : Leads t segment l rest)
    (h' : Leads t segment' l' rest') : segment' = segment ∧ l' = l ∧ rest' = rest := by
  -- the operator behind the shorter segment would start inside of the longer one
  have hle : ∀ {s s' r r' : Text} {o o' : Link}, Leads t s o r → Leads t s' o' r' →
      s'.length ≤ s.length := by
    intro s s' r r' o o' hs hs'
    refine Nat.le_of_not_lt fun hlt => ?_
    by_cases ho : o = .first
    · have hlen := congrArg List.length (hs.text.symm.trans hs'.text)
      rw [hs.last ho, ho] at hlen
      simp only [List.length_append, Link.text, List.length_nil] at hlen
      omega
    · refine hs'.leftmost s.length hlt o ho ⟨r, ?_⟩
      rw [hs.text, List.drop_left]
  have hlen : segment'.length = segment.length := Nat.le_antisymm (hle h h') (hle h' h)
  obtain ⟨hsegment, hbehind⟩ := List.append_inj (h'.text.symm.trans h.text) hlen
  refine ⟨hsegment, ?_⟩
  by_cases hl : l = .first
  · rw [hl, h.last hl] at hbehind ⊢
    obtain ⟨htext, hrest⟩ := List.append_eq_nil_iff.1 hbehind
    refine ⟨?_, hrest⟩
    cases l' with
    | first => rfl
    | _ => cases htext
  · have hop : operator? (l'.text ++ rest') = some (l, rest) := by
      rw [hbehind, operator?_text_append hl]
    by_cases hl' : l' = .first
    · rw [hl', h'.last hl'] at hop
      cases hop
    · rw [operator?_text_append hl'] at hop
      exact Prod.mk.inj (Option.some.inj hop)

/-! ## All segments -/

/-- All segments of a text. -/
def pieces (t : Text) : List Text := (segments t).1 :: (segments t).2.map (·.2)

/-- How many operators a text holds, none of which overlap. -/
def operatorCount (t : Text) : Nat := (segments t).2.length

theorem length_pieces (t : Text) : (pieces t).length = operatorCount t + 1 := by
  rw [pieces, List.length_cons, List.length_map, operatorCount]

theorem Leads.pieces_eq {t segment rest : Text} {l : Link} (h : Leads t segment l rest) :
    pieces t = segment :: if l = .first then [] else pieces rest := by
  obtain ⟨segment', hcut, hlead⟩ | ⟨segment', l', rest', hcut, hl, hlead⟩ := leads_cut t
  · obtain ⟨rfl, rfl, rfl⟩ := hlead.unique h
    rw [pieces, segments_of_cut_none hcut, if_pos rfl]
    rfl
  · obtain ⟨rfl, rfl, rfl⟩ := hlead.unique h
    rw [pieces, segments_of_cut_some hcut, if_neg hl]
    rfl

/-- Parts, each a segment and the link behind it, are cut off from a text one after the other, each at
the leftmost operator of what is left then, until `rest` is left. A part behind which there is no
operator is the last one. -/
inductive Cuts : Text → List (Text × Link) → Text → Prop
  | nil (t : Text) : Cuts t [] t
  | cons {t segment behind rest : Text} {l : Link} {parts : List (Text × Link)}
      (lead : Leads t segment l behind) (last : l = .first → parts = [])
      (tail : Cuts behind parts rest) : Cuts t ((segment, l) :: parts) rest

/-- Parts written one after the other, each with its operator. -/
def spell (parts : List (Text × Link)) : Text := parts.flatMap fun p => p.1 ++ p.2.text

/-- Nothing is lost and nothing added. -/
theorem Cuts.text {t rest : Text} {parts : List (Text × Link)} (h : Cuts t parts rest) :
    t = spell parts ++ rest := by
  induction h with
  | nil t => rfl
  | @cons t segment behind rest l parts lead _ _ ih =>
    have hspell : spell ((segment, l) :: parts) = segment ++ l.text ++ spell parts := rfl
    rw [lead.text, ih, hspell, List.append_assoc, List.append_assoc]

theorem Cuts.not_infix {t rest : Text} {parts : List (Text × Link)} (h : Cuts t parts rest) {o : Link}
    (ho : o ≠ .first) : ∀ p ∈ parts, ¬ o.text <:+: p.1 := by
  induction h with
  | nil t => exact List.forall_mem_nil _
  | cons lead _ _ ih => exact List.forall_mem_cons.2 ⟨lead.not_infix ho, ih⟩

theorem Cuts.prefix_pieces {t rest : Text} {parts : List (Text × Link)} (h : Cuts t parts rest) :
    parts.map (·.1) <+: pieces t := by
  induction h with
  | nil t => exact List.nil_prefix
  | @cons t segment behind rest l parts lead last _ ih =>
    rw [lead.pieces_eq, List.map_cons, List.cons_prefix_cons]
    refine ⟨rfl, ?_⟩
    split
    · next hl =>
      rw [last hl]
      exact List.nil_prefix
    · exact ih

/-! ## What a cursor gives -/

namespace Cursor

/-- What is still to be cut. -/
def rest : Cursor → Text
  | exhausted => []
  | pending _ rest => rest

/-- The segments that a cursor gives for some statuses one after the other, each with the link recorded
behind it, and the cursor behind them. -/
def run : List Status → Cursor → List (Text × Link) × Cursor
  | [], c => ([], c)
  | s :: ss, c =>
    let r := c.next s
    let behind := run ss r.2
    ((r.1.map (·, r.2.link)).toList ++ behind.1, behind.2)

/-- A cursor has nothing to give, or the gate fails, or the segment in front of the leftmost operator is
given. -/
theorem next_cases (s : Status) (c : Cursor) :
    (c = exhausted ∧ c.next s = (none, exhausted)) ∨
    (c ≠ exhausted ∧ c.link.admits s = false ∧ c.next s = (none, exhausted)) ∨
    ∃ segment c', c.next s = (some segment, c') ∧ Leads c.rest segment c'.link c'.rest ∧
      (c'.link = .first → c' = exhausted) := by
  cases c with
  | exhausted => exact .inl ⟨rfl, rfl⟩
  | pending l rest =>
    refine .inr ?_
    cases ha : l.admits s with
    | false => exact .inl ⟨nofun, ha, if_neg (Bool.eq_false_iff.1 ha)⟩
    | true =>
      refine .inr ?_
      obtain ⟨segment, hcut, hlead⟩ | ⟨segment, l', rest', hcut, hl, hlead⟩ := leads_cut rest
      · refine ⟨segment, exhausted, ?_, hlead, fun _ => rfl⟩
        simp only [next, ha, hcut, if_true]
      · refine ⟨segment, pending l' rest', ?_, hlead, fun hf => absurd hf hl⟩
        simp only [next, ha, hcut, if_true]

/-- The first segment of a line is given whatever the status. -/
theorem next_pending_first (s : Status) (t : Text) :
    ∃ segment c, (pending .first t).next s = (some segment, c) := by
  obtain ⟨h, -⟩ | ⟨-, ha, -⟩ | ⟨segment, c, hn, -⟩ := next_cases s (pending .first t)
  · cases h
  · cases ha
  · exact ⟨segment, c, hn⟩

/-- What a cursor may still give. -/
def pieces : Cursor → List Text
  | exhausted => []
  | pending _ rest => Line.pieces rest

theorem pieces_of_next {s : Status} {c c' : Cursor} {segment : Text} (h : c.next s = (some segment, c')) :
    c.pieces = segment :: c'.pieces := by
  obtain ⟨-, hn⟩ | ⟨-, -, hn⟩ | ⟨segment', c'', hn, hlead, hfirst⟩ := next_cases s c
  · rw [hn] at h
    cases h
  · rw [hn] at h
    cases h
  · rw [hn] at h
    obtain ⟨rfl, rfl⟩ : segment' = segment ∧ c'' = c' := by simpa using h
    have hpieces := hlead.pieces_eq
    cases c with
    | exhausted => cases hn
    | pending l rest =>
      rw [pieces, show Line.pieces rest = _ from hpieces]
      cases c'' with
      | exhausted => rfl
      | pending l' rest' =>
        have hne : l' ≠ .first := by
          intro hl
          cases hfirst hl
        exact congrArg (segment' :: ·) (if_neg hne)

@[simp] theorem run_exhausted (ss : List Status) : exhausted.run ss = ([], exhausted) := by
  induction ss with
  | nil => rfl
  | cons s ss ih => simp only [run, next, ih, Option.map_none, Option.toList_none, List.nil_append]

theorem run_cons_of_none {s : Status} {c : Cursor} (ss : List Status)
    (h : c.next s = (none, exhausted)) : c.run (s :: ss) = ([], exhausted) := by
  simp only [run, h, run_exhausted, Option.map_none, Option.toList_none, List.nil_append]

theorem run_cons_of_some {s : Status} {c c' : Cursor} {segment : Text} (ss : List Status)
    (h : c.next s = (some segment, c')) :
    c.run (s :: ss) = ((segment, c'.link) :: (c'.run ss).1, (c'.run ss).2) := by
  simp only [run, h, Option.map_some, Option.toList_some, List.singleton_append]

/-- Asked with these statuses, the cursor comes to a gate that does not admit the one it is asked with
then; these are the parts in front of the gate, and the cursor there. -/
def Stops (ss : List Status) (c : Cursor) (parts : List (Text × Link)) (c' : Cursor) : Prop :=
  ∃ front s behind, ss = front ++ s :: behind ∧ c.run front = (parts, c') ∧ c' ≠ exhausted ∧
    c'.link.admits s = false

/-- Parts are cut off until the statuses come to an end, or else until a gate fails. -/
theorem cuts_run (ss : List Status) (c : Cursor) :
    Cuts c.rest (c.run ss).1 (c.run ss).2.rest ∨
      ∃ c', Stops ss c (c.run ss).1 c' ∧ Cuts c.rest (c.run ss).1 c'.rest ∧ (c.run ss).2 = exhausted := by
  induction ss generalizing c with
  | nil => exact .inl (.nil _)
  | cons s ss ih =>
    obtain ⟨rfl, -⟩ | ⟨hc, ha, hn⟩ | ⟨segment, c', hn, hlead, hlast⟩ := next_cases s c
    · rw [run_exhausted]
      exact .inl (.nil _)
    · rw [run_cons_of_none ss hn]
      exact .inr ⟨c, ⟨[], s, ss, rfl, rfl, hc, ha⟩, .nil _, rfl⟩
    · have hend : c'.link = .first → (c'.run ss).1 = [] := by
        intro hf
        rw [hlast hf, run_exhausted]
      rw [run_cons_of_some ss hn]
      obtain hcuts | ⟨c'', ⟨front, s', behind, rfl, hfront, hc'', ha⟩, hcuts, hdone⟩ := ih c'
      · exact .inl (.cons hlead hend hcuts)
      · refine .inr ⟨c'', ⟨s :: front, s', behind, rfl, ?_, hc'', ha⟩, .cons hlead hend hcuts, hdone⟩
        rw [run_cons_of_some front hn, hfront]

theorem run_append (ss ss' : List Status) (c : Cursor) :
    c.run (ss ++ ss') =
      ((c.run ss).1 ++ ((c.run ss).2.run ss').1, ((c.run ss).2.run ss').2) := by
  induction ss generalizing c with
  | nil => rfl
  | cons s ss ih => simp only [List.cons_append, run, ih, List.append_assoc]

/-- A gate that fails takes the rest of the line along. -/
theorem Stops.run_eq {ss : List Status} {c c' : Cursor} {parts : List (Text × Link)}
    (h : c.Stops ss parts c') : c.run ss = (parts, exhausted) := by
  obtain ⟨front, s, behind, rfl, hfront, hc, ha⟩ := h
  have hstop : c'.run (s :: behind) = ([], exhausted) := by
    cases c' with
    | exhausted => exact run_exhausted _
    | pending l rest => exact run_cons_of_none behind (if_neg (Bool.eq_false_iff.1 ha))
  rw [run_append, hfront]
  dsimp only
  rw [hstop, List.append_nil]

theorem Stops.cuts {ss : List Status} {c c' : Cursor} {parts : List (Text × Link)}
    (h : c.Stops ss parts c') : Cuts c.rest parts c'.rest := by
  obtain ⟨front, s, behind, -, hfront, hc, -⟩ := h
  obtain hcuts | ⟨-, -, -, hdone⟩ := cuts_run front c
  · rwa [hfront] at hcuts
  · rw [hfront] at hdone
    exact absurd hdone hc

/-- In front of what is left stands the operator of the last part. -/
theorem link_run {ss : List Status} {c c' : Cursor} {parts : List (Text × Link)}
    (h : c.run ss = (parts, c')) (hc : c' ≠ exhausted) :
    c'.link = (parts.getLast?.map (·.2)).getD c.link := by
  induction ss generalizing c parts with
  | nil =>
    obtain ⟨rfl, rfl⟩ := Prod.mk.inj h
    rfl
  | cons s ss ih =>
    have hnone : c.next s = (none, exhausted) → False := by
      intro hn
      rw [run_cons_of_none ss hn] at h
      exact hc (Prod.mk.inj h).2.symm
    obtain ⟨-, hn⟩ | ⟨-, -, hn⟩ | ⟨segment, c₁, hn, -⟩ := next_cases s c
    · exact (hnone hn).elim
    · exact (hnone hn).elim
    · rw [run_cons_of_some ss hn] at h
      obtain ⟨rfl, hrun⟩ := Prod.mk.inj h
      rw [ih (Prod.ext rfl hrun), List.getLast?_cons]
      cases (c₁.run ss).1.getLast? <;> rfl

/-- The gate that fails is that of the last part's operator. -/
theorem Stops.getLast? {ss : List Status} {c c' : Cursor} {parts : List (Text × Link)}
    (h : c.Stops ss parts c') (hc : c.link = .first) : parts.getLast?.map (·.2) = some c'.link := by
  obtain ⟨front, s, behind, -, hfront, hne, ha⟩ := h
  have hlink := link_run hfront hne
  cases hlast : parts.getLast?.map (·.2) with
  | some l =>
    rw [hlast, Option.getD_some] at hlink
    rw [hlink]
  | none =>
    rw [hlast, Option.getD_none, hc] at hlink
    rw [hlink] at ha
    cases ha

end Cursor

end LineShell.Line
