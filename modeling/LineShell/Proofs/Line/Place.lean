import LineShell.Proofs.Line.Operators

/-!
# Places in a line

A cursor kept as a place in the whole line: it is found by going through the characters one by one, and
a segment is a slice from one place to another.

* `Place.next?` : the next segment, unless a slice goes beyond the text; `Place.run?` : for some statuses
  one after the other;
* `Place.cursor` : what is left of the line; by `Place.run?_eq` a place gives what its cursor gives, and
  no slice goes beyond the text.

`cuts_load` : the segments that are given of a line, and what becomes of the rest.
-/

namespace LineShell.Line

/-- The operator that `c`, in front of `d`, is the first character of, and its width. -/
def operatorAt? (c : Char) (d : Option Char) : Option (Link × Nat) :=
  match c, d with
  | '&', some '&' => some (.and, 2)
  | '|', some '|' => some (.or, 2)
  | ';', _ => some (.sequence, 1)
  | _, _ => none

/-- Where the leftmost operator of a text that starts at place `i` stands, with its link and its width;
the end of the text if there is none. -/
def seek (i : Nat) : Text → Nat × Option (Link × Nat)
  | [] => (i, none)
  | c :: t =>
    match operatorAt? c t.head? with
    | some found => (i, some found)
    | none => seek (i + 1) t

/-- The characters of a text from place `i` to place `j`; none if there are no such places. -/
def slice? (t : Text) (i j : Nat) : Option Text :=
  if i ≤ j ∧ j ≤ t.length then some ((t.take j).drop i) else none

theorem operatorAt?_eq (c : Char) (t : Text) :
    operatorAt? c t.head? = (operator? (c :: t)).map fun found => (found.1, found.1.text.length) := by
  cases ho : operator? (c :: t) with
  | some found =>
    obtain ⟨hl, ht⟩ := operator?_eq_some_iff.1 (show _ = some (found.1, found.2) from ho)
    rcases found with ⟨l, rest⟩
    cases l with
    | first => exact absurd rfl hl
    | sequence =>
      obtain ⟨rfl, rfl⟩ := List.cons.inj ht
      rfl
    | and =>
      obtain ⟨rfl, rfl⟩ := List.cons.inj ht
      rfl
    | or =>
      obtain ⟨rfl, rfl⟩ := List.cons.inj ht
      rfl
  | none =>
    rw [Option.map_none]
    unfold operatorAt?
    split
    · next hd =>
      obtain ⟨t', rfl⟩ := List.head?_eq_some_iff.1 hd
      cases ho
    · next hd =>
      obtain ⟨t', rfl⟩ := List.head?_eq_some_iff.1 hd
      cases ho
    · cases ho
    · rfl

/-- Going through the characters finds the place where the text is cut. -/
theorem seek_eq (i : Nat) (t : Text) :
    seek i t = (i + (cut t).1.length, (cut t).2.map fun found => (found.1, found.1.text.length)) := by
  induction t generalizing i with
  | nil => rfl
  | cons c t ih =>
    rw [seek, operatorAt?_eq, cut_cons]
    cases operator? (c :: t) with
    | some found => rfl
    | none =>
      rw [Option.map_none]
      dsimp only
      rw [ih, List.length_cons, Nat.add_right_comm, Nat.add_assoc]

theorem slice?_eq_some {t front segment behind : Text} (h : t = front ++ (segment ++ behind)) :
    slice? t front.length (front.length + segment.length) = some segment := by
  have hlen : t.length = front.length + (segment.length + behind.length) := by
    rw [h, List.length_append, List.length_append]
  unfold slice?
  rw [if_pos ⟨by omega, by omega⟩, h, List.take_length_add_append, List.take_left, List.drop_left]

/-- A line, the place in it that the next segment starts at, how that one is joined, and whether there is
one. -/
structure Place where
  input : Text
  pos : Nat
  link : Link
  isPending : Bool
  deriving DecidableEq, Repr

namespace Place

/-- A new line, whatever was there before. -/
def load (line : Text) (_ : Place) : Place := ⟨line, 0, .first, !Text.isBlank line⟩

/-- The rest of the line is dropped. -/
def discard (p : Place) : Place := ⟨p.input, p.input.length, .first, false⟩

/-- The next segment, if the gate in front of it admits the status `s`, and the place behind it; nothing
at all if the segment is no slice of the line. -/
def next? (s : Status) (p : Place) : Option (Option Text × Place) :=
  if p.isPending = false then some (none, p)
  else if p.link.admits s = false then some (none, p.discard)
  else
    match seek p.pos (p.input.drop p.pos) with
    | (stop, some (l, width)) =>
      (slice? p.input p.pos stop).map (some ·, ⟨p.input, stop + width, l, true⟩)
    | (stop, none) =>
      (slice? p.input p.pos p.input.length).map (some ·, ⟨p.input, stop, .first, false⟩)

/-- The segments that are given for some statuses one after the other, each with the link recorded behind
it, and the place behind them; nothing at all if one of them is no slice of the line. -/
def run? : List Status → Place → Option (List (Text × Link) × Place)
  | [], p => some ([], p)
  | s :: ss, p => do
    let (segment, q) ← p.next? s
    let (parts, last) ← run? ss q
    return ((segment.map (·, q.link)).toList ++ parts, last)

/-- What is left of the line. -/
def cursor (p : Place) : Cursor :=
  if p.isPending then .pending p.link (p.input.drop p.pos) else .exhausted

/-- The place is in the line, and nothing is recorded when there is no segment left. -/
structure Sound (p : Place) : Prop where
  pos_le : p.pos ≤ p.input.length
  link : p.isPending = false → p.link = .first

theorem sound_load (line : Text) (p : Place) : (p.load line).Sound := ⟨Nat.zero_le _, fun _ => rfl⟩

theorem sound_discard (p : Place) : p.discard.Sound := ⟨Nat.le_refl _, fun _ => rfl⟩

theorem cursor_load (line : Text) (p : Place) : (p.load line).cursor = .load line := by
  unfold cursor load Cursor.load
  cases Text.isBlank line <;> rfl

theorem cursor_of_isPending {p : Place} (h : p.isPending = true) :
    p.cursor = .pending p.link (p.input.drop p.pos) := if_pos h

theorem cursor_of_not_isPending {p : Place} (h : p.isPending = false) : p.cursor = .exhausted :=
  if_neg (Bool.eq_false_iff.1 h)

theorem cursor_eq_exhausted_iff {p : Place} : p.cursor = .exhausted ↔ p.isPending = false := by
  refine ⟨fun h => ?_, cursor_of_not_isPending⟩
  cases hp : p.isPending with
  | false => rfl
  | true =>
    rw [cursor_of_isPending hp] at h
    cases h

theorem Sound.link_cursor {p : Place} (h : p.Sound) : p.cursor.link = p.link := by
  cases hp : p.isPending with
  | false => rw [cursor_of_not_isPending hp, h.link hp, Cursor.link]
  | true => rw [cursor_of_isPending hp, Cursor.link]

/-- A place in the line gives what its cursor gives, and stays in the line. -/
theorem next?_eq {p : Place} (h : p.Sound) (s : Status) :
    ∃ q, p.next? s = some ((p.cursor.next s).1, q) ∧ q.cursor = (p.cursor.next s).2 ∧ q.Sound ∧
      q.input = p.input := by
  cases hp : p.isPending with
  | false =>
    refine ⟨p, ?_, ?_, h, rfl⟩
    · rw [next?, if_pos hp, cursor_of_not_isPending hp, Cursor.next]
    · rw [cursor_of_not_isPending hp, Cursor.next]
  | true =>
    rw [cursor_of_isPending hp]
    unfold next?
    rw [if_neg (by rw [hp]; exact Bool.noConfusion)]
    cases ha : p.link.admits s with
    | false =>
      refine ⟨p.discard, ?_, ?_, sound_discard p, rfl⟩
      · simp only [Cursor.next, ha, if_true, Bool.false_eq_true, if_false]
      · simp only [Cursor.next, ha, Bool.false_eq_true, if_false]
        exact cursor_of_not_isPending rfl
    | true =>
      -- the line is what lies in front of the place, the segment, and what the cut leaves
      have hline : p.input = p.input.take p.pos ++ p.input.drop p.pos := (List.take_append_drop ..).symm
      have hfront : (p.input.take p.pos).length = p.pos := List.length_take_of_le h.pos_le
      rw [seek_eq]
      obtain ⟨segment, hcut, hlead⟩ | ⟨segment, l, rest, hcut, hl, hlead⟩ :=
        leads_cut (p.input.drop p.pos)
      · have hend : p.pos + segment.length = p.input.length := by
          have hlen := congrArg List.length hlead.text
          rw [List.length_drop, List.append_nil] at hlen
          have := h.pos_le
          simp only [Link.text, List.append_nil] at hlen
          omega
        have hslice : slice? p.input p.pos p.input.length = some segment := by
          have := slice?_eq_some (hline.trans (congrArg (p.input.take p.pos ++ ·) hlead.text))
          rwa [hfront, hend] at this
        refine ⟨⟨p.input, p.input.length, .first, false⟩, ?_, ?_, ⟨Nat.le_refl _, fun _ => rfl⟩, rfl⟩
        · simp only [Cursor.next, ha, hcut, hslice, hend, Option.map_none, Option.map_some, if_true]
          rfl
        · simp only [Cursor.next, ha, hcut, if_true]
          rfl
      · have hslice : slice? p.input p.pos (p.pos + segment.length) = some segment := by
          have := slice?_eq_some (hline.trans (congrArg (p.input.take p.pos ++ ·) hlead.text))
          rwa [hfront] at this
        have hrest : p.input.drop (p.pos + segment.length + l.text.length) = rest := by
          rw [Nat.add_assoc, ← List.drop_drop, hlead.text, ← List.append_assoc, ← List.length_append,
            List.drop_left]
        have hle : p.pos + segment.length + l.text.length ≤ p.input.length := by
          have hlen := congrArg List.length hlead.text
          rw [List.length_drop, List.length_append, List.length_append] at hlen
          have := h.pos_le
          omega
        refine ⟨⟨p.input, p.pos + segment.length + l.text.length, l, true⟩, ?_, ?_,
          ⟨hle, fun hf => Bool.noConfusion hf⟩, rfl⟩
        · simp only [Cursor.next, ha, hcut, hslice, Option.map_some, if_true]
          rfl
        · simp only [Cursor.next, ha, hcut, if_true]
          rw [← hrest]
          rfl

theorem run?_eq {p : Place} (h : p.Sound) (ss : List Status) :
    ∃ q, p.run? ss = some ((p.cursor.run ss).1, q) ∧ q.cursor = (p.cursor.run ss).2 ∧ q.Sound ∧
      q.input = p.input := by
  induction ss generalizing p with
  | nil => exact ⟨p, rfl, rfl, h, rfl⟩
  | cons s ss ih =>
    obtain ⟨q, hnext, hcursor, hq, hinput⟩ := next?_eq h s
    obtain ⟨r, hrun, hlast, hr, hinput'⟩ := ih hq
    refine ⟨r, ?_, ?_, hr, hinput'.trans hinput⟩
    · rw [run?, hnext]
      simp only [Option.bind_eq_bind, Option.bind_some, hrun]
      rw [Cursor.run, ← hcursor, hq.link_cursor]
      rfl
    · rw [hlast, hcursor]
      rfl

/-! ## The segments of a line -/

/-- Asked with these statuses, a place comes to a gate that does not admit the one it is asked with then;
these are the parts in front of the gate, and the place there. -/
def Stops (ss : List Status) (p : Place) (parts : List (Text × Link)) (q : Place) : Prop :=
  ∃ front s behind, ss = front ++ s :: behind ∧ p.run? front = some (parts, q) ∧ q.isPending = true ∧
    q.link.admits s = false

theorem Stops.cursor {ss : List Status} {p q : Place} {parts : List (Text × Link)} (hp : p.Sound)
    (h : p.Stops ss parts q) : p.cursor.Stops ss parts q.cursor ∧ q.input = p.input := by
  obtain ⟨front, s, behind, hss, hrun, hq, ha⟩ := h
  obtain ⟨q', hrun', hcursor, -, hinput⟩ := run?_eq hp front
  obtain ⟨rfl, rfl⟩ := Prod.mk.inj (Option.some.inj (hrun.symm.trans hrun'))
  refine ⟨⟨front, s, behind, hss, Prod.ext rfl hcursor.symm, ?_, ?_⟩, hinput⟩
  · rw [cursor_of_isPending hq]
    exact Cursor.noConfusion
  · rw [cursor_of_isPending hq]
    exact ha

theorem stops_of_cursor {ss : List Status} {p : Place} {parts : List (Text × Link)} {c : Cursor}
    (hp : p.Sound) (h : p.cursor.Stops ss parts c) : ∃ q, p.Stops ss parts q := by
  obtain ⟨front, s, behind, hss, hrun, hc, ha⟩ := h
  obtain ⟨q, hrun', hcursor, hq, -⟩ := run?_eq hp front
  rw [hrun] at hrun' hcursor
  dsimp only at hrun' hcursor
  refine ⟨q, front, s, behind, hss, hrun', ?_, ?_⟩
  · cases hpending : q.isPending with
    | true => rfl
    | false =>
      rw [cursor_of_not_isPending hpending] at hcursor
      exact absurd hcursor.symm hc
  · rw [← hq.link_cursor, hcursor]
    exact ha

theorem rest_cursor {p : Place} (h : p.isPending = true) : p.cursor.rest = p.input.drop p.pos := by
  rw [cursor_of_isPending h, Cursor.rest]

theorem run?_of_not_isPending {p : Place} (h : p.isPending = false) (ss : List Status) :
    p.run? ss = some ([], p) := by
  induction ss with
  | nil => rfl
  | cons s ss ih =>
    have hnext : p.next? s = some (none, p) := if_pos h
    rw [run?, hnext]
    simp only [Option.bind_eq_bind, Option.bind_some, ih]
    rfl

/-- A place that gives no segment has none left. -/
theorem done_of_next?_eq_none {p q : Place} {s : Status} (hp : p.Sound)
    (h : p.next? s = some (none, q)) : q.isPending = false ∧ q.link = .first := by
  obtain ⟨q', hnext, hcursor, hq, -⟩ := next?_eq hp s
  obtain ⟨hnone, rfl⟩ := Prod.mk.inj (Option.some.inj (hnext.symm.trans h))
  have hdone : q'.isPending = false := by
    rw [← cursor_eq_exhausted_iff, hcursor]
    exact Cursor.next_eq_none hnone
  exact ⟨hdone, hq.link hdone⟩

/-- A line that is not blank is loaded, whatever was there before, and asked for its segments with some
statuses. No slice goes beyond the line, the cursor gives the same, and the place stays in the line. No
segment holds an operator; the first one is given whatever its status, and there are no more of them
than operators and one. As long as no gate fails they are cut off from the line, each at the leftmost
operator, and they spell it in the end; when a gate fails they spell the line up to its operator. Behind
the last segment nothing is given any more. -/
theorem cuts_load (line : Text) (hline : Text.isBlank line = false) (prior : Place)
    (ss : List Status) :
    ∃ parts p, (prior.load line).run? ss = some (parts, p) ∧
      (Cursor.load line).run ss = (parts, p.cursor) ∧ p.input = line ∧ p.pos ≤ line.length ∧
      (∀ part ∈ parts, ∀ o : Link, o ≠ .first → ¬ o.text <:+: part.1) ∧
      (ss ≠ [] → parts ≠ []) ∧ parts.map (·.1) <+: pieces line ∧
      parts.length ≤ operatorCount line + 1 ∧
      ((∀ parts' q, ¬ (prior.load line).Stops ss parts' q) →
        (p.isPending = true → Cuts line parts (line.drop p.pos)) ∧
        (p.isPending = false → Cuts line parts [] ∧ spell parts = line)) ∧
      (∀ parts' q, (prior.load line).Stops ss parts' q →
        p.isPending = false ∧ parts' = parts ∧ Cuts line parts (line.drop q.pos) ∧
        spell parts ++ line.drop q.pos = line ∧ parts.getLast?.map (·.2) = some q.link) ∧
      ∀ s q, p.next? s = some (none, q) →
        q.isPending = false ∧ q.link = .first ∧ ∀ ss', q.run? ss' = some ([], q) := by
  have hload : (prior.load line).Sound := sound_load line prior
  have hcursor : (prior.load line).cursor = .pending .first line := by
    rw [cursor_load, Cursor.load, if_neg (Bool.eq_false_iff.1 hline)]
  obtain ⟨p, hrun, hp, hsound, hinput⟩ := run?_eq hload ss
  have hcuts := Cursor.cuts_run ss (prior.load line).cursor
  rw [← cursor_load line prior]
  generalize hr : (prior.load line).cursor.run ss = r at hrun hp hcuts
  obtain ⟨parts, c⟩ := r
  obtain rfl : p.cursor = c := hp
  replace hinput : p.input = line := hinput
  rw [hcursor] at hcuts
  -- whether or not a gate fails, the parts are cut off from the line
  obtain ⟨rest, hcut⟩ : ∃ rest, Cuts line parts rest := by
    obtain hcut | ⟨c, -, hcut, -⟩ := hcuts
    · exact ⟨_, hcut⟩
    · exact ⟨_, hcut⟩
  refine ⟨parts, p, hrun, rfl, hinput, ?_, fun part hpart o ho => hcut.not_infix ho part hpart,
    fun hss => ?_, hcut.prefix_pieces, ?_, fun hnever => ?_, fun parts' q hstops => ?_,
    fun s q hnone => ?_⟩
  · rw [← hinput]
    exact hsound.pos_le
  · obtain ⟨s, ss, rfl⟩ := List.exists_cons_of_ne_nil hss
    obtain ⟨segment, c, hnext⟩ := Cursor.next_pending_first s line
    rw [hcursor, Cursor.run_cons_of_some ss hnext] at hr
    rw [← (Prod.mk.inj hr).1]
    exact List.cons_ne_nil _ _
  · rw [← length_pieces, ← List.length_map (·.1)]
    exact hcut.prefix_pieces.length_le
  · obtain hcut | ⟨c, hstops, -⟩ := hcuts
    · refine ⟨fun hpending => ?_, fun hdone => ?_⟩
      · rwa [rest_cursor hpending, hinput] at hcut
      · rw [cursor_of_not_isPending hdone] at hcut
        exact ⟨hcut, (hcut.text.trans (List.append_nil _)).symm⟩
    · rw [← hcursor] at hstops
      obtain ⟨q, hq⟩ := stops_of_cursor hload hstops
      exact absurd hq (hnever parts q)
  · obtain ⟨hstop, hq⟩ := hstops.cursor hload
    obtain ⟨rfl, hdone⟩ := Prod.mk.inj (hr.symm.trans hstop.run_eq)
    obtain ⟨-, -, -, -, -, hpending, -⟩ := hstops
    have hcut := hstop.cuts
    have hlast := hstop.getLast? (by rw [hcursor, Cursor.link])
    rw [hcursor, rest_cursor hpending, hq] at hcut
    rw [cursor_of_isPending hpending] at hlast
    exact ⟨cursor_eq_exhausted_iff.1 hdone, rfl, hcut, hcut.text.symm, hlast⟩
  · obtain ⟨hq, hlink⟩ := done_of_next?_eq_none hsound hnone
    exact ⟨hq, hlink, run?_of_not_isPending hq⟩

/-- A lone `&` is part of its segment; the gate of `||` fails, and the line is spelled up to it. -/
theorem cuts_load_of_failing_gate :
    let line := "a&b && c||;d|".toList
    let prior : Place := ⟨"x".toList, 9, .or, true⟩
    let parts := [("a&b ".toList, Link.and), (" c".toList, Link.or)]
    Text.isBlank line = false ∧ operatorCount line = 3 ∧
      ∃ p, (prior.load line).run? [7, 0, 0, 1] = some (parts, p) ∧ p.isPending = false ∧
        p.pos ≤ line.length ∧ Cuts line parts ";d|".toList ∧
        spell parts ++ ";d|".toList = line := by
  intro line prior parts
  have hline : Text.isBlank line = false := by decide
  obtain ⟨parts', p, hrun, -, -, hpos, -, -, -, -, -, hstops, -⟩ := cuts_load line hline prior [7, 0, 0, 1]
  obtain ⟨hdone, rfl, hcuts, hspell, -⟩ := hstops parts ⟨line, 10, .or, true⟩
    ⟨[7, 0], 0, [1], rfl, by decide, rfl, by decide⟩
  exact ⟨hline, by decide, p, hrun, hdone, hpos, hcuts, hspell⟩

end Place

end LineShell.Line
