import LineShell.Proofs.Text.Utf8
import LineShell.Session

/-!
# Comments

Where a comment starts is a matter of characters: at a `#` that is the first one or directly follows a space. It
can be found among the octets of a line as well.

* `OpensComment a` : a `#` behind the text `a` starts a comment; `IsPlain t` : none starts in `t`;
* `prefix_stripComment_iff` : what is left of a line is the longest front of it that is plain;
* `stripComment_append` : what a comment says makes no difference;
* `commentPlace` : where a line is cut, looked for octet by octet; by `front?_commentPlace` what is in front of it
  are whole characters.

`stripComment_longest` : all of this, and what becomes of a session.
-/

namespace LineShell.Line

variable {t p : Text}

/-- A `#` behind this text starts a comment. -/
def OpensComment (a : Text) : Prop := a = [] ∨ a.getLast? = some ' '

/-- No comment starts in this text. -/
def IsPlain (t : Text) : Prop := ∀ a b, t = a ++ '#' :: b → ¬ OpensComment a

instance : DecidablePred OpensComment := fun _ => inferInstanceAs (Decidable (_ ∨ _))

/-! ## What is left of a line -/

theorem opensComment_concat (a : Text) (c : Char) : OpensComment (a ++ [c]) ↔ c = ' ' := by
  simp [OpensComment]

/-- Behind the text `front`, no comment starts at a character if it is no `#` or `front` opens none, and none behind
it if that is plain behind both. -/
theorem plain_cons_iff (front : Text) (c : Char) (t : Text) :
    (∀ a b, c :: t = a ++ '#' :: b → ¬ OpensComment (front ++ a)) ↔
      ¬ (c = '#' ∧ OpensComment front) ∧ ∀ a b, t = a ++ '#' :: b → ¬ OpensComment (front ++ [c] ++ a) := by
  constructor
  · intro h
    refine ⟨?_, fun a b ht => ?_⟩
    · rintro ⟨rfl, hfront⟩
      exact h [] t rfl (by rwa [List.append_nil])
    · rw [List.append_assoc]
      exact h (c :: a) b (congrArg (c :: ·) ht)
  · rintro ⟨hc, ht⟩ a b h
    cases a with
    | nil =>
      obtain ⟨rfl, -⟩ := List.cons.inj h
      rw [List.append_nil]
      exact fun hfront => hc ⟨rfl, hfront⟩
    | cons d a =>
      obtain ⟨rfl, hbehind⟩ := List.cons.inj h
      have hrest := ht a b hbehind
      rwa [List.append_assoc] at hrest

theorem prefix_stripCommentFrom_iff (front : Text) :
    p <+: stripCommentFrom [] (decide (OpensComment front)) t ↔
      p <+: t ∧ ∀ a b, p = a ++ '#' :: b → ¬ OpensComment (front ++ a) := by
  induction t generalizing front p with
  | nil =>
    constructor
    · intro h
      obtain rfl := List.prefix_nil.1 h
      exact ⟨h, by simp⟩
    · exact fun h => h.1
  | cons c t ih =>
    cases p with
    | nil => simp
    | cons d p =>
      have hfresh : (c == ' ') = decide (OpensComment (front ++ [c])) := by
        rw [Bool.eq_iff_iff]
        simp [opensComment_concat]
      rw [stripCommentFrom_cons, hfresh, List.cons_prefix_cons, plain_cons_iff]
      by_cases hc : c = '#' ∧ OpensComment front
      · rw [if_pos (by simpa using hc)]
        constructor
        · intro h
          simp at h
        · rintro ⟨⟨rfl, -⟩, hnot, -⟩
          exact absurd hc hnot
      · rw [if_neg (by simpa using hc), List.cons_prefix_cons, ih]
        constructor
        · rintro ⟨rfl, hp, hplain⟩
          exact ⟨⟨rfl, hp⟩, hc, hplain⟩
        · rintro ⟨⟨rfl, hp⟩, -, hplain⟩
          exact ⟨rfl, hp, hplain⟩

theorem prefix_stripComment_iff : p <+: stripComment t ↔ p <+: t ∧ IsPlain p :=
  prefix_stripCommentFrom_iff []

theorem isPrefix_stripComment (t : Text) : stripComment t <+: t := (prefix_stripComment_iff.1 List.prefix_rfl).1

theorem isPlain_stripComment (t : Text) : IsPlain (stripComment t) := (prefix_stripComment_iff.1 List.prefix_rfl).2

theorem stripComment_of_isPlain (h : IsPlain t) : stripComment t = t :=
  (isPrefix_stripComment t).eq_of_length_le (prefix_stripComment_iff.2 ⟨List.prefix_rfl, h⟩).length_le

theorem stripComment_eq_self_iff : stripComment t = t ↔ IsPlain t :=
  ⟨fun h => h ▸ isPlain_stripComment t, stripComment_of_isPlain⟩

instance : DecidablePred IsPlain := fun _ => decidable_of_iff _ stripComment_eq_self_iff

/-- What a comment says is not part of what is left. -/
theorem stripComment_append (h : OpensComment p) (comment : Text) :
    stripComment (p ++ '#' :: comment) = stripComment p := by
  have hfront : ∀ q, IsPlain q → (q <+: p ++ '#' :: comment ↔ q <+: p) := by
    intro q hq
    refine ⟨?_, fun hp => hp.trans (List.prefix_append ..)⟩
    rintro ⟨rest, hrest⟩
    obtain ⟨z, rfl, -⟩ | ⟨z, rfl, hz⟩ := List.append_eq_append_iff.1 hrest
    · exact List.prefix_append q z
    · cases z with
      | nil => simp
      | cons c z =>
        obtain ⟨rfl, -⟩ := List.cons.inj hz
        exact absurd h (hq p z rfl)
  have hsame : ∀ q, q <+: stripComment (p ++ '#' :: comment) ↔ q <+: stripComment p := by
    intro q
    rw [prefix_stripComment_iff, prefix_stripComment_iff]
    exact and_congr_left (hfront q)
  have hle := ((hsame _).2 List.prefix_rfl).length_le
  exact ((hsame _).1 List.prefix_rfl).eq_of_length_le hle

theorem isPlain_concat {c : Char} (h : IsPlain t) (hc : ¬ (c = '#' ∧ OpensComment t)) : IsPlain (t ++ [c]) := by
  intro a b ht
  obtain rfl | ⟨b, d, rfl⟩ := List.eq_nil_or_concat b
  · obtain ⟨rfl, hd⟩ := List.append_inj' ht rfl
    exact fun ha => hc ⟨List.cons.inj hd |>.1, ha⟩
  · rw [List.concat_eq_append, ← List.cons_append, ← List.append_assoc] at ht
    exact h a b (List.append_inj' ht rfl).1

/-- A line is cut where its first comment starts, or not at all. -/
theorem eq_or_append_stripComment (t : Text) :
    stripComment t = t ∨ ∃ comment, t = stripComment t ++ '#' :: comment ∧ OpensComment (stripComment t) := by
  obtain ⟨rest, ht⟩ := isPrefix_stripComment t
  cases rest with
  | nil => exact .inl (by rwa [List.append_nil] at ht)
  | cons c rest =>
    by_cases hc : c = '#' ∧ OpensComment (stripComment t)
    · obtain ⟨rfl, hopens⟩ := hc
      exact .inr ⟨rest, ht.symm, hopens⟩
    · -- one more character would be plain as well
      have hlonger : stripComment t ++ [c] <+: stripComment t := prefix_stripComment_iff.2
        ⟨⟨rest, by rw [List.append_assoc, List.singleton_append, ht]⟩, isPlain_concat (isPlain_stripComment t) hc⟩
      have hlen := hlonger.length_le
      rw [List.length_append, List.length_singleton] at hlen
      omega

/-! ## The cut among the octets -/

/-- Whether a comment starts at a place of some octets: with a `#`, in first place or right behind a space. -/
def opensCommentAt (bs : Bytes) (i : Nat) : Bool :=
  bs[i]? == some '#'.toNat.toUInt8 && (i == 0 || bs[i - 1]? == some ' '.toNat.toUInt8)

/-- The first place at which a comment starts; the end of the octets if there is none. -/
def commentPlace (bs : Bytes) : Nat := ((List.range bs.length).find? (opensCommentAt bs)).getD bs.length

theorem opensCommentAt_iff {bs : Bytes} {i : Nat} : opensCommentAt bs i = true ↔
    ∃ x y, bs = x ++ '#'.toNat.toUInt8 :: y ∧ x.length = i ∧
      (x = [] ∨ x.getLast? = some ' '.toNat.toUInt8) := by
  rw [opensCommentAt, Bool.and_eq_true, beq_iff_eq, Bool.or_eq_true, beq_iff_eq, beq_iff_eq]
  constructor
  · rintro ⟨hi, hfront⟩
    obtain ⟨hlt, hi⟩ := List.getElem?_eq_some_iff.1 hi
    have hlen : (bs.take i).length = i := List.length_take_of_le (Nat.le_of_lt hlt)
    refine ⟨bs.take i, bs.drop (i + 1), ?_, hlen, ?_⟩
    · rw [← hi, ← List.drop_eq_getElem_cons, List.take_append_drop]
    · by_cases h0 : i = 0
      · exact .inl (by rw [h0, List.take_zero])
      · have hspace := hfront.resolve_left h0
        exact .inr (by rw [List.getLast?_eq_getElem?, hlen, List.getElem?_take_of_lt (by omega), hspace])
  · rintro ⟨x, y, rfl, rfl, hx⟩
    refine ⟨by rw [List.getElem?_append_right (Nat.le_refl _), Nat.sub_self]; rfl, ?_⟩
    refine hx.imp List.length_eq_zero_iff.2 fun h => ?_
    have hpos : 0 < x.length := List.length_pos_iff.2 (by rintro rfl; simp at h)
    rw [List.getElem?_append_left (by omega), ← List.getLast?_eq_getElem?, h]

theorem getLast?_encode_iff : (Utf8.encode t = [] ∨ (Utf8.encode t).getLast? = some ' '.toNat.toUInt8) ↔
    OpensComment t := by
  refine or_congr Utf8.encode_eq_nil_iff ⟨fun h => ?_, fun h => ?_⟩
  · obtain ⟨x, hx⟩ := List.getLast?_eq_some_iff.1 h
    obtain ⟨a, b, rfl, -, hb⟩ := Utf8.of_encode_eq_append (by decide) hx
    obtain rfl := Utf8.encode_eq_nil_iff.1 hb
    simp
  · obtain ⟨a, rfl⟩ := List.getLast?_eq_some_iff.1 h
    rw [Utf8.encode_append]
    exact List.getLast?_concat ..

theorem opensCommentAt_encode_iff {i : Nat} : opensCommentAt (Utf8.encode t) i = true ↔
    ∃ a b, t = a ++ '#' :: b ∧ (Utf8.encode a).length = i ∧ OpensComment a := by
  rw [opensCommentAt_iff]
  constructor
  · rintro ⟨x, y, ht, hlen, hx⟩
    obtain ⟨a, b, rfl, rfl, -⟩ := Utf8.of_encode_eq_append (by decide) ht
    exact ⟨a, b, rfl, hlen, getLast?_encode_iff.1 hx⟩
  · rintro ⟨a, b, rfl, hlen, ha⟩
    refine ⟨Utf8.encode a, Utf8.encode b, ?_, hlen, getLast?_encode_iff.2 ha⟩
    rw [Utf8.encode_append, Utf8.encode_cons, Utf8.encodeChar_of_ascii (by decide), List.singleton_append]

/-- No comment starts among the octets in front of the cut. -/
theorem opensCommentAt_of_lt {i : Nat} (hi : i < (Utf8.encode (stripComment t)).length) :
    opensCommentAt (Utf8.encode t) i = false := by
  refine Bool.eq_false_iff.2 fun h => ?_
  obtain ⟨a, b, ht, rfl, ha⟩ := opensCommentAt_encode_iff.1 h
  have hlt : a.length < (stripComment t).length := by
    refine Nat.lt_of_not_le fun hle => ?_
    have hfront : stripComment t <+: a :=
      List.prefix_of_prefix_length_le (isPrefix_stripComment t) ⟨_, ht.symm⟩ hle
    obtain ⟨z, hz⟩ := hfront
    rw [← hz, Utf8.encode_append, List.length_append] at hi
    omega
  have hthere : a ++ ['#'] <+: t := ⟨b, by rw [ht, List.append_assoc, List.singleton_append]⟩
  have hopen : a ++ ['#'] <+: stripComment t :=
    List.prefix_of_prefix_length_le hthere (isPrefix_stripComment t)
      (by rw [List.length_append, List.length_singleton]; omega)
  obtain ⟨z, hz⟩ := hopen
  exact isPlain_stripComment t a z (by rw [← hz, List.append_assoc, List.singleton_append]) ha

theorem commentPlace_encode (t : Text) :
    commentPlace (Utf8.encode t) = (Utf8.encode (stripComment t)).length := by
  unfold commentPlace
  obtain hs | ⟨comment, ht, hopens⟩ := eq_or_append_stripComment t
  · have hnone : (List.range (Utf8.encode t).length).find? (opensCommentAt (Utf8.encode t)) = none := by
      refine List.find?_eq_none.2 fun i hi => ?_
      rw [opensCommentAt_of_lt (hs.symm ▸ List.mem_range.1 hi)]
      exact Bool.false_ne_true
    rw [hnone, hs]
    rfl
  · have hfirst : (List.range (Utf8.encode t).length).find? (opensCommentAt (Utf8.encode t)) =
        some (Utf8.encode (stripComment t)).length := by
      refine List.find?_range_eq_some.2 ⟨opensCommentAt_encode_iff.2 ⟨_, comment, ht, rfl, hopens⟩, ?_, ?_⟩
      · have hlen := congrArg (fun t => (Utf8.encode t).length) ht
        have hpos := List.length_pos_iff.2 (mt Utf8.encode_eq_nil_iff.1 (List.cons_ne_nil '#' comment))
        simp only [Utf8.encode_append, List.length_append] at hlen
        rw [List.mem_range]
        omega
      · intro i hi
        rw [opensCommentAt_of_lt hi]
        rfl
    rw [hfirst]
    rfl

theorem front?_commentPlace (t : Text) : Utf8.front? (commentPlace (Utf8.encode t)) t = some (stripComment t) := by
  obtain ⟨rest, ht⟩ := isPrefix_stripComment t
  have hfront := Utf8.front?_append (stripComment t) rest
  rwa [ht, ← commentPlace_encode] at hfront

/-! ## Lines with a comment -/

/-- A session takes a line as if nothing stood behind the `#` of its comment. -/
theorem accept_append (s : Session) (h : OpensComment p) (comment : Text) :
    s.accept (p ++ '#' :: comment) = s.accept p := by
  unfold Session.accept
  rw [stripComment_append h]

/-- What is left of a line is the longest front of it in which no comment starts. It is what the first comment found
among the octets cuts off, whole characters always, and has nothing more to cut off. A session that accepts a line
with a comment does not depend on what the comment says. -/
theorem stripComment_longest (t : Text) :
    (stripComment t <+: t ∧ IsPlain (stripComment t) ∧ ∀ p, p <+: t → IsPlain p → p <+: stripComment t) ∧
      Utf8.front? (commentPlace (Utf8.encode t)) t = some (stripComment t) ∧
      stripComment (stripComment t) = stripComment t ∧
      ∀ (s : Session) (p comment₁ comment₂ : Text), OpensComment p →
        s.accept (p ++ '#' :: comment₁) = s.accept (p ++ '#' :: comment₂) := by
  refine ⟨⟨isPrefix_stripComment t, isPlain_stripComment t, ?_⟩, front?_commentPlace t, ?_, ?_⟩
  · exact fun p hp hplain => prefix_stripComment_iff.2 ⟨hp, hplain⟩
  · exact stripComment_of_isPlain (isPlain_stripComment t)
  · intro s p comment₁ comment₂ hp
    rw [accept_append s hp, accept_append s hp]

/-- A `#` right behind a letter stays, whether the letter has one octet or more, and the first one behind a space
cuts the line, here at the sixth octet and the fifth character. -/
theorem stripComment_longest_of_wide_letter :
    let t := "é# x #é # y".toList
    stripComment t = "é# x ".toList ∧ commentPlace (Utf8.encode t) = 6 ∧
      Utf8.front? 6 t = some "é# x ".toList ∧ Utf8.front? 1 t = none ∧
      "é# x".toList <+: stripComment t ∧
      ∀ s : Session, s.accept t = s.accept "é# x #".toList := by
  intro t
  obtain ⟨⟨-, -, hlongest⟩, hfront, -, haccept⟩ := stripComment_longest t
  have hplace : commentPlace (Utf8.encode t) = 6 := by decide
  refine ⟨by decide, hplace, ?_, by decide, hlongest _ (by decide) (by decide), fun s => ?_⟩
  · rw [← hplace, hfront]
    decide
  · exact haccept s "é# x ".toList "é # y".toList [] (by decide)

end LineShell.Line
