import LineShell.Text.Utf8

/-!
# Reading UTF-8 back

* `decode_encode` : the octets of a text are read as that text;
* `not_mem_decode` : where there is no newline octet no newline character is read;
* `not_mem_encode` : a text without an ASCII character does not have its octet; `of_encode_eq_append` : where the
  octet is, there is the character;
* `front?` : the characters that the first octets of a text are, if these are whole.
-/

namespace LineShell.Utf8

theorem toNat_toUInt8 {n : Nat} (h : n < 256) : n.toUInt8.toNat = n := by
  rw [Nat.toUInt8, UInt8.toNat_ofNat', Nat.mod_eq_of_lt h]

/-! ## Texts -/

theorem decodeFrom_cons (p : Option Partial) (b : UInt8) (bs : Bytes) :
    decodeFrom [] p (b :: bs) = (step p b.toNat).2 ++ decodeFrom [] (step p b.toNat).1 bs := by
  rw [decodeFrom, decodeFrom_eq_append]
  simp

theorem step_last {bits low high b : Nat} (hl : low ≤ b) (hh : b ≤ high) :
    step (some ⟨1, bits, low, high⟩) b = (none, [Char.ofNat (0x40 * bits + (b - 0x80))]) := by
  simp [step, hl, hh]

theorem step_more {needed bits low high b : Nat} (hl : low ≤ b) (hh : b ≤ high) :
    step (some ⟨needed + 2, bits, low, high⟩) b =
      (some ⟨needed + 1, 0x40 * bits + (b - 0x80), 0x80, 0xBF⟩, []) := by
  simp [step, hl, hh]

theorem first_two {k : Nat} (hk : 2 ≤ k) (hk' : k < 0x20) :
    first (0xC0 + k) = (some ⟨1, k, 0x80, 0xBF⟩, []) := by
  rw [first, if_neg (by omega), if_pos (by omega), Nat.add_sub_cancel_left]

/-- The first octet of three, and the range that it leaves for the second. -/
theorem first_three {k b : Nat} (hk : k < 0x10) (hb : 0x80 ≤ b) (hb' : b ≤ 0xBF)
    (hlow : k = 0 → 0xA0 ≤ b) (hhigh : k = 0xD → b ≤ 0x9F) :
    ∃ low high, first (0xE0 + k) = (some ⟨2, k, low, high⟩, []) ∧ low ≤ b ∧ b ≤ high := by
  rw [first, if_neg (by omega), if_neg (by omega)]
  by_cases h0 : k = 0
  · subst h0
    exact ⟨_, _, rfl, hlow rfl, hb'⟩
  · by_cases hd : k = 0xD
    · subst hd
      exact ⟨_, _, rfl, hb, hhigh rfl⟩
    · rw [if_neg (by omega), if_neg (by omega), if_pos (by omega), Nat.add_sub_cancel_left]
      exact ⟨_, _, rfl, hb, hb'⟩

theorem first_four {k b : Nat} (hk : k < 5) (hb : 0x80 ≤ b) (hb' : b ≤ 0xBF)
    (hlow : k = 0 → 0x90 ≤ b) (hhigh : k = 4 → b ≤ 0x8F) :
    ∃ low high, first (0xF0 + k) = (some ⟨3, k, low, high⟩, []) ∧ low ≤ b ∧ b ≤ high := by
  rw [first, if_neg (by omega), if_neg (by omega), if_neg (by omega), if_neg (by omega),
    if_neg (by omega)]
  by_cases h0 : k = 0
  · subst h0
    exact ⟨_, _, rfl, hlow rfl, hb'⟩
  · by_cases h4 : k = 4
    · subst h4
      exact ⟨_, _, rfl, hb, hhigh rfl⟩
    · rw [if_neg (by omega), if_neg (by omega), if_pos (by omega), Nat.add_sub_cancel_left]
      exact ⟨_, _, rfl, hb, hb'⟩

/-- The octets of a character are read as that character. -/
theorem decodeFrom_encodeChar (c : Char) (bs : Bytes) :
    decodeFrom [] none (encodeChar c ++ bs) = c :: decodeFrom [] none bs := by
  have hc : Char.ofNat c.toNat = c := Char.ofNat_toNat c
  have hvalid : c.toNat < 0xD800 ∨ 0xDFFF < c.toNat ∧ c.toNat < 0x110000 := c.valid
  unfold encodeChar
  generalize c.toNat = n at hc hvalid
  dsimp only
  -- one case for each number of octets; the machine takes them one by one
  by_cases h1 : n < 0x80
  · rw [if_pos h1, List.singleton_append, decodeFrom_cons, toNat_toUInt8 (by omega)]
    simp [step, first, h1, hc]
  rw [if_neg h1]
  by_cases h2 : n < 0x800
  · rw [if_pos h2, List.cons_append, List.singleton_append, decodeFrom_cons, decodeFrom_cons,
      toNat_toUInt8 (by omega), toNat_toUInt8 (by omega), step, first_two (by omega) (by omega)]
    dsimp only
    rw [step_last (by omega) (by omega), Nat.add_sub_cancel_left, Nat.div_add_mod, hc]
    rfl
  rw [if_neg h2]
  by_cases h3 : n < 0x10000
  · rw [if_pos h3]
    obtain ⟨low, high, hf, hl, hh⟩ := @first_three (n / 0x1000) (0x80 + n / 0x40 % 0x40)
      (by omega) (by omega) (by omega) (by omega) (by omega)
    simp only [List.cons_append, List.nil_append, decodeFrom_cons]
    rw [toNat_toUInt8 (by omega), toNat_toUInt8 (by omega), toNat_toUInt8 (by omega), step, hf]
    dsimp only
    rw [@step_more 0 _ _ _ _ hl hh]
    dsimp only
    rw [step_last (by omega) (by omega)]
    have hn : 0x40 * (0x40 * (n / 0x1000) + (0x80 + n / 0x40 % 0x40 - 0x80)) +
        (0x80 + n % 0x40 - 0x80) = n := by omega
    rw [hn, hc]
    rfl
  · rw [if_neg h3]
    obtain ⟨low, high, hf, hl, hh⟩ := @first_four (n / 0x40000) (0x80 + n / 0x1000 % 0x40)
      (by omega) (by omega) (by omega) (by omega) (by omega)
    simp only [List.cons_append, List.nil_append, decodeFrom_cons]
    rw [toNat_toUInt8 (by omega), toNat_toUInt8 (by omega), toNat_toUInt8 (by omega),
      toNat_toUInt8 (by omega), step, hf]
    dsimp only
    rw [@step_more 1 _ _ _ _ hl hh]
    dsimp only
    rw [@step_more 0 _ _ _ _ (by omega) (by omega)]
    dsimp only
    rw [step_last (by omega) (by omega)]
    have hn : 0x40 * (0x40 * (0x40 * (n / 0x40000) + (0x80 + n / 0x1000 % 0x40 - 0x80)) +
        (0x80 + n / 0x40 % 0x40 - 0x80)) + (0x80 + n % 0x40 - 0x80) = n := by omega
    rw [hn, hc]
    rfl

theorem decodeFrom_encode (t : Text) (bs : Bytes) :
    decodeFrom [] none (encode t ++ bs) = t ++ decodeFrom [] none bs := by
  induction t with
  | nil => rfl
  | cons c t ih =>
    rw [encode, List.flatMap_cons, List.append_assoc, decodeFrom_encodeChar]
    exact congrArg (c :: ·) ih

theorem decode_encode (t : Text) : decode (encode t) = t := by
  simpa [decode, decodeFrom, finish] using decodeFrom_encode t []

/-! ## Newlines -/

/-- What is under way is a character beyond the first 128. -/
def Partial.Wide (p : Partial) : Prop :=
  0x80 ≤ p.low ∧ 2 ≤ if p.needed = 1 then p.bits else 0x40 * p.bits + (p.low - 0x80)

theorem ofNat_ne_newline {n : Nat} (h : n ≠ 10) : Char.ofNat n ≠ '\n' := by
  by_cases hv : n.isValidChar
  · rw [Char.ofNat, dif_pos hv]
    exact fun hn => h (congrArg Char.toNat hn)
  · rw [Char.ofNat, dif_neg hv]
    decide

theorem first_wide {b : Nat} (hb : b ≠ 10) :
    (∀ p, (first b).1 = some p → p.Wide) ∧ '\n' ∉ (first b).2 := by
  unfold first Partial.Wide
  refine ⟨fun p hp => ?_, ?_⟩
  · repeat' split at hp
    all_goals first
      | simp at hp; done
      | (obtain rfl := Option.some.inj hp; simp; done)
      | (obtain rfl := Option.some.inj hp; simp; omega)
  · repeat' split
    all_goals first
      | simp; done
      | simpa using (ofNat_ne_newline hb).symm
      | decide

theorem step_wide {p : Option Partial} (hp : ∀ q, p = some q → q.Wide) {b : Nat} (hb : b ≠ 10) :
    (∀ q, (step p b).1 = some q → q.Wide) ∧ '\n' ∉ (step p b).2 := by
  cases p with
  | none => exact first_wide hb
  | some q =>
    obtain ⟨hlow, hbits⟩ := hp q rfl
    obtain ⟨hf, hf'⟩ := first_wide hb
    unfold step
    dsimp only
    by_cases hr : q.low ≤ b ∧ b ≤ q.high
    · rw [if_pos hr]
      by_cases hn : q.needed = 1
      · rw [if_pos hn] at hbits ⊢
        refine ⟨by simp, ?_⟩
        have hne : 0x40 * q.bits + (b - 0x80) ≠ 10 := by omega
        simpa using (ofNat_ne_newline hne).symm
      · rw [if_neg hn] at hbits ⊢
        refine ⟨fun r hr' => ?_, by simp⟩
        obtain rfl := Option.some.inj hr'
        refine ⟨Nat.le_refl _, ?_⟩
        dsimp only
        split <;> omega
    · rw [if_neg hr]
      refine ⟨hf, ?_⟩
      simpa using ⟨by decide, hf'⟩

theorem not_mem_decodeFrom {p : Option Partial} (hp : ∀ q, p = some q → q.Wide) {bs : Bytes}
    (hbs : (10 : UInt8) ∉ bs) : '\n' ∉ decodeFrom [] p bs := by
  induction bs generalizing p with
  | nil => cases p <;> simp [decodeFrom, finish, replacement]
  | cons b bs ih =>
    obtain ⟨hb, hrest⟩ : (10 : UInt8) ≠ b ∧ (10 : UInt8) ∉ bs := by simpa using hbs
    have hne : b.toNat ≠ 10 := fun h => hb (UInt8.toNat_inj.1 h.symm)
    obtain ⟨hq, hout⟩ := step_wide hp hne
    rw [decodeFrom_cons, List.mem_append]
    rintro (h | h)
    · exact hout h
    · exact ih hq hrest h

theorem not_mem_decode {bs : Bytes} (hbs : (10 : UInt8) ∉ bs) : '\n' ∉ decode bs :=
  not_mem_decodeFrom (by simp) hbs

/-! ## Octets of texts -/

theorem encodeChar_ne_nil (c : Char) : encodeChar c ≠ [] := by
  unfold encodeChar
  dsimp only
  split
  · simp
  · split
    · simp
    · split <;> simp

/-- The octet of an ASCII character is no part of any other character. -/
theorem not_mem_encodeChar {c d : Char} (hd : d.toNat < 0x80) (hc : c ≠ d) :
    d.toNat.toUInt8 ∉ encodeChar c := by
  have hn : c.toNat ≠ d.toNat := fun h => hc (Char.toNat_inj.1 h)
  have hvalid : c.toNat < 0x110000 := by
    have : c.toNat < 0xD800 ∨ 0xDFFF < c.toNat ∧ c.toNat < 0x110000 := c.valid
    omega
  have hne : ∀ {k : Nat}, k < 256 → k ≠ d.toNat → d.toNat.toUInt8 ≠ k.toUInt8 := by
    intro k hk hk' h
    have := congrArg UInt8.toNat h
    rw [toNat_toUInt8 hk, toNat_toUInt8 (by omega)] at this
    exact hk' this.symm
  unfold encodeChar
  generalize c.toNat = n at hn hvalid
  dsimp only
  repeat' split
  all_goals
    simp only [List.mem_cons, List.not_mem_nil, or_false, not_or]
    repeat' apply And.intro
  all_goals exact hne (by omega) (by omega)

theorem not_mem_encode {d : Char} (hd : d.toNat < 0x80) {t : Text} (ht : d ∉ t) :
    d.toNat.toUInt8 ∉ encode t := by
  rw [encode, List.mem_flatMap]
  rintro ⟨c, hc, hm⟩
  have hne : c ≠ d := by
    rintro rfl
    exact ht hc
  exact not_mem_encodeChar hd hne hm

theorem encode_cons (c : Char) (t : Text) : encode (c :: t) = encodeChar c ++ encode t := List.flatMap_cons

theorem encode_eq_nil_iff {t : Text} : encode t = [] ↔ t = [] := by
  cases t with
  | nil => simp
  | cons c t => simp [encode_cons, encodeChar_ne_nil]

theorem encodeChar_of_ascii {d : Char} (hd : d.toNat < 0x80) : encodeChar d = [d.toNat.toUInt8] := if_pos hd

/-- Where the octets of a text have that of an ASCII character, the text has the character. -/
theorem of_encode_eq_append {d : Char} (hd : d.toNat < 0x80) {t : Text} {x y : Bytes}
    (h : encode t = x ++ d.toNat.toUInt8 :: y) :
    ∃ a b, t = a ++ d :: b ∧ encode a = x ∧ encode b = y := by
  induction t generalizing x with
  | nil => simp at h
  | cons c t ih =>
    rw [encode_cons] at h
    by_cases hcd : c = d
    · subst hcd
      rw [encodeChar_of_ascii hd, List.singleton_append] at h
      cases x with
      | nil =>
        obtain ⟨-, rfl⟩ := List.cons.inj h
        exact ⟨[], t, rfl, rfl, rfl⟩
      | cons o x =>
        obtain ⟨rfl, ht⟩ := List.cons.inj h
        obtain ⟨a, b, rfl, rfl, rfl⟩ := ih ht
        exact ⟨c :: a, b, rfl, by rw [encode_cons, encodeChar_of_ascii hd, List.singleton_append], rfl⟩
    · -- the octet is none of those of `c`, so these all come before it
      have hnot := not_mem_encodeChar hd hcd
      obtain ⟨x', rfl, ht⟩ : ∃ x', x = encodeChar c ++ x' ∧ encode t = x' ++ d.toNat.toUInt8 :: y := by
        obtain hfirst | ⟨z, hc, hz⟩ := List.append_eq_append_iff.1 h
        · exact hfirst
        · cases z with
          | nil => exact ⟨[], by simpa using hc.symm, by simpa using hz.symm⟩
          | cons o z =>
            obtain ⟨rfl, -⟩ := List.cons.inj hz
            exact absurd (hc ▸ List.mem_append_right x List.mem_cons_self) hnot
      obtain ⟨a, b, rfl, rfl, rfl⟩ := ih ht
      exact ⟨c :: a, b, rfl, encode_cons c a, rfl⟩

/-! ## Fronts of texts -/

/-- The front of a text that has `n` octets; none if they end within a character or beyond the text. -/
def front? (n : Nat) : Text → Option Text
  | [] => if n = 0 then some [] else none
  | c :: t =>
    if n = 0 then some []
    else if (encodeChar c).length ≤ n then (front? (n - (encodeChar c).length) t).map (c :: ·)
    else none

theorem front?_append (a b : Text) : front? (encode a).length (a ++ b) = some a := by
  induction a with
  | nil => cases b <;> rfl
  | cons c a ih =>
    have hpos := List.length_pos_iff.2 (encodeChar_ne_nil c)
    have hlen : (encode (c :: a)).length = (encodeChar c).length + (encode a).length := by
      rw [encode_cons, List.length_append]
    rw [List.cons_append, front?, if_neg (by omega), if_pos (by omega), hlen, Nat.add_sub_cancel_left, ih]
    rfl

end LineShell.Utf8
