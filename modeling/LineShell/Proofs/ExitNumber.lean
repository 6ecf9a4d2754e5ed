import LineShell.Builtin
import LineShell.Proofs.Text.Utf8
import Mathlib.Data.List.Induction
import Mathlib.Tactic.IntervalCases

/-!
# The numbers that `exit` takes

* `Text.Writes` : a run of digits and its decimal value; by `Text.writes_iff_numeral` it is the numeral of
  that value behind any number of zeros;
* `Builtin.IsNumber` : the arguments that `exit` takes, each with its number;
* `Bytes.number?` : digits worked out octet by octet in 32 bits, where every product and every sum is
  checked; by `Bytes.number?_eq_some_iff` none of them goes wrong on the way to a number in range.

`Builtin.exit_takes_numbers` : `exit` takes these arguments and no others.
-/

namespace LineShell

/-! ## Runs of digits -/

namespace Text

variable {t : Text} {d : Char} {n k : Nat}

/-- The digits, each in the place of its value. -/
def tenDigits : Text := "0123456789".toList

/-- A run of digits, and the number that it is in decimal. -/
inductive Writes : Text → Nat → Prop
  | digit {d : Char} {k : Nat} (hd : tenDigits[k]? = some d) : Writes [d] k
  | more {t : Text} {d : Char} {n k : Nat} (ht : Writes t n) (hd : tenDigits[k]? = some d) :
      Writes (t ++ [d]) (10 * n + k)

theorem isDigit_iff : isDigit d = true ↔ 48 ≤ d.toNat ∧ d.toNat ≤ 57 := by
  rw [isDigit, Bool.and_eq_true, decide_eq_true_iff, decide_eq_true_iff, Char.le_def, Char.le_def,
    UInt32.le_iff_toNat_le, UInt32.le_iff_toNat_le]
  rfl

theorem tenDigits_eq_some_iff : tenDigits[k]? = some d ↔ isDigit d = true ∧ d.toNat = 48 + k := by
  constructor
  · intro h
    have hk : k < 10 := (List.getElem?_eq_some_iff.1 h).1
    interval_cases k <;> obtain rfl := Option.some.inj h <;> decide
  · rintro ⟨hdigit, hd⟩
    have hk : k < 10 := by
      have := isDigit_iff.1 hdigit
      omega
    have hchar : d = Char.ofNat (48 + k) := by rw [← hd, Char.ofNat_toNat]
    subst hchar
    interval_cases k <;> rfl

theorem digitsValue_append (t : Text) (d : Char) :
    digitsValue (t ++ [d]) = 10 * digitsValue t + (d.toNat - 48) := by
  rw [digitsValue, List.foldl_append]
  rfl

theorem writes_iff : Writes t n ↔ t ≠ [] ∧ t.all isDigit = true ∧ digitsValue t = n := by
  constructor
  · intro h
    induction h with
    | @digit d k hd =>
      obtain ⟨hdigit, hn⟩ := tenDigits_eq_some_iff.1 hd
      refine ⟨List.cons_ne_nil d [], by simpa using hdigit, ?_⟩
      have hvalue := digitsValue_append [] d
      rw [List.nil_append] at hvalue
      rw [hvalue, hn]
      simp [digitsValue]
    | @more t d n k _ hd ih =>
      obtain ⟨hdigit, hn⟩ := tenDigits_eq_some_iff.1 hd
      obtain ⟨-, hall, hvalue⟩ := ih
      refine ⟨by simp, by simp [hall, hdigit], ?_⟩
      rw [digitsValue_append, hvalue, hn, Nat.add_sub_cancel_left]
  · rintro ⟨hne, hall, rfl⟩
    induction t using List.reverseRecOn with
    | nil => exact absurd rfl hne
    | append_singleton t d ih =>
      obtain ⟨ht, hdigit⟩ : t.all isDigit = true ∧ isDigit d = true := by simpa using hall
      have hd : tenDigits[d.toNat - 48]? = some d := by
        have := isDigit_iff.1 hdigit
        exact tenDigits_eq_some_iff.2 ⟨hdigit, by omega⟩
      rw [digitsValue_append]
      by_cases hnil : t = []
      · subst hnil
        simpa [digitsValue] using Writes.digit hd
      · exact .more (ih hnil ht) hd

/-! ## Numerals -/

theorem ofNat_of_lt (h : n < 10) : ofNat n = [Nat.digitChar n] := Nat.toDigits_of_lt_base h

theorem ofNat_append (hn : 0 < n) (hk : k < 10) : ofNat n ++ ofNat k = ofNat (10 * n + k) :=
  Nat.toDigits_append_toDigits (by decide) hn hk

theorem tenDigits_digitChar (h : n < 10) : tenDigits[n]? = some (Nat.digitChar n) := by
  interval_cases n <;> rfl

theorem Writes.zero_cons (h : Writes t n) : Writes ('0' :: t) n := by
  have hzero : Writes ['0'] 0 := .digit rfl
  induction h with
  | @digit d k hd => simpa using hzero.more hd
  | more _ hd ih => exact ih.more hd

theorem writes_ofNat (n : Nat) : Writes (ofNat n) n := by
  induction n using Nat.strong_induction_on with
  | _ n ih =>
    by_cases hn : n < 10
    · rw [ofNat_of_lt hn]
      exact .digit (tenDigits_digitChar hn)
    · have hlast : n % 10 < 10 := Nat.mod_lt n (by decide)
      have hsplit : ofNat n = ofNat (n / 10) ++ [Nat.digitChar (n % 10)] := by
        rw [← ofNat_of_lt hlast, ofNat_append (by omega) hlast, Nat.div_add_mod]
      rw [hsplit]
      conv => rhs; rw [← Nat.div_add_mod n 10]
      exact (ih (n / 10) (by omega)).more (tenDigits_digitChar hlast)

/-- Only zeros can stand in front of a numeral without making another number of it. -/
theorem writes_iff_numeral : Writes t n ↔ ∃ zeros, t = List.replicate zeros '0' ++ ofNat n := by
  constructor
  · intro h
    induction h with
    | @digit d k hd =>
      have hk : k < 10 := (List.getElem?_eq_some_iff.1 hd).1
      refine ⟨0, ?_⟩
      rw [ofNat_of_lt hk, ← Option.some.inj (hd.symm.trans (tenDigits_digitChar hk))]
      rfl
    | @more t d n k _ hd ih =>
      obtain ⟨zeros, rfl⟩ := ih
      have hk : k < 10 := (List.getElem?_eq_some_iff.1 hd).1
      have hlast : [d] = ofNat k := by
        rw [ofNat_of_lt hk, ← Option.some.inj (hd.symm.trans (tenDigits_digitChar hk))]
      rw [hlast, List.append_assoc]
      obtain rfl | hn := Nat.eq_zero_or_pos n
      · -- the numeral of zero is one more zero in front
        refine ⟨zeros + 1, ?_⟩
        rw [Nat.mul_zero, Nat.zero_add, List.replicate_succ', List.append_assoc]
        rfl
      · exact ⟨zeros, by rw [ofNat_append hn hk]⟩
  · rintro ⟨zeros, rfl⟩
    induction zeros with
    | zero => exact writes_ofNat n
    | succ zeros ih => exact ih.zero_cons

end Text

/-! ## Digits in 32 bits -/

/-- A number as a word of 32 bits; none if it does not fit. -/
def word? (i : Int) : Option Int32 :=
  if Int32.minValue.toInt ≤ i ∧ i ≤ Int32.maxValue.toInt then some (.ofInt i) else none

theorem map_toInt_word? {i : Int} (hi : 0 ≤ i) :
    (word? i).map Int32.toInt = if i ≤ 2147483647 then some i else none := by
  have hmin : Int32.minValue.toInt = -2147483648 := by decide
  have hmax : Int32.maxValue.toInt = 2147483647 := by decide
  unfold word?
  rw [hmin, hmax]
  by_cases h : i ≤ 2147483647
  · rw [if_pos ⟨by omega, h⟩, if_pos h, Option.map_some, Int32.toInt_ofInt_of_le (by omega) (by omega)]
  · rw [if_neg (by omega), if_neg h, Option.map_none]

namespace Bytes

/-- One more digit behind a number: ten times the number, and then the digit, each checked. -/
def pushDigit? (v : Int32) (b : UInt8) : Option Int32 :=
  if 48 ≤ b.toNat ∧ b.toNat ≤ 57 then
    (word? (10 * v.toInt)).bind fun tens => word? (tens.toInt + (b.toNat - 48 : Nat))
  else none

/-- The number of some digits, worked out octet by octet. -/
def number? (bs : Bytes) : Option Int32 := bs.foldlM pushDigit? 0

theorem number?_append (bs : Bytes) (b : UInt8) :
    number? (bs ++ [b]) = (number? bs).bind (pushDigit? · b) := by
  rw [number?, List.foldlM_append]
  cases h : number? bs with
  | none => rw [number?] at h; rw [h]; rfl
  | some v => rw [number?] at h; rw [h]; simp

/-- A digit is put behind a number if the number that comes of it is in range. -/
theorem map_toInt_pushDigit? {v : Int32} {n : Nat} (hv : v.toInt = n) {d : Char}
    (hd : Text.isDigit d = true) :
    (pushDigit? v d.toNat.toUInt8).map Int32.toInt =
      if 10 * n + (d.toNat - 48) ≤ 2147483647 then some ((10 * n + (d.toNat - 48) : Nat) : Int)
      else none := by
  have hrange := Text.isDigit_iff.1 hd
  rw [pushDigit?, Utf8.toNat_toUInt8 (by omega), if_pos hrange, hv]
  have htens := map_toInt_word? (i := 10 * n) (by omega)
  cases hw : word? (10 * n) with
  | none =>
    -- ten times the number is too much by itself
    rw [hw] at htens
    have hlarge : ¬ 10 * (n : Int) ≤ 2147483647 := by
      intro hle
      simp [if_pos hle] at htens
    rw [Option.bind_none, Option.map_none, if_neg (by omega)]
  | some tens =>
    have htoInt : tens.toInt = 10 * n := by
      rw [hw] at htens
      split at htens
      · exact Option.some.inj htens
      · simp at htens
    rw [Option.bind_some, htoInt, map_toInt_word? (by omega)]
    by_cases hle : 10 * n + (d.toNat - 48) ≤ 2147483647
    · rw [if_pos hle, if_pos (by omega)]
      push_cast
      rfl
    · rw [if_neg hle, if_neg (by omega)]

theorem map_toInt_number? {t : Text} (h : t.all Text.isDigit = true) :
    (number? (Utf8.encode t)).map Int32.toInt =
      if Text.digitsValue t ≤ 2147483647 then some (Text.digitsValue t : Int) else none := by
  induction t using List.reverseRecOn with
  | nil => decide
  | append_singleton t d ih =>
    obtain ⟨ht, hd⟩ : t.all Text.isDigit = true ∧ Text.isDigit d = true := by simpa using h
    have hrange := Text.isDigit_iff.1 hd
    have hoctet : Utf8.encode [d] = [d.toNat.toUInt8] := by
      simp [Utf8.encode, Utf8.encodeChar, show d.toNat < 128 by omega]
    have ih := ih ht
    rw [Utf8.encode_append, hoctet, number?_append, Text.digitsValue_append]
    cases hn : number? (Utf8.encode t) with
    | none =>
      rw [hn] at ih
      have hlarge : ¬ Text.digitsValue t ≤ 2147483647 := by
        intro hle
        simp [if_pos hle] at ih
      rw [Option.bind_none, Option.map_none, if_neg (by omega)]
    | some v =>
      have hv : v.toInt = Text.digitsValue t := by
        rw [hn] at ih
        split at ih
        · exact Option.some.inj ih
        · simp at ih
      exact map_toInt_pushDigit? hv hd

theorem number?_eq_none_of_mem {bs : Bytes} {b : UInt8} (hb : b ∈ bs)
    (hrange : ¬ (48 ≤ b.toNat ∧ b.toNat ≤ 57)) : number? bs = none := by
  obtain ⟨front, behind, rfl⟩ := List.append_of_mem hb
  rw [List.append_cons, number?, List.foldlM_append]
  have hpush : number? (front ++ [b]) = none := by
    rw [number?_append]
    cases number? front with
    | none => rfl
    | some v => exact if_neg hrange
  rw [number?] at hpush
  rw [hpush]
  rfl

/-- A character that is no digit has no octet of one. -/
theorem number?_of_not_isDigit {t : Text} (h : t.all Text.isDigit ≠ true) :
    number? (Utf8.encode t) = none := by
  obtain ⟨c, hc, hdigit⟩ : ∃ c ∈ t, Text.isDigit c ≠ true := by simpa using h
  obtain ⟨b, hb⟩ := List.exists_mem_of_ne_nil _ (Utf8.encodeChar_ne_nil c)
  refine number?_eq_none_of_mem (List.mem_flatMap.2 ⟨c, hc, hb⟩) fun hrange => ?_
  have hvalid : b.toNat.isValidChar := Or.inl (by omega)
  have hchar : (Char.ofNat b.toNat).toNat = b.toNat := by
    rw [Char.ofNat, dif_pos hvalid]
    rfl
  have hne : c ≠ Char.ofNat b.toNat := by
    rintro rfl
    exact hdigit (Text.isDigit_iff.2 (by rwa [hchar]))
  have hnot := Utf8.not_mem_encodeChar (by omega) hne
  rw [hchar] at hnot
  exact hnot (by simpa using hb)

/-- The digits of a number in range are worked out in 32 bits without a wrong step, however many they are;
those of any other number, and what are no digits, give none. -/
theorem number?_eq_some_iff {t : Text} {n : Nat} :
    t ≠ [] ∧ (number? (Utf8.encode t)).map Int32.toInt = some (n : Int) ↔
      Text.Writes t n ∧ n ≤ 2147483647 := by
  rw [Text.writes_iff]
  by_cases hall : t.all Text.isDigit = true
  · rw [map_toInt_number? hall]
    constructor
    · rintro ⟨hne, hn⟩
      split at hn
      · next hle =>
        have hvalue : Text.digitsValue t = n := by simpa using hn
        exact ⟨⟨hne, hall, hvalue⟩, hvalue ▸ hle⟩
      · simp at hn
    · rintro ⟨⟨hne, -, rfl⟩, hle⟩
      exact ⟨hne, if_pos hle⟩
  · rw [number?_of_not_isDigit hall]
    simp [hall]

end Bytes

/-! ## Arguments -/

namespace Builtin

variable {ω : Type} {given digits : Text} {n : Nat} {code : Status}

/-- Perhaps one `+`, and a run of digits whose value fits into a status. -/
def IsNumber (given : Text) (n : Nat) : Prop :=
  ∃ sign digits, (sign = [] ∨ sign = ['+']) ∧ given = sign ++ digits ∧ Text.Writes digits n ∧
    n ≤ 2147483647

/-- The status that some digits denote. -/
def digitsCode? (digits : Text) : Option Status :=
  if !digits.isEmpty && digits.all Text.isDigit && Text.digitsValue digits ≤ maxExitCode then
    some (Text.digitsValue digits)
  else none

theorem digitsCode?_eq_some_iff :
    digitsCode? digits = some code ↔ ∃ n : Nat, code = n ∧ Text.Writes digits n ∧ n ≤ 2147483647 := by
  unfold digitsCode? maxExitCode
  constructor
  · intro h
    split at h
    · next hok =>
      obtain ⟨⟨hne, hall⟩, hle⟩ : (digits ≠ [] ∧ digits.all Text.isDigit = true) ∧
          Text.digitsValue digits ≤ 2147483647 := by simpa using hok
      exact ⟨_, (Option.some.inj h).symm, Text.writes_iff.2 ⟨hne, hall, rfl⟩, hle⟩
    · simp at h
  · rintro ⟨n, rfl, hwrites, hle⟩
    obtain ⟨hne, hall, rfl⟩ := Text.writes_iff.1 hwrites
    exact if_pos (by simpa [hne, hle] using hall)

theorem exitCode?_plus (digits : Text) : exitCode? ('+' :: digits) = digitsCode? digits := rfl

theorem exitCode?_of_head?_ne (h : given.head? ≠ some '+') : exitCode? given = digitsCode? given := by
  unfold exitCode?
  split
  · next rest => exact absurd rfl h
  · rfl

theorem head?_of_writes (h : Text.Writes digits n) : digits.head? ≠ some '+' := by
  obtain ⟨-, hall, -⟩ := Text.writes_iff.1 h
  intro hplus
  have hdigit := List.all_eq_true.1 hall '+' (List.mem_of_mem_head? hplus)
  exact absurd hdigit (by decide)

theorem exitCode?_eq_some_iff : exitCode? given = some code ↔ ∃ n : Nat, code = n ∧ IsNumber given n := by
  constructor
  · intro h
    by_cases hplus : given.head? = some '+'
    · obtain ⟨digits, rfl⟩ := List.head?_eq_some_iff.1 hplus
      obtain ⟨n, hcode, hwrites, hle⟩ := digitsCode?_eq_some_iff.1 ((exitCode?_plus digits).symm.trans h)
      exact ⟨n, hcode, ['+'], digits, .inr rfl, rfl, hwrites, hle⟩
    · obtain ⟨n, hcode, hwrites, hle⟩ :=
        digitsCode?_eq_some_iff.1 ((exitCode?_of_head?_ne hplus).symm.trans h)
      exact ⟨n, hcode, [], given, .inl rfl, rfl, hwrites, hle⟩
  · rintro ⟨n, hcode, sign, digits, hsign, rfl, hwrites, hle⟩
    have hdigits : digitsCode? digits = some code := digitsCode?_eq_some_iff.2 ⟨n, hcode, hwrites, hle⟩
    obtain rfl | rfl := hsign
    · exact (exitCode?_of_head?_ne (head?_of_writes hwrites)).trans hdigits
    · exact (exitCode?_plus digits).trans hdigits

theorem exitCode?_eq_none_iff : exitCode? given = none ↔ ¬ ∃ n, IsNumber given n := by
  constructor
  · rintro h ⟨n, hn⟩
    rw [exitCode?_eq_some_iff.2 ⟨n, rfl, hn⟩] at h
    cases h
  · intro h
    cases hcode : exitCode? given with
    | none => rfl
    | some code =>
      obtain ⟨n, -, hn⟩ := exitCode?_eq_some_iff.1 hcode
      exact absurd ⟨n, hn⟩ h

/-- `exit` with an argument succeeds with a code exactly if the argument writes it: perhaps one `+`, any
number of zeros and the numeral of a number below `2 ^ 31`. It then leaves with that code. For every other
argument nothing changes, and the fault names the argument. The digits are those that can be worked out in 32
bits octet by octet, and the number that comes out is theirs. -/
theorem exit_takes_numbers (m : Machine ω) (name given : Text) (rest : List Text) (s : Session) (w : ω) :
    let r := exit.run m (name :: given :: rest) s w
    (∀ code, r.result = .ok code ↔ ∃ n : Nat, code = n ∧ IsNumber given n) ∧
    (∀ n : Nat, IsNumber given n ↔ r = ⟨{ s with stage := .leaving (some n) }, w, [], .ok n⟩) ∧
    ((¬ ∃ n, IsNumber given n) ↔ r = ⟨s, w, [], .error (.badExitNumber given)⟩) ∧
    (Fault.badExitNumber given).message = "Invalid number: ".toList ++ given ∧
    (Fault.badExitNumber given).status = 2 ∧
    (∀ n : Nat, IsNumber given n ↔ n ≤ 2147483647 ∧ ∃ sign zeros, (sign = [] ∨ sign = ['+']) ∧
      given = sign ++ List.replicate zeros '0' ++ Text.ofNat n) ∧
    ∀ (digits : Text) (n : Nat), Text.Writes digits n ∧ n ≤ 2147483647 ↔
      digits ≠ [] ∧ (Bytes.number? (Utf8.encode digits)).map Int32.toInt = some (n : Int) := by
  intro r
  have hr : r = (exitCode? given).elim ⟨s, w, [], .error (.badExitNumber given)⟩
      fun code => ⟨{ s with stage := .leaving (some code) }, w, [], .ok code⟩ := by
    show runExit (name :: given :: rest) s w = _
    cases h : exitCode? given <;> simp [runExit, h]
  refine ⟨fun code => ?_, fun n => ?_, ?_, rfl, rfl, fun n => ?_, fun digits n =>
    Bytes.number?_eq_some_iff.symm⟩
  · rw [← exitCode?_eq_some_iff, hr]
    cases exitCode? given <;> simp
  · have hn : IsNumber given n ↔ exitCode? given = some (n : Int) := by
      rw [exitCode?_eq_some_iff]
      constructor
      · exact fun h => ⟨n, rfl, h⟩
      · rintro ⟨k, hk, h⟩
        obtain rfl : n = k := by exact_mod_cast hk
        exact h
    rw [hn, hr]
    cases exitCode? given with
    | none => simp
    | some code => constructor <;> simp +contextual
  · rw [← exitCode?_eq_none_iff, hr]
    cases exitCode? given <;> simp
  · constructor
    · rintro ⟨sign, digits, hsign, rfl, hwrites, hle⟩
      obtain ⟨zeros, rfl⟩ := Text.writes_iff_numeral.1 hwrites
      exact ⟨hle, sign, zeros, hsign, by rw [List.append_assoc]⟩
    · rintro ⟨hle, sign, zeros, hsign, rfl⟩
      exact ⟨sign, _, hsign, by rw [List.append_assoc], Text.writes_iff_numeral.2 ⟨zeros, rfl⟩, hle⟩

/-- The greatest number behind a `+` and zeros, and the next one. -/
example : exitCode? "+0002147483647".toList = some 2147483647 ∧ exitCode? "2147483648".toList = none := by
  decide

end Builtin

end LineShell
