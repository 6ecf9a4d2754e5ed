import LineShell.Text.Basic

/-!
# UTF-8

* `encode` : the octets of a text;
* `decode` : the text of any octets; each maximal run of octets that starts a character and cannot
  go on to complete it becomes one U+FFFD;
* `decode?` : the text of octets that are UTF-8, none for any others.

The decoder is a machine that takes one octet at a time. Its state is the character under way
(`Partial`): how many octets it still needs, its bits so far, and the range that its next octet
must lie in.
-/

namespace LineShell.Utf8

def encodeChar (c : Char) : Bytes :=
  let n := c.toNat
  if n < 0x80 then [n.toUInt8]
  else if n < 0x800 then [(0xC0 + n / 0x40).toUInt8, (0x80 + n % 0x40).toUInt8]
  else if n < 0x10000 then
    [(0xE0 + n / 0x1000).toUInt8, (0x80 + n / 0x40 % 0x40).toUInt8, (0x80 + n % 0x40).toUInt8]
  else
    [(0xF0 + n / 0x40000).toUInt8, (0x80 + n / 0x1000 % 0x40).toUInt8,
      (0x80 + n / 0x40 % 0x40).toUInt8, (0x80 + n % 0x40).toUInt8]

def encode (t : Text) : Bytes := t.flatMap encodeChar

@[simp] theorem encode_nil : encode [] = [] := rfl

theorem encode_append (a b : Text) : encode (a ++ b) = encode a ++ encode b := by
  simp [encode]

/-- What stands for octets that are no character. -/
def replacement : Char := '\uFFFD'

/-- A character of which the first octets have been read. -/
structure Partial where
  /-- How many octets are still to come. -/
  needed : Nat
  /-- The bits read so far. -/
  bits : Nat
  /-- The least octet that may come next. -/
  low : Nat
  /-- The greatest octet that may come next. -/
  high : Nat
  deriving DecidableEq, Repr

/-- What a first octet does: it is a character, starts one, or can start none. -/
def first (b : Nat) : Option Partial × List Char :=
  if b < 0x80 then (none, [Char.ofNat b])
  else if 0xC2 ≤ b ∧ b ≤ 0xDF then (some ⟨1, b - 0xC0, 0x80, 0xBF⟩, [])
  else if b = 0xE0 then (some ⟨2, 0, 0xA0, 0xBF⟩, [])
  else if b = 0xED then (some ⟨2, 0xD, 0x80, 0x9F⟩, [])
  else if 0xE1 ≤ b ∧ b ≤ 0xEF then (some ⟨2, b - 0xE0, 0x80, 0xBF⟩, [])
  else if b = 0xF0 then (some ⟨3, 0, 0x90, 0xBF⟩, [])
  else if b = 0xF4 then (some ⟨3, 4, 0x80, 0x8F⟩, [])
  else if 0xF1 ≤ b ∧ b ≤ 0xF3 then (some ⟨3, b - 0xF0, 0x80, 0xBF⟩, [])
  else (none, [replacement])

/-- One octet: the character now under way, and the characters that are settled by it. An octet
that the character under way cannot take ends it and is then read as a first octet. -/
def step (p : Option Partial) (b : Nat) : Option Partial × List Char :=
  match p with
  | none => first b
  | some p =>
    if p.low ≤ b ∧ b ≤ p.high then
      let bits := 0x40 * p.bits + (b - 0x80)
      if p.needed = 1 then (none, [Char.ofNat bits]) else (some ⟨p.needed - 1, bits, 0x80, 0xBF⟩, [])
    else ((first b).1, replacement :: (first b).2)

/-- What the end of the octets leaves of a character under way. -/
def finish : Option Partial → List Char
  | none => []
  | some _ => [replacement]

/-- The machine from state `p` on, behind the characters `seen` (last one first). -/
def decodeFrom (seen : Text) (p : Option Partial) : Bytes → Text
  | [] => seen.reverse ++ finish p
  | b :: rest =>
    let r := step p b.toNat
    decodeFrom (r.2.reverse ++ seen) r.1 rest

def decode (bs : Bytes) : Text := decodeFrom [] none bs

/-- The text of octets that are UTF-8. A text read with a replacement has other octets than those
it was read from, so writing the text back tells. -/
def decode? (bs : Bytes) : Option Text :=
  let t := decode bs
  if encode t = bs then some t else none

@[simp] theorem decode_nil : decode [] = [] := rfl

theorem decodeFrom_eq_append (seen : Text) (p : Option Partial) (bs : Bytes) :
    decodeFrom seen p bs = seen.reverse ++ decodeFrom [] p bs := by
  induction bs generalizing seen p with
  | nil => simp [decodeFrom]
  | cons b rest ih =>
    simp only [decodeFrom]
    rw [ih, ih ((step p b.toNat).2.reverse ++ [])]
    simp

end LineShell.Utf8
