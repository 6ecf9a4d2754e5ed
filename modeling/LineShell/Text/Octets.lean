import LineShell.Text.Utf8

/-!
# Texts of octets

Where octets need not be UTF-8, each stands in a text as the character of its number, so that no
octet is lost and none is joined to another.

* `Text.ofOctets`, `Text.toOctets` : octets as such a text and back;
* `Text.toOctetText` : a text with the octets of its characters in their place;
* `Text.ofOctetText` : the text that octets write, as far as they are UTF-8.
-/

namespace LineShell.Text

/-- The text with one character for each octet. -/
def ofOctets (bs : Bytes) : Text := bs.map fun b => Char.ofNat b.toNat

/-- The octets that the characters of a text stand for. -/
def toOctets (t : Text) : Bytes := t.map fun c => c.toNat.toUInt8

theorem toOctets_ofOctets (bs : Bytes) : toOctets (ofOctets bs) = bs := by
  unfold toOctets ofOctets
  rw [List.map_map]
  refine (List.map_congr_left fun b _ => ?_).trans bs.map_id
  have h : b.toNat.isValidChar := Or.inl (Nat.lt_trans b.toNat_lt (by decide))
  have : (Char.ofNat b.toNat).toNat = b.toNat := by rw [Char.ofNat, dif_pos h]; rfl
  simp [this]

/-- A text octet by octet. -/
def toOctetText (t : Text) : Text := ofOctets (Utf8.encode t)

/-- The text that a text of octets writes. -/
def ofOctetText (t : Text) : Text := Utf8.decode (toOctets t)

end LineShell.Text
