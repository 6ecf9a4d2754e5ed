import LineShell.Text.Basic

/-!
# Blank texts

* `isSpace` : the characters that Unicode gives the property `White_Space`, all twenty-five;
* `isBlank` : a text of such characters only, the empty text included.
-/

namespace LineShell.Text

/-- The Unicode property `White_Space`. -/
def isSpace (c : Char) : Bool :=
  let n := c.toNat
  (0x09 ≤ n && n ≤ 0x0D) || n = 0x20 || n = 0x85 || n = 0xA0 || n = 0x1680 ||
    (0x2000 ≤ n && n ≤ 0x200A) || n = 0x2028 || n = 0x2029 || n = 0x202F || n = 0x205F ||
    n = 0x3000

/-- Nothing but white space. -/
def isBlank (t : Text) : Bool := t.all isSpace

theorem isBlank_append (a b : Text) : isBlank (a ++ b) = (isBlank a && isBlank b) := by
  simp [isBlank]

end LineShell.Text
