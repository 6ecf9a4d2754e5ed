import LineShell.Table
import LineShell.Path
import LineShell.Machine
import LineShell.Text.Lines

/-!
# The history

The lines that the shell has accepted, numbered from zero, never more than the cap: the oldest go
first. On disk a history is one line for each text.

* `History.add` : one more line;
* `History.load` : the history that a file holds, in place of the one in memory;
* `History.fileBytes` : what a file holding the history consists of;
* `History.path?` : where the file is.
-/

namespace LineShell

/-- At most `cap` lines, oldest first. -/
structure History where
  table : Table
  cap : Nat
  deriving DecidableEq, Repr

namespace History

def empty (cap : Nat) : History := ⟨.empty, cap⟩

/-- The lines, oldest first. -/
def texts (h : History) : List Text := h.table.texts

/-- The last `cap` entries, numbered by their places. -/
def trim (h : History) : History :=
  { h with table := (h.table.dropFront (h.table.size - h.cap)).renumber }

/-- One more line. -/
def add (h : History) (line : Text) : History :=
  let grown := { h with table := h.table.push h.table.size line }
  if grown.table.size > h.cap then grown.trim else grown

/-- Lines in place of the present ones. -/
def replace (h : History) (lines : List Text) : History :=
  trim { h with table := .ofTexts lines }

/-- The history after a file has been opened, with the number of lines then in it or the failure.
A file that does not exist changes nothing and counts as none; any other failure changes nothing. -/
def load (h : History) : Except SysError ByteStream → Except SysError Nat × History
  | .error .notFound => (.ok 0, h)
  | .error e => (.error e, h)
  | .ok ⟨_, some e⟩ => (.error e, h)
  | .ok ⟨bytes, none⟩ => let h := h.replace (Bytes.textLines bytes); (.ok h.table.size, h)

/-- What a file holding the history consists of. -/
def fileBytes (h : History) : Bytes := Bytes.ofLines h.texts

/-- The history file `name` in the home directory; none without a home directory. -/
def path? (home : Option Text) (name : Text) : Option Text :=
  match home with
  | none | some [] => none
  | some home => some (Path.join home name)

@[simp] theorem texts_trim (h : History) :
    h.trim.texts = h.texts.drop (h.texts.length - h.cap) := by
  simp [trim, texts]

@[simp] theorem cap_add (h : History) (line : Text) : (h.add line).cap = h.cap := by
  unfold add; simp only []; split <;> rfl

/-- Adding keeps the last `cap` lines. -/
theorem texts_add (h : History) (line : Text) :
    (h.add line).texts = (h.texts ++ [line]).drop ((h.texts ++ [line]).length - h.cap) := by
  have hs : h.table.size + 1 = (h.texts ++ [line]).length := by
    simp [texts, Table.size, Table.texts]
  unfold add
  simp only []
  split
  · rw [texts_trim]
    simp [texts]
  · next hle =>
    have hz : (h.texts ++ [line]).length - h.cap = 0 := by
      rw [← hs]; simp [Table.size, Table.push] at hle ⊢; omega
    rw [hz]; simp [texts]

end History

end LineShell
