import LineShell.Text.Basic

/-!
# Tables of entries

A `Table` is a sequence of numbered texts in the order in which they were added. It allows any
texts; what a second entry of one name means is for the tables built on it to say.

* `Entry.hasName`, `Entry.value` : an entry read as `NAME=VALUE`;
* `Table.push`, `Table.removeWhere`, `Table.dropFront`, `Table.setText?`, `Table.renumber` : changes;
* `Table.find?`, `Table.position?` : the first entry of a name.
-/

namespace LineShell

/-- A numbered text. -/
structure Entry where
  number : Nat
  text : Text
  deriving DecidableEq, Repr

namespace Entry

/-- Whether the text is `name`, then `=`, then anything. -/
def hasName (name : Text) (e : Entry) : Bool := (name ++ ['=']).isPrefixOf e.text

/-- The text behind the first `=`. -/
def value (e : Entry) : Option Text := (Text.breakAt '=' e.text).map (·.2)

/-- An entry has the name `name` exactly when its text is `name=` and something more. -/
theorem hasName_iff {name : Text} {e : Entry} :
    e.hasName name = true ↔ ∃ v, e.text = name ++ '=' :: v := by
  rw [hasName, List.isPrefixOf_iff_prefix]
  constructor
  · rintro ⟨v, h⟩; exact ⟨v, by simp [← h]⟩
  · rintro ⟨v, h⟩; exact ⟨v, by simp [h]⟩

end Entry

/-- Entries, oldest first. -/
structure Table where
  entries : List Entry
  deriving DecidableEq, Repr

namespace Table

def empty : Table := ⟨[]⟩

def size (t : Table) : Nat := t.entries.length

def isEmpty (t : Table) : Bool := t.entries.isEmpty

/-- The texts, oldest first. -/
def texts (t : Table) : List Text := t.entries.map Entry.text

/-- A new entry behind the others. -/
def push (t : Table) (number : Nat) (text : Text) : Table := ⟨t.entries ++ [⟨number, text⟩]⟩

/-- The table without the entries that `drop` holds of; the others keep their order. -/
def removeWhere (t : Table) (drop : Entry → Bool) : Table := ⟨t.entries.filter (!drop ·)⟩

/-- The table without its `n` oldest entries. -/
def dropFront (t : Table) (n : Nat) : Table := ⟨t.entries.drop n⟩

/-- The first entry called `name`. -/
def find? (t : Table) (name : Text) : Option Entry := t.entries.find? (·.hasName name)

/-- The place of the first entry called `name`. -/
def position? (t : Table) (name : Text) : Option Nat := t.entries.findIdx? (·.hasName name)

/-- The table with another text at place `i`; none if there is no such place. -/
def setText? (t : Table) (i : Nat) (text : Text) : Option Table :=
  t.entries[i]?.map fun e => ⟨t.entries.set i { e with text }⟩

/-- The entries numbered by their places. -/
def renumber (t : Table) : Table := ⟨t.entries.zipIdx.map fun (e, i) => { e with number := i }⟩

/-- Texts as entries numbered by their places. -/
def ofTexts (ts : List Text) : Table := ⟨ts.zipIdx.map fun (text, i) => ⟨i, text⟩⟩

@[simp] theorem length_texts (t : Table) : t.texts.length = t.size := by simp [texts, size]

@[simp] theorem size_push (t : Table) (n : Nat) (text : Text) : (t.push n text).size = t.size + 1 := by
  simp [size, push]

@[simp] theorem texts_push (t : Table) (n : Nat) (text : Text) :
    (t.push n text).texts = t.texts ++ [text] := by simp [texts, push]

@[simp] theorem texts_dropFront (t : Table) (n : Nat) :
    (t.dropFront n).texts = t.texts.drop n := by simp [texts, dropFront, List.map_drop]

@[simp] theorem texts_renumber (t : Table) : t.renumber.texts = t.texts := by
  simp only [texts, renumber, List.map_map]
  rw [show (Entry.text ∘ fun x : Entry × Nat => { x.1 with number := x.2 })
    = Entry.text ∘ Prod.fst from rfl, ← List.map_map]
  simp

@[simp] theorem texts_ofTexts (ts : List Text) : (ofTexts ts).texts = ts := by
  simp only [texts, ofTexts, List.map_map]
  rw [show (Entry.text ∘ fun x : Text × Nat => (⟨x.2, x.1⟩ : Entry)) = Prod.fst from rfl]
  simp

end Table

end LineShell
