import LineShell.Text.Basic

/-!
# The work area

The words of a command are laid out one behind the other in a work area, in slots of eight octets, and behind
them stands the list of their places. Nothing clears the area: what a command leaves in it stays until
something else is laid out in its place. So something may stand behind the end of a word, or of the list, and
a command that reads on too far comes upon it.

* `Slot`, `WorkArea` : what is in the area, and how much of it is taken;
* `WorkArea.layWord`, `layText`, `layList` : lay out words, other texts and the list of the words;
* `WorkArea.leave` : has a text stand in the area that nothing is kept of;
* `WorkArea.textBehind`, `isLittered` : what stands behind a word, and whether there is text behind the list.
-/

namespace LineShell.Script

/-- Eight octets of the work area. -/
inductive Slot where
  | text (t : Text)
  /-- The place of something. -/
  | place
  deriving DecidableEq, Repr

namespace Slot

/-- How many octets a slot has. -/
def width : Nat := 8

/-- A slot that nothing has been laid out in. -/
def blank : Slot := .text (List.replicate width '\x00')

/-- The octets of a slot; those of a place are none that a text is made of. -/
def octets : Slot → Text
  | text t => t
  | place => List.replicate width '\xff'

end Slot

/-- The work area of a process. -/
structure WorkArea where
  slots : Array Slot := #[]
  /-- How many slots hold what is still needed. -/
  taken : Nat := 0
  /-- The octets at which the words of the command under way begin, the last word first. -/
  words : List Nat := []
  /-- The slot that leads on from the last word, if there is one. -/
  last : Option Nat := none
  /-- The slot behind the list of the words. -/
  behind : Nat := 0
  deriving DecidableEq, Repr

namespace WorkArea

/-- The area before the words of a command are laid out. -/
def ready (a : WorkArea) : WorkArea := { a with words := [], last := none }

/-- The area with blank slots behind what is taken. -/
def cleared (a : WorkArea) : WorkArea := { a with slots := a.slots.extract 0 a.taken }

def next (a : WorkArea) : Slot := a.slots.getD a.taken .blank

def lay (a : WorkArea) (s : Slot) : WorkArea :=
  { a with
    slots := if a.taken < a.slots.size then a.slots.setIfInBounds a.taken s else a.slots.push s
    taken := a.taken + 1 }

/-- Takes as many slots as some octets need; what they leave of the last one stays. -/
def layOctets (a : WorkArea) (t : Text) : WorkArea :=
  (List.range ((t.length + Slot.width - 1) / Slot.width)).foldl (fun a i =>
    let piece := (t.drop (Slot.width * i)).take Slot.width
    a.lay (.text (piece ++ a.next.octets.drop piece.length))) a

/-- The octets of a word when its quotes have been taken out, which draws it together. -/
def drawnTogether (written word : Text) : Text :=
  word ++ '\x00' :: (written.drop (word.length + 1) ++
    if word.length < written.length then ['\x00'] else [])

/-- Lays out where a text is, and where the next one will be. -/
def layLinks (a : WorkArea) : WorkArea := (a.lay .blank).lay .place

/-- The area in which the last word leads on to one that is laid out next. -/
def link (a : WorkArea) : WorkArea :=
  { a with
    slots := match a.last with
      | some i => a.slots.setIfInBounds i .place
      | none => a.slots
    last := some a.taken }

/-- Lays out the fields of a word, which holds the octets `written` at first. -/
def layWord (a : WorkArea) (written : Text) (fields : List Text) : WorkArea :=
  let start := Slot.width * a.taken
  let (octets, places) := match fields with
    | [t] => (drawnTogether written t, [start])
    | ts => ts.foldl (fun (octets, places) t =>
        (octets ++ t ++ ['\x00'], (start + octets.length) :: places)) ([], [])
  let a := a.layOctets (if octets.isEmpty then ['\x00'] else octets)
  fields.foldl (fun a _ => a.link.layLinks) { a with words := places ++ a.words }

/-- Lays out a text that is no word of a command. -/
def layText (a : WorkArea) (t : Text) : WorkArea := (a.layOctets (t ++ ['\x00'])).layLinks

/-- Lays out the list of the words of a command: their places, a slot that is not used in front of them and a
blank one behind. -/
def layList (a : WorkArea) : WorkArea :=
  let a := a.words.foldl (fun a _ => a.lay .place) (a.lay a.next)
  let a := a.lay .blank
  { a with behind := a.taken }

/-- Has some octets stand behind what is taken. -/
def leave (a : WorkArea) (t : Text) : WorkArea := { a.layOctets t with taken := a.taken }

/-- The octets that stand behind the end of a word of length `n`, up to the end of what there is; the word
is counted from the last one of its command. -/
def textBehind (a : WorkArea) (fromLast n : Nat) : Text :=
  let place := (a.words[fromLast]?.getD (Slot.width * a.slots.size)) + n + 1
  ((a.slots.toList.drop (place / Slot.width)).flatMap Slot.octets).drop (place % Slot.width)

/-- Whether text stands where one more place would stand behind the list of the words. -/
def isLittered (a : WorkArea) : Bool :=
  match a.slots[a.behind]? with
  | some (.text t) => t.any (· != '\x00')
  | _ => false

end WorkArea

end LineShell.Script
