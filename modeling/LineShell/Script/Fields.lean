import LineShell.Script.Pattern

/-!
# Fields

What words stand for comes in stretches: what is written in the word itself, and what was put in. Fields
end at the separators in what was put in, at one blank or several, or at one other separator with the
blanks around it.

* `Mark`, `Stretch` : the characters, and where they come from;
* `Splitter` : the fields that are complete, and the one under way;
* `Stretch.fields` : the fields of some stretches, or at most so many of them.
-/

namespace LineShell.Script

/-- A character, or something that is not seen. -/
inductive Mark where
  | char (quoted : Bool) (c : Char)
  /-- Quotes, which make a field even if there is nothing in it. -/
  | quotes
  /-- The place between two arguments. -/
  | cut
  deriving DecidableEq, Repr

/-- Where a stretch comes from. -/
inductive StretchKind where
  /-- From the word itself, so that no field ends in it. -/
  | fixed
  /-- From a value, in which fields end at separators. -/
  | value
  /-- From several arguments, each of which is a field. -/
  | arguments
  deriving DecidableEq, Repr

/-- Characters that come from one place. -/
structure Stretch where
  kind : StretchKind
  marks : List Mark
  deriving DecidableEq, Repr

namespace Mark

/-- The separators that count as blanks, and that are used where none have been chosen. -/
def blanks : Text := " \t\n".toList

/-- Whether a mark parts the fields of a stretch. -/
def isSeparator (separators : Text) (kind : StretchKind) : Mark → Bool
  | char _ c => kind == .value && separators.contains c
  | quotes => false
  | cut => true

def isBlank : Mark → Bool
  | char _ c => blanks.contains c
  | quotes => false
  | cut => true

/-- The character that a mark is, and whether it is quoted. -/
def marked? : Mark → Option Marked
  | char quoted c => some (quoted, c)
  | _ => none

end Mark

/-- The fields that have been made of some stretches. -/
structure Splitter where
  /-- The fields that are complete, last one first. -/
  done : List (List Mark) := []
  /-- The field under way, its last mark first. -/
  current : List Mark := []
  /-- How many more fields there may be, if there is a bound; the last one holds all that is left. -/
  left : Option Nat := none
  /-- How much of the last field is kept if nothing but blanks comes behind. -/
  kept : Option Nat := none
  /-- Where the stretch before this one comes from. -/
  before : StretchKind := .fixed
  /-- Whether the last separator was a blank. -/
  wasBlank : Bool := false
  /-- Whether what belongs to the end of a field is still being passed over, and whether a separator that
  is no blank may be part of it. -/
  passing : Option Bool := none

namespace Splitter

/-- One more mark in the field under way. -/
def keep (s : Splitter) (m : Mark) : Splitter := { s with current := m :: s.current, passing := none }

/-- One more mark in the last field. -/
def keepLast (s : Splitter) (isSeparator : Bool) (m : Mark) : Splitter :=
  let s' := { s with current := m :: s.current }
  if isSeparator && m.isBlank then { s' with kept := s.kept.or (some s.current.length) }
  else { s' with kept := if isSeparator && s.wasBlank then s.kept else none, wasBlank := false }

/-- A separator, which ends the field under way unless it is a blank in front of it. -/
def separate (s : Splitter) (kind : StretchKind) (m : Mark) : Splitter :=
  let seesBlanks := kind == .value && s.before != .arguments
  let wasBlank := if seesBlanks then m.isBlank else s.wasBlank
  let s := { s with wasBlank, passing := none }
  if s.current.isEmpty && wasBlank then s
  else match s.left with
    | some 1 => { s with left := some 0, kept := some s.current.length, current := m :: s.current }
    | left => { s with
        done := s.current.reverse :: s.done
        current := []
        left := left.map (· - 1)
        passing := if seesBlanks then some wasBlank else none }

/-- One more mark of a stretch. -/
def step (separators : Text) (kind : StretchKind) (s : Splitter) (m : Mark) : Splitter :=
  let isSeparator := m.isSeparator separators kind
  if s.left == some 0 then s.keepLast isSeparator m
  else if !isSeparator then s.keep m
  else match s.passing, m.isBlank with
    | some _, true => s
    | some true, false => { s with passing := some false, wasBlank := false }
    | _, _ => s.separate kind m

/-- One more stretch. -/
def stretch (separators : Text) (s : Splitter) (t : Stretch) : Splitter :=
  match t.kind with
  | .fixed => { s with current := t.marks.reverse ++ s.current, passing := none }
  | kind =>
    let s := t.marks.foldl (step separators kind) { s with wasBlank := false, passing := none }
    { s with before := kind }

/-- All fields: the last one is left out if it is empty, unless it is an argument. -/
def finish (s : Splitter) : List (List Mark) :=
  let last := s.current.reverse
  let last := if s.before == .arguments then last else last.take (s.kept.getD last.length)
  (if s.before != .arguments && last.isEmpty then s.done else last :: s.done).reverse

end Splitter

/-- The fields of some stretches, at most `most` of them if that is given. -/
def Stretch.fields (separators : Text) (most : Option Nat) (ss : List Stretch) : List (List Marked) :=
  let s := ss.foldl (Splitter.stretch separators) { left := most }
  s.finish.map (·.filterMap Mark.marked?)

end LineShell.Script
