import LineShell.Script.Expand
import LineShell.Script.Format
import LineShell.Script.Intrinsic.Argument

/-!
# Reading and writing

* `Intrinsic.read` : reads a line into variables;
* `Intrinsic.writeWords`, `writeFormat` : write to standard output.
-/

namespace LineShell.Script.Intrinsic

open Eval

/-- Reads one character; none at the end. -/
def readChar : Eval (Option Char) := do
  match ← descriptor? 0 with
  | none => return none
  | some id => match ← readThrough true id 1 with
    | .ok (b :: _) => return some (Char.ofNat b.toNat)
    | _ => return none

/-- A line under way: its stretches and the characters behind them, the last one of each first. -/
structure Line where
  done : List Stretch := []
  under : Text := []

namespace Line

/-- The line with an end of its last stretch. -/
def cut (l : Line) : Line := ⟨⟨.value, l.under.reverse.map (.char false)⟩ :: l.done, []⟩

/-- The stretches of the line. -/
def stretches (l : Line) : List Stretch := l.cut.done.reverse

end Line

/-- The characters up to the end of a line, and whether there was an end: a backslash quotes the next
character, unless it is plain. -/
def readLine (isPlain : Bool) : Nat → Line → Eval (List Stretch × Bool)
  | 0, l => return (l.stretches, false)
  | n + 1, l => do
    match ← readChar with
    | none => return (l.stretches, false)
    | some '\n' => return (l.stretches, true)
    | some '\x00' => readLine isPlain n l
    | some '\\' =>
      if isPlain then readLine isPlain n { l with under := '\\' :: l.under }
      else match ← readChar with
        | none => return (l.stretches, false)
        | some '\n' => readLine isPlain n l.cut
        | some c =>
          let l := l.cut
          readLine isPlain n { l with done := ⟨.fixed, [.char true c]⟩ :: l.done }
    | some c => readLine isPlain n { l with under := c :: l.under }

def maxLine : Nat := 1000000000

/-- `read [-r] [-p TEXT] NAME...` -/
def read (args : List Text) : Eval Unit := do
  let (os, names) ← options "p:r" args
  if names.isEmpty then fail "arg count".toList
  let (line, ended) ← readLine (given os 'r') maxLine {}
  let fields := Stretch.fields (← Expand.separators) (some names.length) line
  for (name, i) in names.zipIdx do setVar name ((fields.getD i []).map (·.2))
  setStatus (if ended then 0 else 1)

/-- `echo [-n] [WORD...]` -/
def writeWords (args : List Text) : Eval Unit := do
  setStatus 0
  put (echo args)
  let words := if args.head? == some "-n".toList then args.tail else args
  for word in words do changeArea (·.leave (word ++ [' ']))

/-- `printf FORMAT [WORD...]` -/
def writeFormat (args : List Text) : Eval Unit := do
  let (_, args) ← options "" args
  let printed := printf args
  for message in printed.complaints do complain message
  setStatus (if printed.complaints.isEmpty then 0 else 1)
  match printed.failure with
  | none => put printed.text
  | some message => do
    complain message
    put printed.text
    setStatus 2
    throw .failed

end LineShell.Script.Intrinsic
