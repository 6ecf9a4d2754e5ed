import LineShell.Text.Basic

/-!
# Limits of a process

What a process may use of the things that the system counts: each has a limit that is kept to and a
greatest one that it can be raised to.

* `Limit.kinds` : the things that there are limits for;
* `Limits.get` : the limit for one of them.
-/

namespace LineShell.Script

/-- A limit, in the units of the system; none where there is no end. -/
structure Limit where
  soft : Option Nat
  hard : Option Nat
  deriving DecidableEq, Repr

/-- Something that there is a limit for. -/
structure LimitKind where
  letter : Char
  name : String
  /-- How many units of the system make one of those that are told. -/
  unit : Nat
  /-- The limit of a process that nothing has been said about. -/
  usual : Limit

namespace Limit

def endless : Limit := ⟨none, none⟩

/-- The same limit for both. -/
def same (n : Nat) : Limit := ⟨some n, some n⟩

def fileSize : LimitKind := ⟨'f', "file(blocks)", 512, endless⟩

def kinds : List LimitKind :=
  [⟨'t', "time(seconds)", 1, endless⟩, fileSize,
    ⟨'d', "data(kbytes)", 1024, endless⟩, ⟨'s', "stack(kbytes)", 1024, ⟨some (8192 * 1024), none⟩⟩,
    ⟨'c', "coredump(blocks)", 512, endless⟩, ⟨'m', "memory(kbytes)", 1024, endless⟩,
    ⟨'l', "locked memory(kbytes)", 1024, same (8192 * 1024)⟩, ⟨'p', "process", 1, endless⟩,
    ⟨'n', "nofiles", 1, same 1048576⟩, ⟨'v', "vmemory(kbytes)", 1024, endless⟩,
    ⟨'w', "locks", 1, endless⟩, ⟨'r', "rtprio", 1, same 0⟩]

def isWithin (a b : Option Nat) : Bool :=
  match a, b with
  | _, none => true
  | none, some _ => false
  | some m, some n => m ≤ n

end Limit

/-- The limits that a process has been given, by their letters. -/
abbrev Limits := List (Char × Limit)

namespace Limits

def get (ls : Limits) (k : LimitKind) : Limit := (ls.lookup k.letter).getD k.usual

def put (ls : Limits) (k : LimitKind) (l : Limit) : Limits :=
  (k.letter, l) :: ls.filter (·.1 != k.letter)

end Limits

end LineShell.Script
