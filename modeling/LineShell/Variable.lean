import LineShell.Environment
import LineShell.Line.Chain

/-!
# Variables in words

A word that is `$` and at least one character stands for a value: `$?` for the last status, `$$` for
the shell's process, `$NAME` for a variable, the empty text if it is unset. All other words stand
for themselves, a lone `$` among them. A value is never looked at again.
-/

namespace LineShell

/-- What the words of a command can refer to. -/
structure Scope where
  env : Environment
  status : Status
  pid : Nat

namespace Scope

/-- The value of the name behind a `$`. -/
def value (s : Scope) (name : Text) : Text :=
  if name = ['?'] then Text.ofInt s.status
  else if name = ['$'] then Text.ofNat s.pid
  else (s.env.get? name).getD []

/-- The text that a word stands for. -/
def expandWord (s : Scope) : Text → Text
  | '$' :: c :: name => s.value (c :: name)
  | word => word

def expand (s : Scope) (words : List Text) : List Text := words.map s.expandWord

@[simp] theorem length_expand (s : Scope) (words : List Text) :
    (s.expand words).length = words.length := by simp [expand]

end Scope

end LineShell
