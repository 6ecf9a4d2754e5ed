import LineShell.Table

/-!
# Aliases

An alias gives a command another name. Aliases are entries `NAME=VALUE` in the order in which they
were defined; defining one again moves it to the end.

* `lookup` : the value of an alias;
* `drop` : an alias is removed; `remove` is what that leaves;
* `define?` : a definition `NAME=VALUE`; an empty value removes the alias;
* `render?`, `renderAll` : aliases written `NAME='VALUE'`;
* `follow` : a name followed through the table, a bounded number of times.
-/

namespace LineShell

/-- The aliases in the order in which they were defined. -/
structure AliasTable where
  table : Table
  deriving DecidableEq, Repr

namespace AliasTable

def empty : AliasTable := ⟨.empty⟩

def lookup (a : AliasTable) (name : Text) : Option Text := (a.table.find? name).bind Entry.value

def has (a : AliasTable) (name : Text) : Bool := a.table.entries.any (·.hasName name)

/-- Removes the alias `name`. Whether there was one, and what is left. -/
def drop (a : AliasTable) (name : Text) : Bool × AliasTable :=
  (a.has name, ⟨a.table.removeWhere (·.hasName name)⟩)

def remove (a : AliasTable) (name : Text) : AliasTable := (a.drop name).2

/-- The table after a definition; none if the text has no `=` and so is no definition. -/
def define? (a : AliasTable) (definition : Text) : Option AliasTable :=
  (Text.breakAt '=' definition).map fun (name, value) =>
    if value.isEmpty then a.remove name else ⟨(a.remove name).table.push 0 definition⟩

/-- The table after a definition, the same table if the text is none. -/
def define (a : AliasTable) (definition : Text) : AliasTable := (a.define? definition).getD a

/-- An alias as it is shown. -/
def renderEntry (e : Entry) : Text :=
  match Text.breakAt '=' e.text with
  | some (name, value) => name ++ "='".toList ++ value ++ ['\x27']
  | none => e.text

/-- The alias `name` as it is shown. -/
def render? (a : AliasTable) (name : Text) : Option Text := (a.table.find? name).map renderEntry

def renderAll (a : AliasTable) : List Text := a.table.entries.map renderEntry

/-- The name that `name` leads to through at most `depth` aliases, and how many it took. -/
def follow (a : AliasTable) : Nat → Text → Nat × Text
  | 0, name => (0, name)
  | depth + 1, name =>
    match a.lookup name with
    | none => (0, name)
    | some value => let r := follow a depth value; (r.1 + 1, r.2)

/-- The words with the first one followed through the table, and how many aliases it took. -/
def expand (a : AliasTable) (depth : Nat) : List Text → Nat × List Text
  | [] => (0, [])
  | name :: rest => let r := a.follow depth name; (r.1, r.2 :: rest)

theorem follow_le (a : AliasTable) (depth : Nat) (name : Text) : (a.follow depth name).1 ≤ depth := by
  induction depth generalizing name with
  | zero => simp [follow]
  | succ depth ih =>
    unfold follow
    cases a.lookup name with
    | none => simp
    | some value => exact Nat.succ_le_succ (ih value)

@[simp] theorem length_expand (a : AliasTable) (depth : Nat) (ws : List Text) :
    (a.expand depth ws).2.length = ws.length := by
  cases ws <;> rfl

end AliasTable

end LineShell
