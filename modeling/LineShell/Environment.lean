import LineShell.Table
import LineShell.Text.Utf8

/-!
# The environment

The shell's variables are entries `NAME=VALUE` in the order in which they were added. Children see
`Environment.snapshot`, the list of pairs, which is kept until a variable changes.

* `get?`, `set`, `drop` : reading and changing variables; `unset` is what `drop` leaves;
* `pairs` : the pairs that the entries stand for;
* `snapshot` : `pairs`, rebuilt only when a change has made the kept list stale;
* `ofInherited` : the variables that a process starts with;
* `splitInherited` : an inherited octet string as a name and a value.
-/

namespace LineShell

/-- The variables, with the list last handed to a child and whether it is stale. -/
structure Environment where
  vars : Table
  kept : List (Text × Text)
  stale : Bool
  deriving DecidableEq, Repr

namespace Environment

def empty : Environment := ⟨.empty, [], true⟩

/-- The value of the first entry called `name`. -/
def get? (env : Environment) (name : Text) : Option Text := (env.vars.find? name).bind Entry.value

/-- `name=value` in the place of the first entry called `name`, or behind the others. -/
def set (env : Environment) (name value : Text) : Environment :=
  let text := name ++ '=' :: value
  let vars := match env.vars.position? name with
    | some i => (env.vars.setText? i text).getD env.vars
    | none => env.vars.push 0 text
  { env with vars, stale := true }

def has (env : Environment) (name : Text) : Bool := env.vars.entries.any (·.hasName name)

/-- Removes every entry called `name`. Whether there was one, and what is left. -/
def drop (env : Environment) (name : Text) : Bool × Environment :=
  if env.has name then
    (true, { env with vars := env.vars.removeWhere (·.hasName name), stale := true })
  else (false, env)

def unset (env : Environment) (name : Text) : Environment := (env.drop name).2

/-- Each entry split at its first `=`, entries without a name left out. -/
def pairs (env : Environment) : List (Text × Text) :=
  (env.vars.texts.filterMap (Text.breakAt '=')).filter (!·.1.isEmpty)

/-- The environment with its kept list brought up to date. -/
def refresh (env : Environment) : Environment :=
  if env.stale then { env with kept := env.pairs, stale := false } else env

/-- The pairs that a child is given. -/
def snapshot (env : Environment) : List (Text × Text) := env.refresh.kept

/-- Variables set one after another in an empty environment. -/
def ofPairs (ps : List (Text × Text)) : Environment :=
  ps.foldl (fun env p => env.set p.1 p.2) empty

/-! ## Inheritance -/

/-- An inherited octet string as a name and a value: they part at the first `=` behind the first
octet, so that a name may begin with one. None if there is no such `=`. -/
def splitInherited : Bytes → Option (Bytes × Bytes)
  | [] => none
  | b :: rest =>
    match rest.dropWhile (· != 61) with
    | [] => none
    | _ :: value => some (b :: rest.takeWhile (· != 61), value)

/-- The entry of an inherited pair; none if its name or its value is not UTF-8. -/
def inheritedText? (p : Bytes × Bytes) : Option Text := do
  let name ← Utf8.decode? p.1
  let value ← Utf8.decode? p.2
  return name ++ '=' :: value

/-- The variables that a process inherits, one entry for each pair of texts, in order. -/
def ofInherited (ps : List (Bytes × Bytes)) : Environment :=
  (ps.filterMap inheritedText?).foldl (fun env t => { env with vars := env.vars.push 0 t }) empty

theorem unset_eq_ite (env : Environment) (name : Text) : env.unset name =
    if env.has name then { env with vars := env.vars.removeWhere (·.hasName name), stale := true }
    else env := by
  unfold unset drop
  split <;> rfl

theorem drop_eq (env : Environment) (name : Text) : env.drop name = (env.has name, env.unset name) := by
  unfold unset drop
  cases env.has name <;> rfl

end Environment

end LineShell
