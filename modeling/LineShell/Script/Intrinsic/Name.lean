import LineShell.Script.Intrinsic.Argument

/-!
# Names

The commands that say what names stand for.

* `Intrinsic.list` : lists variables;
* `Intrinsic.exportVars`, `readonly`, `keepLocal`, `unset` : variables and functions;
* `Intrinsic.defineAliases`, `dropAliases` : the texts that words stand for.
-/

namespace LineShell.Script.Intrinsic

open Eval

/-! ## Variables -/

def comesFirst (a b : Text) : Bool := !comesBefore b a

/-- Lists variables in order, each behind the words that would set it again. -/
def list (words : Text) (vs : List Var) : Eval Unit := do
  for v in vs.mergeSort (fun a b => comesFirst a.name b.name) do
    put (words ++ v.name)
    if let some value := v.value then put ('=' :: quote value)
    put ['\n']
  setStatus 0

/-- The name and the value of an argument; no value without `=`. -/
def splitArg (t : Text) : Text × Option Text :=
  match Text.breakAt '=' t with
  | some (name, value) => (name, some value)
  | none => (t, none)

/-- `export` and `readonly`, the commands that give variables the property `mark`. -/
def declare (command : String) (has : Var → Bool) (mark : Var → Var) (args : List Text) :
    Eval Unit := do
  let (os, rest) ← options "p" args
  if given os 'p' || rest.isEmpty then
    list (command.toList ++ [' ']) ((← get).vars.filter has)
  else
    for arg in rest do
      let (name, value) := splitArg arg
      if let some value := value then
        if isName name then setVar name value
      changeVar name mark
    setStatus 0

/-- `export [-p] [NAME[=VALUE]...]` -/
def exportVars : List Text → Eval Unit :=
  declare "export" (·.exported) ({ · with exported := true })

/-- `readonly [-p] [NAME[=VALUE]...]` -/
def readonly : List Text → Eval Unit :=
  declare "readonly" (·.fixed) ({ · with fixed := true })

/-- `local [NAME[=VALUE]...]`, where `-` is short for the options. -/
def keepLocal (args : List Text) : Eval Unit := do
  if (← get).saved.isEmpty then fail "not in a function".toList
  for arg in args do
    if arg == ['-'] then keep (.options (← get).options)
    else
      let (name, value) := splitArg arg
      if !isName name then failName name
      keepVar name
      if let some value := value then setVar name value
  setStatus 0

/-- `unset [-fv] NAME...` -/
def unset (args : List Text) : Eval Unit := do
  let (os, rest) ← options "vf" args
  for name in rest do
    if given os 'f' then
      modify fun p => { p with functions := p.functions.filter (·.1 != name) }
    else unsetVar name
  setStatus 0

/-! ## Texts that words stand for -/

/-- A name with the text that it stands for, as a command that would say so again. -/
def aliasText (name value : Text) : Text := name ++ '=' :: quote value

/-- The number by which names are listed; those of one number are in the order of their definitions. -/
def aliasOrder (name : Text) : Nat :=
  (16 * (name.headD '\x00').toNat + (name.map Char.toNat).foldl Nat.add 0) % 39

/-- Complains about a name that stands for no text. -/
def missAlias (command : String) (name : Text) : Eval Unit := do
  writeTo 2 (command.toList ++ ": ".toList ++ name ++ " not found\n".toList)
  setStatus 1

/-- Lets a name stand for a text. -/
def setAlias (name value : Text) : Eval Unit := modify fun p =>
  let isThere := (p.aliases.lookup name).isSome
  { p with aliases :=
      if isThere then p.aliases.map fun a => if a.1 == name then (name, value) else a
      else p.aliases ++ [(name, value)] }

/-- `alias [NAME[=TEXT]...]` -/
def defineAliases (args : List Text) : Eval Unit := do
  setStatus 0
  if args.isEmpty then
    for (name, value) in (← get).aliases.mergeSort fun a b => aliasOrder a.1 ≤ aliasOrder b.1 do
      putLine (aliasText name value)
  for arg in args do
    match Text.breakAt '=' arg.tail with
    | some (name, value) => setAlias (arg.take 1 ++ name) value
    | none =>
      match (← get).aliases.lookup arg with
      | some value => putLine (aliasText arg value)
      | none => missAlias "alias" arg

/-- `unalias [-a] [NAME...]` -/
def dropAliases (args : List Text) : Eval Unit := do
  let (os, names) ← options "a" args
  setStatus 0
  if given os 'a' then modify ({ · with aliases := [] })
  else
    for name in names do
      if ((← get).aliases.lookup name).isSome then
        modify fun p => { p with aliases := p.aliases.filter (·.1 != name) }
      else missAlias "unalias" name

end LineShell.Script.Intrinsic
