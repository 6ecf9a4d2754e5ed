import LineShell.Script.Child

/-!
# Finding programs

A program without `/` in its name is looked for in the search path, and the place where it was found is
kept until the search path changes. After a change of the working directory only the places that are
seen from there are looked at again.

* `Run.locate` : the place of a program in the search path;
* `Run.toolOf` : the tool that a command comes down to;
* `Run.describe` : what a name stands for;
* `Run.hash` : the programs whose place is known.
-/

namespace LineShell.Script

open Host

namespace Run

open Eval

/-! ## Places -/

/-- The paths where a name can be found in a search path. -/
def pathsIn (searchPath name : Text) : List Text :=
  if name.contains '/' then [name]
  else (searchPath.splitOnP (· == ':')).map fun d => if d.isEmpty then name else d ++ '/' :: name

def candidates (name : Text) : Eval (List Text) := return pathsIn (← valueD "PATH") name

/-- Whether a search goes on without a word where there is no file. -/
def isMissing (e : SysError) : Bool := e == .notFound || e == .notDirectory

/-- The place, counted from `n` on, of the first path that leads to a node that suits, or why there is
none. -/
def firstPlace (suits : Node → Bool) (n : Nat) (failure : SysError) :
    List Text → Eval (Except SysError Nat)
  | [] => return .error failure
  | path :: rest => do
    changeArea (·.leave (path ++ ['\x00']))
    match ← find path with
    | .ok (_, node) =>
      if suits node then return .ok n else firstPlace suits (n + 1) .accessDenied rest
    | .error e => firstPlace suits (n + 1) (if isMissing e then failure else e) rest

/-- The place of a program that was at the place `old` before the working directory changed. -/
def placeAgain (old n : Nat) (failure : SysError) : List Text → Eval (Except SysError Nat)
  | [] => return .error failure
  | path :: rest => do
    if n < old && Path.isAbsolute path then placeAgain old (n + 1) failure rest
    else if n == old && Path.isAbsolute path then return .ok n
    else match ← find path with
      | .ok (_, node) =>
        if node.isRunnable then return .ok n else placeAgain old (n + 1) .accessDenied rest
      | .error e => placeAgain old (n + 1) (if isMissing e then failure else e) rest

def track (name : Text) (place : Nat) : Eval Unit := modify fun p =>
  let t : Tracked := ⟨name, place, false⟩
  { p with tracked :=
      if p.tracked.any (·.name == name) then p.tracked.map fun u => if u.name == name then t else u
      else p.tracked ++ [t] }

def untrack (name : Text) : Eval Unit := modify fun p =>
  { p with tracked := p.tracked.filter (·.name != name) }

/-- The place that is known of a program. -/
def tracked? (name : Text) : Eval (Option Tracked) := return (← get).tracked.find? (·.name == name)

/-- The place of a program in the search path, or why there is none. -/
def locate (name : Text) : Eval (Except SysError Nat) := do
  let paths ← candidates name
  let search := fun (found : Eval (Except SysError Nat)) => do
    match ← found with
    | .ok place => do
      track name place
      return .ok place
    | .error e => do
      untrack name
      return .error e
  match ← tracked? name with
  | some ⟨_, place, false⟩ => return .ok place
  | some ⟨_, place, true⟩ => search (placeAgain place 0 .notFound paths)
  | none => search (firstPlace Node.isRunnable 0 .notFound paths)

/-! ## Tools -/

/-- How much of a file is looked at to see whether it is a text. -/
def headLength : Nat := 128

/-- Whether the octets of a file begin with a line of text: one without the controls that no text has. -/
def isText (bytes : Bytes) : Bool :=
  ((bytes.take headLength).takeWhile (· != 10)).all fun b =>
    (9 ≤ b && b ≤ 15) || b == 27 || (32 ≤ b && b != 127)

/-- The strings that a program is handed besides its arguments. -/
def handed : Eval (List Text) := return (← exports).map fun v => v.1 ++ '=' :: v.2

/-- The tool that a path comes down to; a text that calls for no interpreter is one for the shell. A file
that can be run is not run as long as it is open to be written. -/
def toolAt (path : Text) (args : List Text) : Eval (Except SysError (Tool × List Text)) := do
  let p ← get
  let strings ← handed
  let found := p.system.tree.program? p.cwd path args strings
  match ← find path with
  | .error _ => return found
  | .ok (id, node) =>
    if node.isRunnable && p.shown.isWritten id then return .error .textBusy
    match found with
    | .error .badFormat =>
      let shell := FileTree.shellPath
      if isText (p.system.tree.bytesOf id) then
        return p.system.tree.program? p.cwd shell (shell :: path :: args.tail) strings
      else return found
    | found => return found

/-- The tool that the first path comes down to which can be run at all. -/
def firstTool (args : List Text) (failure : SysError) :
    List Text → Eval (Except SysError (Tool × List Text))
  | [] => return .error failure
  | path :: rest => do
    match ← toolAt path args with
    | .ok found => return .ok found
    | .error e => firstTool args (if isMissing e then failure else e) rest

/-- The wording of a failure to run something. -/
def reason : SysError → Text
  | .notFound | .notDirectory => "not found".toList
  | e => e.text

/-- The status that a failure to run something leaves. -/
def statusOf : SysError → Nat
  | .notFound | .notDirectory | .tooManyLinks | .nameTooLong => 127
  | _ => 126

/-- A tool with its arguments, or why there is none and the status that this leaves. -/
abbrev ToolFound := Except (SysError × Nat) (Tool × List Text)

/-- The tool that the first of some paths comes down to. -/
def toolIn (argv paths : List Text) : Eval ToolFound := do
  match ← firstTool argv .notFound paths with
  | .ok found => return .ok found
  | .error e => return .error (e, statusOf e)

/-- The tool that a command comes down to. It is looked for in the standard search path if that
`isStandard`. -/
def toolOf (isStandard : Bool) (argv : List Text) : Eval ToolFound := do
  let name := argv.headD []
  if name.contains '/' then toolIn argv [name]
  else
    let paths ← if isStandard then pure (pathsIn standardPath name) else candidates name
    match ← if isStandard then firstPlace Node.isRunnable 0 .notFound paths else locate name with
    | .error e => return .error (e, 127)
    | .ok place => toolIn argv (paths.drop place)

/-! ## Names -/

/-- What a name stands for, for a reader (`isLong`) or as a command. -/
def describe (isIntrinsic : Text → Bool) (isStandard isLong : Bool) (name : Text) : Eval Unit := do
  let say := fun (long : String) (short : Text) => do
    putLine (if isLong then name ++ long.toList else short)
    setStatus 0
  let miss := do
    if isLong then putLine (name ++ ": not found".toList)
    setStatus 127
  let p ← get
  if Token.keywords.contains name then say " is a shell keyword" name
  else if let some value := p.aliases.lookup name then
    if isLong then say (" is an alias for ".append (String.ofList value)) []
    else say "" ("alias ".toList ++ Intrinsic.aliasText name value)
  else if reservedNames.contains name then say " is a special shell builtin" name
  else if p.functions.any (·.1 == name) then say " is a shell function" name
  else if isIntrinsic name then say " is a shell builtin" name
  else if name.contains '/' then
    match ← find name with
    | .ok _ => say (" is ".append (String.ofList name)) name
    | .error _ => miss
  else
    let paths ← if isStandard then pure (pathsIn standardPath name) else candidates name
    let known ← if isStandard then pure none else tracked? name
    let place ← match known with
      | some t => pure (.ok t.place)
      | none =>
        if isStandard then firstPlace Node.isRunnable 0 .notFound paths else locate name
    match place with
    | .error _ => miss
    | .ok place =>
      let path := paths.getD place []
      let relation := if known.isSome then " is a tracked alias for " else " is "
      say (relation.append (String.ofList path)) path

/-- `type NAME...` -/
def describeAll (isIntrinsic : Text → Bool) (names : List Text) : Eval Unit := do
  let mut status := 0
  for name in names do
    describe isIntrinsic false true name
    status := max status (← get).status
  setStatus status

/-- `command -v NAME` and `command -V NAME` -/
def describeCommand (isIntrinsic : Text → Bool) (args : List Text) : Eval Unit := do
  let (os, names) ← Intrinsic.options "pvV" args
  let isLong := Intrinsic.given os 'V'
  match names with
  | name :: _ =>
    if isLong || Intrinsic.given os 'v' then
      describe isIntrinsic (Intrinsic.given os 'p') isLong name
    else setStatus 0
  | [] => setStatus 0

/-- The number by which programs are listed; those of one number are in the order in which they were
found. -/
def programOrder (name : Text) : Nat :=
  (16 * (name.headD '\x00').toNat + (name.map Char.toNat).foldl Nat.add 0) % Nat.pow 2 15 % 31

/-- Looks a program up anew, and tells whether it was found. -/
def lookUp (isIntrinsic : Text → Bool) (name : Text) : Eval Bool := do
  untrack name
  if isIntrinsic name || name.contains '/' || (← get).functions.any (·.1 == name) then return true
  match ← locate name with
  | .ok _ => return true
  | .error e => do
    complain (name ++ ": ".toList ++ reason e)
    return false

/-- `hash [-r] [NAME...]` -/
def hash (isIntrinsic : Text → Bool) (args : List Text) : Eval Unit := do
  let (os, names) ← Intrinsic.options "r" args
  setStatus 0
  if !os.isEmpty then modify ({ · with tracked := [] })
  else if names.isEmpty then
    let ts := (← get).tracked.mergeSort fun a b => programOrder a.name ≤ programOrder b.name
    for t in ts do
      let paths ← candidates t.name
      putLine (paths.getD t.place [] ++ if t.isStale then ['*'] else [])
  else
    for name in names do
      if !(← lookUp isIntrinsic name) then setStatus 1

end Run

end LineShell.Script
