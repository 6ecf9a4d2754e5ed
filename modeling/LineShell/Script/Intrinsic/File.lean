import LineShell.Host.Program
import LineShell.Script.Intrinsic.Argument

/-!
# Directories and files

* `Intrinsic.change` : makes a directory the working directory;
* `Intrinsic.cd`, `pwd` : the working directory;
* `Intrinsic.check` : tests, among them those of files.
-/

namespace LineShell.Script.Intrinsic

open Eval

/-! ## The working directory -/

/-- The slashes that an absolute path begins with: two are kept, and any other number is as good as
one. -/
def slashes (path : Text) : Text :=
  let n := (path.takeWhile (· == '/')).length
  if n = 2 then ['/', '/'] else ['/']

/-- The names of a path seen from others, walked one by one: `..` takes the last one back. -/
def walk (names : List Text) : List Text → List Text
  | [] => names.reverse
  | name :: rest =>
    if Path.isHere name then walk names rest
    else if Path.isAbove name then walk names.tail rest
    else walk (name :: names) rest

/-- A path seen from the directory `dir`, without `.` and `..`. -/
def resolved (dir path : Text) : Text :=
  let whole := if Path.isAbsolute path then path else Path.join dir path
  slashes whole ++ ((walk [] (Path.parts whole)).intersperse ['/']).flatten

/-- The paths where `cd` looks for a directory, each with whether it says where it went. -/
def destinations (path : Text) : Eval (List (Text × Bool)) := do
  let isPlain := match Path.parts path with
    | name :: _ => !Path.isAbsolute path && name != ['.'] && !Path.isAbove name
    | [] => false
  match ← value? "CDPATH".toList, isPlain with
  | some dirs, true =>
    return (dirs.splitOnP (· == ':')).map fun d =>
      if d.isEmpty then (path, false) else (Path.join d path, true)
  | _, _ => return [(path, false)]

/-- Makes the directory at a path the working directory, and tells whether that could be done. -/
def change (path : Text) (isPhysical : Bool) : Eval Bool := do
  let p ← get
  let path := if path.isEmpty then ['.'] else path
  let target :=
    if isPhysical || (p.dir.isEmpty && !Path.isAbsolute path) then path else resolved p.dir path
  match p.system.tree.enterable p.cwd target with
  | .error _ => return false
  | .ok cwd =>
    let there := (p.system.tree.pathOf? cwd).getD []
    let dir := if Path.isAbsolute target && !isPhysical then target else there
    modify ({ · with cwd, dir, tracked := p.tracked.map ({ · with isStale := true }) })
    setExported "OLDPWD" p.dir
    setExported "PWD" dir
    return true

/-- `cd [-LP] [DIRECTORY]` -/
def cd (args : List Text) : Eval Unit := do
  let (os, rest) ← options "LP" args
  let isPhysical := os.getLast?.any (·.1 == 'P')
  let isBack := rest.head? == some ['-']
  let dest ← if isBack then valueD "OLDPWD" else match rest with
    | d :: _ => pure d
    | [] => valueD "HOME"
  let p ← get
  let places ← destinations dest
  let found := places.find? fun (path, _) =>
    (p.system.tree.findDirectory p.cwd path).toOption.isSome
  let (path, tells) := found.getD (dest, false)
  if !(← change path isPhysical) then fail ("can't cd to ".toList ++ dest)
  if isBack || tells then putLine (← get).dir
  setStatus 0

/-- `pwd [-LP]` -/
def pwd (args : List Text) : Eval Unit := do
  let (os, _) ← options "LP" args
  let p ← get
  let physical := (p.system.tree.pathOf? p.cwd).getD []
  putLine (if os.getLast?.any (·.1 == 'P') then physical else p.dir)
  setStatus 0

/-! ## Tests -/

/-- What a path leads to for a test. -/
inductive Seen where
  | node (id : Nat) (n : Host.Node)
  | pipe (id : Nat)
  /-- A stream that goes to a file, which may have been written to. -/
  | stream (s : Stream) (isWritten : Bool)
  deriving DecidableEq, Repr

/-- What a path leads to. What stands for a descriptor of the process is what that one leads to. -/
def seen? (p : Process) (path : Text) : Option Seen :=
  match p.system.tree.find p.cwd path with
  | .ok (_, .descriptor fd) =>
    match (p.fds.lookup fd).bind (p.system.opened[·]?) with
    | some { target := .node id, .. } => (p.system.tree.node? id).map (.node id)
    | some { target := .pipe k, .. } => some (.pipe (k + 2))
    | some { target := .stream s, .. } =>
      if p.system.isFiled then some (.stream s (p.system.streamSize s ≠ 0))
      else some (.pipe (if s = .out then 0 else 1))
    | none => none
  | .ok (id, n) => some (.node id n)
  | .error _ => none

/-- The permission bit that a letter asks for. -/
def modeBit : Char → Nat
  | 'u' => 0o4000
  | 'g' => 0o2000
  | 'k' => 0o1000
  | 'r' => 0o400
  | 'w' => 0o200
  | _ => 0o100

def isLink (p : Process) (path : Text) : Bool :=
  match p.system.tree.locate p.cwd .bearer path with
  | .ok (.node id) => (p.system.tree.node? id matches some (.link _))
  | _ => false

/-- Whether what a path leads to has the property that a letter stands for. -/
def Seen.has (letter : Char) : Seen → Bool
  | .pipe _ => "eprwOG".toList.contains letter
  | .stream _ isWritten => "efrwOG".toList.contains letter || (letter == 's' && isWritten)
  | .node _ n =>
    match letter, n with
    | 'e', _ => true
    | 'f', n => n.isRegular
    | 'd', n => (n matches .directory ..)
    | 'c', n => (n matches .device _)
    | 's', .file _ bytes => !bytes.isEmpty
    | 's', n => !(n matches .device _)
    | 'O', _ | 'G', _ => true
    | letter, n => "rwxugk".toList.contains letter && n.mode &&& modeBit letter != 0

/-- What tests can ask about a process. -/
def view (p : Process) : TestView where
  has letter path :=
    if letter == 'h' || letter == 'L' then isLink p path else (seen? p path).any (·.has letter)
  same a b := match seen? p a, seen? p b with
    | some (.node x _), some (.node y _) | some (.pipe x), some (.pipe y) => x == y
    | some (.stream x _), some (.stream y _) => x = y
    | _, _ => false
  isLittered := p.area.isLittered

/-- Does what the truth of a test comes to. -/
def conclude : Tested Bool → Eval Unit
  | .ok truth => setTruth truth
  | .error (.complaint message) => fail message
  | .error .astray => throw (.killed Signal.badAddress)

/-- `test EXPRESSION` -/
def check (args : List Text) : Eval Unit := do conclude (test (view (← get)) args)

/-- `[ EXPRESSION ]` -/
def checkBracketed (args : List Text) : Eval Unit := do
  if args.getLast? == some [']'] then conclude (test (view (← get)).enclosed args.dropLast)
  else fail "missing ]".toList

end LineShell.Script.Intrinsic
