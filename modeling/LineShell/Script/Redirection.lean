import LineShell.Script.Expand

/-!
# Redirections

A redirection is worked out first (`Redirect.prepare`) and then carried out (`Ready.apply`). What goes
wrong in the second step concerns the command that it belongs to alone.
-/

namespace LineShell.Script

open Host

/-- A redirection with its words worked out. -/
inductive Ready where
  | file (fd : Nat) (how : Opening) (path : Text)
  | duplicate (fd : Nat) (source : Option Nat)
  | text (fd : Nat) (body : Text)
  deriving DecidableEq, Repr

/-- The complaint about a descriptor that there cannot be. It is about the line that the text has been
read up to. -/
def failDescriptor {α : Type} : Eval α := do
  modify fun p => { p with line := p.reached }
  Eval.fail "Syntax error: Bad fd number".toList

/-- Works out the words of a redirection. -/
def Redirect.prepare (outputOf : Command → Eval Text) : Redirect → Eval Ready
  | .file fd how w => do
    let path ← Expand.text outputOf w
    Eval.changeArea (·.layText path)
    return .file fd how path
  | .text fd w => return .text fd (← Expand.document outputOf w)
  | .duplicate fd w => do
    match ← Expand.text outputOf w with
    | ['-'] => return .duplicate fd none
    | [c] =>
      if Text.isDigit c then return .duplicate fd (some (Text.digitsValue [c]))
      else failDescriptor
    | _ => failDescriptor

namespace Ready

/-- The wording of a failure to open a file, or to make one. -/
def reason (makes : Bool) : SysError → Text
  | .notFound | .notDirectory => (if makes then "Directory nonexistent" else "No such file").toList
  | e => e.text

/-- The complaint about a file that cannot be opened. -/
def failOpen {α : Type} (makes : Bool) (path : Text) (e : SysError) : Eval α :=
  Eval.fail ((if makes then "cannot create " else "cannot open ").toList ++ path ++ ": ".toList ++
    reason makes e)

/-- Lets a descriptor lead to what another one does, opened anew as `o` says. What was written to a file so
far can be read from its beginning. -/
def reopen (makes : Bool) (fd source : Nat) (path : Text) (o : Opened) : Eval Unit := do
  let p ← get
  match p.fds.lookup source with
  | none => failOpen makes path .notFound
  | some id =>
    match p.system.opened[id]? with
    | some { target := .node node, .. } =>
      if !((!o.reads || p.system.tree.allows .read node) && (!o.writes || p.system.tree.allows .write node))
      then failOpen makes path .accessDenied
      Eval.openAt fd { o with target := .node node }
    | some { target := .pipe k, .. } => Eval.openAt fd { o with target := .pipe k }
    | some { target := .stream stream, .. } =>
      if o.reads then
        let bytes := ((p.system.written.reverse.filter (·.1 == stream)).map (·.2)).flatten
        Eval.setDescriptor fd (some (← Eval.openPipe bytes).1)
      else Eval.setDescriptor fd (some id)
    | none => failOpen makes path .notFound

/-- Lets a descriptor lead to a node, which is opened as `o` says. A node that stands for a descriptor of
the process is what that one leads to. -/
def openNode (makes : Bool) (fd : Nat) (path : Text) (node : Nat) (o : Opened) : Eval Unit := do
  match (← get).system.tree.node? node with
  | some (.device .terminal) => failOpen makes path .noSuchDevice
  | some (.descriptor n) => reopen makes fd n path o
  | _ => Eval.openAt fd { o with target := .node node }

/-- Lets a descriptor lead to a file that is read. -/
def openToRead (fd : Nat) (path : Text) : Eval Unit := do
  let p ← get
  match p.system.tree.findReadable p.cwd path with
  | .ok (node, _) => openNode false fd path node (Target.node node).toRead
  | .error e => failOpen false path e

/-- The permission bits of a new file before the mask is taken off. -/
def newMode : Nat := 0o666

/-- Lets a descriptor lead to a file that is written. -/
def openToWrite (fd : Nat) (how : Opening) (path : Text) : Eval Unit := do
  let p ← get
  let keeps := how == .writing && p.options.contains 'C'
  if keeps && (p.system.tree.find p.cwd path).toOption.any (·.2.isRegular) then
    failOpen true path .fileExists
  let mode := newMode &&& (0o777 ^^^ p.mask)
  match p.system.tree.create p.cwd path mode with
  | .error e => failOpen true path e
  | .ok (node, tree) =>
    let isNew := p.system.tree.nodes.size ≤ node
    if how == .both && !isNew && !tree.allows .read node then failOpen true path .accessDenied
    Eval.setTree tree
    openNode true fd path node
      { target := .node node, reads := how == .both, writes := true, appends := how == .appending }
    if how == .writing || how == .overwriting then
      modify fun p => match (p.fds.lookup fd).bind (p.system.opened[·]?) with
        | some { target := .node node, .. } =>
          { p with system := { p.system with tree := p.system.tree.setBytes node [] } }
        | _ => p

def apply : Ready → Eval Unit
  | file fd .reading path => openToRead fd path
  | file fd how path => openToWrite fd how path
  | duplicate fd none => Eval.setDescriptor fd none
  | duplicate fd (some source) => do
    match ← Eval.descriptor? source with
    | some id => Eval.setDescriptor fd (some id)
    | none => Eval.fail (Text.ofNat source ++ ": ".toList ++ SysError.badDescriptor.text)
  | text fd body => do Eval.setDescriptor fd (some (← Eval.openPipe (Text.toOctets body)).1)

/-- Whether a redirection leaves everything as it is. -/
def isIdle : Ready → Bool
  | duplicate fd (some source) => fd == source
  | _ => false

def fd : Ready → Nat
  | file fd .. | duplicate fd _ | text fd _ => fd

/-- Carries redirections out in order. Where descriptors are set aside first, each is closed by that, which is
before a duplicate takes its place. -/
def applyFrom (sets : Bool) : List Nat → List Ready → Eval Unit
  | _, [] => return
  | aside, r :: rs => do
    if r.isIdle then applyFrom sets aside rs
    else
      if sets && r matches .duplicate .. && !aside.contains r.fd then Eval.setDescriptor r.fd none
      r.apply
      applyFrom sets (r.fd :: aside) rs

/-- Sets descriptors aside and carries redirections out in order, and tells whether that could be done. -/
def applyAll (rs : List Ready) : Eval Bool := do
  try
    applyFrom true [] rs
    return true
  catch
    | .failed => return false
    | e => throw e

end Ready

end LineShell.Script
