import LineShell.Machine
import LineShell.Path

/-!
# File trees

Files, directories and links under one root, each known by its number. A directory lists the names
in it; a name that is removed leaves its node behind, so that a removed directory can still be the
working directory of a process. Names and paths are texts of octets.

All files and all processes belong to one user, whose rights to a node are told by the first three of its
permission bits and by nothing else.

* `Node`, `Right`, `FileTree` : what there is, and what the user may do with it;
* `Purpose`, `Place` : what a path is looked up for, and where it leads;
* `FileTree.walk` : the place that a list of names leads to, links followed a bounded number of times;
* `FileTree.locate`, `find` : the place and the node that a path leads to;
* `FileTree.pathOf?` : the path of a directory;
* `FileTree.create`, `makeFile`, `makeDirectories`, `makeLink`, `removeDirectory` : changes.
-/

namespace LineShell.Host

/-- Programs that the host knows how to run without a file of instructions. -/
inductive Tool where
  | shell
  | echo
  | succeed
  | fail
  deriving DecidableEq, Repr

/-- Files that hold nothing, whatever is written to them. -/
inductive Device where
  /-- Takes everything. -/
  | null
  /-- Has no room for anything. -/
  | full
  /-- Belongs to a terminal that is not there. -/
  | terminal
  deriving DecidableEq, Repr

/-- What a number in a tree stands for. -/
inductive Node where
  /-- A file with its permission bits. -/
  | file (mode : Nat) (bytes : Bytes)
  | tool (tool : Tool)
  /-- A directory in `parent` with its permission bits, and the names in it. -/
  | directory (mode parent : Nat) (entries : List (Text × Nat)) (removed : Bool)
  | link (target : Text)
  | device (device : Device)
  /-- What the descriptor `fd` of the process that asks leads to. -/
  | descriptor (fd : Nat)
  deriving DecidableEq, Repr

def Node.isRegular : Node → Bool
  | .file .. | .tool _ => true
  | _ => false

/-- What the user may be allowed to do with a node: to run a directory is to walk through it. -/
inductive Right where
  | read
  | write
  | run
  deriving DecidableEq, Repr

/-- The permission bit that gives a right to the user. -/
def Right.bit : Right → Nat
  | read => 0o400
  | write => 0o200
  | run => 0o100

def directoryMode : Nat := 0o755

def Node.mode : Node → Nat
  | .file mode _ | .directory mode .. => mode
  | .tool _ => 0o755
  | .link _ => 0o777
  | .device _ => 0o666
  | .descriptor _ => 0o700

def Node.allows (r : Right) (n : Node) : Bool := n.mode &&& r.bit != 0

/-- Nodes by number; number zero is the root. -/
structure FileTree where
  nodes : Array Node

/-- What a path is looked up for. -/
inductive Purpose where
  /-- For what it leads to, links followed. -/
  | target
  /-- For what bears the path's last name, a link standing for itself. -/
  | bearer
  /-- For a file to write, which may have to be made. -/
  | writing
  deriving DecidableEq, Repr

/-- Where a path leads. -/
inductive Place where
  | node (id : Nat)
  /-- To a name that is free in an existing directory. -/
  | vacant (directory : Nat) (name : Text)
  deriving DecidableEq, Repr

namespace FileTree

/-- A root directory and nothing else. -/
def empty : FileTree := ⟨#[.directory directoryMode 0 [] false]⟩

def root : Nat := 0

def node? (t : FileTree) (id : Nat) : Option Node := t.nodes[id]?

def setNode (t : FileTree) (id : Nat) (n : Node) : FileTree := ⟨t.nodes.setIfInBounds id n⟩

def allows (t : FileTree) (r : Right) (id : Nat) : Bool := (t.node? id).any (·.allows r)

/-! ## Paths -/

def maxNameLength : Nat := 255

def maxPathLength : Nat := 4095

def maxLinks : Nat := 40

/-- The directory that a path is seen from. -/
def startOf (cwd : Nat) (path : Text) : Nat := if Path.isAbsolute path then root else cwd

/-- The place that names lead to from the node `cur`, through at most `links` links. No name leads on
from a node that is no directory, not even the empty one. A file to write cannot be called by a
name with a `/` behind it, whether or not it is there. -/
def walk (t : FileTree) (p : Purpose) (links cur : Nat) : List Text → Except SysError Place
  | [] => .ok (.node cur)
  | name :: rest =>
    match t.node? cur with
    | some (.directory mode parent entries removed) =>
      if name.isEmpty then walk t p links cur rest
      else if mode &&& Right.run.bit = 0 then .error .accessDenied
      else if Path.isHere name then walk t p links cur rest
      else if Path.isAbove name then walk t p links parent rest
      else if p = .writing && rest = [[]] then .error .isDirectory
      else if name.length > maxNameLength then .error .nameTooLong
      else match (if removed then none else entries.lookup name) with
        | none => if rest.isEmpty && !removed then .ok (.vacant cur name) else .error .notFound
        | some id =>
          match t.node? id with
          | some (.link target) =>
            if rest.isEmpty && p = .bearer then .ok (.node id)
            else match links with
              | 0 => .error .tooManyLinks
              | links + 1 => walk t p links (startOf cur target) (Path.parts target ++ rest)
          | _ => walk t p links id rest
    | _ => .error .notDirectory
  termination_by names => (links, names.length)

/-- The place that a path leads to from the directory `cwd`. -/
def locate (t : FileTree) (cwd : Nat) (p : Purpose) (path : Text) : Except SysError Place :=
  if path.contains '\x00' then .error .nulInPath
  else if path.isEmpty then .error .notFound
  else if path.length > maxPathLength then .error .nameTooLong
  else t.walk p maxLinks (startOf cwd path) (Path.parts path)

/-- The node that a path leads to, links followed. -/
def find (t : FileTree) (cwd : Nat) (path : Text) : Except SysError (Nat × Node) :=
  match t.locate cwd .target path with
  | .error e => .error e
  | .ok (.vacant ..) => .error .notFound
  | .ok (.node id) => match t.node? id with
    | none => .error .notFound
    | some n => .ok (id, n)

/-- The node that a path leads to, if the user may read it. -/
def findReadable (t : FileTree) (cwd : Nat) (path : Text) : Except SysError (Nat × Node) :=
  match t.find cwd path with
  | .error e => .error e
  | .ok (id, n) => if n.allows .read then .ok (id, n) else .error .accessDenied

/-- The number of the directory that a path leads to. -/
def findDirectory (t : FileTree) (cwd : Nat) (path : Text) : Except SysError Nat :=
  match t.find cwd path with
  | .error e => .error e
  | .ok (id, .directory ..) => .ok id
  | .ok _ => .error .notDirectory

/-- The number of the directory that a path leads to, if the user may walk through it. -/
def enterable (t : FileTree) (cwd : Nat) (path : Text) : Except SysError Nat :=
  match t.findDirectory cwd path with
  | .error e => .error e
  | .ok id => if t.allows .run id then .ok id else .error .accessDenied

/-- The name of a node in a directory's list. -/
def nameIn (entries : List (Text × Nat)) (id : Nat) : Option Text :=
  (entries.find? (·.2 == id)).map (·.1)

/-- The path of a directory, `tail` behind it; none if it or a directory above it has been removed. -/
def pathFrom? (t : FileTree) : Nat → Nat → Text → Option Text
  | 0, _, _ => none
  | fuel + 1, id, tail =>
    if id = root then some (if tail.isEmpty then ['/'] else tail)
    else match t.node? id with
      | some (.directory _ parent _ false) =>
        match t.node? parent with
        | some (.directory _ _ entries _) =>
          (nameIn entries id).bind fun name => pathFrom? t fuel parent ('/' :: name ++ tail)
        | _ => none
      | _ => none

def pathOf? (t : FileTree) (id : Nat) : Option Text := t.pathFrom? t.nodes.size id []

/-! ## Changes -/

/-- A new node called `name` in a directory. -/
def add (t : FileTree) (directory : Nat) (name : Text) (n : Node) : FileTree :=
  match t.node? directory with
  | some (.directory mode parent entries removed) =>
    let t' : FileTree := ⟨t.nodes.push n⟩
    t'.setNode directory (.directory mode parent (entries ++ [(name, t.nodes.size)]) removed)
  | _ => t

/-- A path without the `/` at its end. -/
def unslashed (path : Text) : Text := (path.reverse.dropWhile (· == '/')).reverse

/-- The tree with a new directory at a path, where there is nothing yet. -/
def makeDirectory (t : FileTree) (cwd : Nat) (path : Text) : Except SysError FileTree :=
  if path == ['/'] then .error .fileExists
  else match t.locate cwd .bearer (unslashed path) with
    | .error e => .error e
    | .ok (.node _) => .error .fileExists
    | .ok (.vacant directory name) =>
      if t.allows .write directory then .ok (t.add directory name (.directory directoryMode directory [] false))
      else .error .accessDenied

/-- The tree in which a path leads to a directory, if that can be had, and whether it does. What is
missing above it is made first. -/
def makeDirectoriesFrom (t : FileTree) (cwd : Nat) : Nat → Text → FileTree × Bool
  | 0, _ => (t, false)
  | n + 1, path =>
    let finish := fun (t : FileTree) => match t.makeDirectory cwd path with
      | .ok t => (t, true)
      | .error _ => (t, (t.findDirectory cwd path).toOption.isSome)
    match path.isEmpty, t.makeDirectory cwd path, Path.above? path with
    | true, _, _ => (t, true)
    | _, .error .notFound, some above =>
      match makeDirectoriesFrom t cwd n above with
      | (t, true) => finish t
      | (t, false) => (t, false)
    | _, _, _ => finish t

/-- The tree in which a path leads to a directory, if that can be had. -/
def makeDirectories (t : FileTree) (cwd : Nat) (path : Text) : FileTree :=
  (t.makeDirectoriesFrom cwd (path.length + 1) path).1

/-- The tree in which the directories above a path exist, if that can be had. -/
def makeParents (t : FileTree) (cwd : Nat) (path : Text) : FileTree :=
  match Path.above? path with
  | some above => t.makeDirectories cwd above
  | none => t

/-- The number of the file to write that a path names. A file that is missing is made, empty and with
the permission bits `mode`. -/
def create (t : FileTree) (cwd : Nat) (path : Text) (mode : Nat) : Except SysError (Nat × FileTree) :=
  match t.locate cwd .writing path with
  | .error e => .error e
  | .ok (.vacant directory name) =>
    if t.allows .write directory then .ok (t.nodes.size, t.add directory name (.file mode []))
    else .error .accessDenied
  | .ok (.node id) => match t.node? id with
    | none | some (.link _) => .error .notFound
    | some (.directory ..) => .error .isDirectory
    | some (.device .terminal) => .error .noSuchDevice
    | some (.tool _) => .error .textBusy
    | some n => if n.allows .write then .ok (id, t) else .error .accessDenied

def setBytes (t : FileTree) (id : Nat) (bytes : Bytes) : FileTree :=
  match t.node? id with
  | some (.file mode _) => t.setNode id (.file mode bytes)
  | _ => t

/-- The octets of a file; none for a node that has none. -/
def bytesOf (t : FileTree) (id : Nat) : Bytes :=
  match t.node? id with
  | some (.file _ bytes) => bytes
  | _ => []

/-- The permission bits of a file that is made without being told any. -/
def usualMode : Nat := 0o644

/-- The tree in which a path names a file with the given permission bits and octets; the tree as it
is if that cannot be. -/
def makeFile (t : FileTree) (cwd : Nat) (path : Text) (mode : Nat) (bytes : Bytes) : FileTree :=
  match t.create cwd path mode with
  | .ok (id, t) => match t.node? id with
    | some (.file ..) => t.setNode id (.file mode bytes)
    | _ => t
  | .error _ => t

def maxTargetLength : Nat := 4095

/-- A link to `target`, where there is nothing yet. -/
def makeLink (t : FileTree) (cwd : Nat) (path target : Text) : FileTree :=
  match t.locate cwd .bearer path with
  | .ok (.vacant directory name) =>
    if !t.allows .write directory || target.isEmpty || maxTargetLength < target.length then t
    else t.add directory name (.link target)
  | _ => t

/-- The tree without a directory, which has to be empty. -/
def removeNode (t : FileTree) (id : Nat) : Except SysError FileTree :=
  match t.node? id with
  | some (.directory mode parent [] false) =>
    match t.node? parent with
    | some (.directory above grandparent entries removed) =>
      if above &&& Right.write.bit = 0 then .error .accessDenied
      else
        let t' := t.setNode id (.directory mode parent [] true)
        .ok (t'.setNode parent
          (.directory above grandparent (entries.filter (·.2 != id)) removed))
    | _ => .error .notFound
  | some (.directory ..) => .error .notEmpty
  | _ => .error .notDirectory

/-- The tree without an empty directory, which has to be called by a name of its own. -/
def removeDirectory (t : FileTree) (cwd : Nat) (path : Text) : Except SysError FileTree :=
  let name := ((Path.parts path).filter (!·.isEmpty)).getLast?
  match t.locate cwd .bearer (unslashed path) with
  | .error e => .error e
  | .ok (.vacant ..) => .error .notFound
  | .ok (.node id) => match t.node? id with
    | some (.directory ..) =>
      if name.any Path.isHere then .error .invalidArgument
      else if name.any Path.isAbove then .error .notEmpty
      else t.removeNode id
    | _ => .error .notDirectory

end FileTree

end LineShell.Host
