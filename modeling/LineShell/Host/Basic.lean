import LineShell.Host.Variables
import LineShell.Script.Run
import LineShell.Text.Lines

/-!
# The host

A machine whose whole state is a value: files, pipes and processes, and a working directory. Its programs
are those of `LineShell.Host.Program`; most of them are texts in the language of `LineShell.Script`.

* `Host` : the state; `Host.openFile`, `writeFile`, `enter`, `workingDirectory` : its files;
* `Host.launch` : starts a program, or says why it cannot be started;
* `Host.machine` : the machine;
* `Host.withSandbox`, `withInput` : a host with the usual directories, at work in one of its own.

Paths are texts, and each name in the file tree is the text of its octets.
-/

namespace LineShell

/-- What processes share, the working directory of the shell, and the programs that go on although the
shell does not wait for them. -/
structure Host where
  system : Script.System
  cwd : Nat
  others : List Script.Waiting := []
  /-- The signals that the shell has got over and will not get over again. -/
  spared : List Nat := []
  /-- The signal that has ended the shell, if a program has sent it one. -/
  killer : Option Nat := none

namespace Host

def tree (h : Host) : FileTree := h.system.tree

def withTree (h : Host) (tree : FileTree) : Host := { h with system := { h.system with tree } }

/-! ## Files -/

/-- What a descriptor of the shell's own leads to. Each is the opened file of the same number. -/
def target? (h : Host) (fd : Nat) : Option Script.Target :=
  if fd < 3 then (h.system.opened[fd]?).map (·.target) else none

/-- The number of the node that a path leads to, what stands for a descriptor being what that leads to. -/
def nodeAt (h : Host) (path : Text) : Except SysError (Option Nat) :=
  match h.tree.find h.cwd (Text.toOctetText path) with
  | .error e => .error e
  | .ok (_, .descriptor fd) => match h.target? fd with
    | some (.node id) => .ok (some id)
    | some _ => .ok none
    | none => .error .notFound
  | .ok (id, _) => .ok (some id)

def isFile (h : Host) (path : Text) : Bool :=
  match h.nodeAt path with
  | .ok (some id) => (h.tree.node? id).any (·.isRegular)
  | _ => false

/-- Opens a file. A directory can be opened but not read, and a stream holds nothing. -/
def openFile (h : Host) (path : Text) : Except SysError Handle :=
  match h.tree.findReadable h.cwd (Text.toOctetText path) with
  | .error e => .error e
  | .ok (_, .device .terminal) => .error .noSuchDevice
  | .ok (id, .descriptor fd) => match h.target? fd with
    | some (.node id) => .ok (.file id 0)
    | some (.pipe _) => .ok .input
    | some (.stream _) => .ok (.file id 0)
    | none => .error .notFound
  | .ok (id, _) => .ok (.file id 0)

/-- What can be read from a handle on. -/
def readable (h : Host) : Handle → ByteStream
  | .input => ⟨(h.system.readable 0).toOption.getD [], none⟩
  | .file id offset =>
    match h.tree.node? id with
    | some (.directory ..) => ⟨[], some .isDirectory⟩
    | _ => ⟨(h.tree.bytesOf id).drop offset, none⟩

/-- Goes behind the next octets. -/
def advance (h : Host) : Handle → Nat → Handle × Host
  | .input, n => (.input, { h with system := h.system.advance 0 n })
  | .file id offset, n => (.file id (offset + n), h)

/-- What a file holds that can be read from its beginning to its end. -/
def contents? (h : Host) (path : Text) : Option Bytes :=
  match (h.openFile path).map h.readable with
  | .ok ⟨bytes, none⟩ => some bytes
  | _ => none

/-- Makes a file hold the given octets. -/
def writeFile (h : Host) (path : Text) (bytes : Bytes) : Except SysError Host :=
  match h.tree.create h.cwd (Text.toOctetText path) FileTree.usualMode with
  | .error e => .error e
  | .ok (id, tree) => match tree.node? id with
    | some (.device .full) => if bytes.isEmpty then .ok h else .error .noSpace
    | some (.descriptor fd) => match h.target? fd with
      | some (.node id) => .ok (h.withTree (tree.setBytes id bytes))
      | some (.pipe k) => .ok { h with system := h.system.changePipe k (·.put bytes) }
      | some (.stream _) => .ok h
      | none => .error .notFound
    | _ => .ok (h.withTree (tree.setBytes id bytes))

/-- Makes a directory the working directory. -/
def enter (h : Host) (path : Text) : Except SysError Host :=
  (h.tree.enterable h.cwd (Text.toOctetText path)).map ({ h with cwd := · })

def workingDirectory (h : Host) : Except SysError Text :=
  match h.tree.pathOf? h.cwd with
  | some path => .ok (Text.ofOctetText path)
  | none => .error .notFound

/-! ## Changes from outside -/

/-- Makes a directory, and all above it. -/
def makeDirectories (h : Host) (path : Text) : Host :=
  h.withTree (h.tree.makeDirectories h.cwd (Text.toOctetText path))

/-- Makes a file with the given permission bits and octets, and the directories above it. -/
def makeFile (h : Host) (path : Text) (mode : Nat) (bytes : Bytes) : Host :=
  let path := Text.toOctetText path
  h.withTree ((h.tree.makeParents h.cwd path).makeFile h.cwd path mode bytes)

/-- Makes a link, and the directories above it. -/
def makeLink (h : Host) (path target : Text) : Host :=
  let path := Text.toOctetText path
  h.withTree ((h.tree.makeParents h.cwd path).makeLink h.cwd path (Text.toOctetText target))

/-- Removes an empty directory, if there is one. -/
def removeDirectory (h : Host) (path : Text) : Host :=
  match h.tree.removeDirectory h.cwd (Text.toOctetText path) with
  | .ok tree => h.withTree tree
  | .error _ => h

/-! ## Programs -/

/-- The number of the shell's process. -/
def shellPid : Nat := 4242

/-- Whether something in a launch has a NUL, which no string handed to a program can hold. -/
def hasNul (l : Launch) : Bool :=
  (l.path :: l.arguments ++ l.vars.flatMap fun v => [v.1, v.2]).any (·.contains '\x00')

/-- The strings of a launch's variables as its program is handed them. -/
def handedTexts (l : Launch) : List Text :=
  (handedStrings (l.vars.map fun v => (Utf8.encode v.1, Utf8.encode v.2))).map Text.ofOctets

/-- The tool that a launch comes down to, and its arguments. A path without `/` is looked for in the
search path that the program is handed. -/
def tool? (h : Host) (l : Launch) : Except SysError (Tool × List Text) :=
  let path := Text.toOctetText l.path
  let args := l.arguments.map Text.toOctetText
  if l.path.contains '/' then h.tree.program? h.cwd path args (handedTexts l)
  else
    let searchPath := (l.vars.reverse.lookup "PATH".toList).map Text.toOctetText
    h.tree.programIn? h.cwd (searchPath.getD FileTree.usualSearchPath) path args (handedTexts l)

/-- The signals of a fault in the shell itself, the first of which it takes for something else. -/
def faults : List Nat := [Script.Signal.badAddress, Script.Signal.badAccess]

/-- The host after a signal has been sent to the shell, which holds off the one of a broken pipe. -/
def take (h : Host) (signal : Nat) : Host :=
  if h.killer.isSome || signal = Script.Signal.brokenPipe || Script.Signal.harmless.contains signal then h
  else if faults.contains signal && !h.spared.contains signal then { h with spared := signal :: h.spared }
  else { h with killer := some signal }

/-- The opened files that the shell itself holds. -/
def standardFiles : List Nat := [0, 1, 2]

/-- The system without what no process can get at any more. -/
def tidied (s : Script.System) (others : List Script.Waiting) : Script.System :=
  if others.isEmpty then
    { s with
      opened := s.opened.take standardFiles.length
      processes := [(shellPid, standardFiles)]
      sent := []
      ended := [] }
  else s

/-- Lets programs go on until one of them has ended, and then the others as far as they get. The report is
on that one. -/
def await (h : Host) (pid : Nat) (system : Script.System) (ws : List Script.Waiting) :
    ChildReport × Host :=
  let (s, ws) := Script.Task.advance (fun s => (s.ending? pid).isSome) Script.Task.maxTurns system ws
  let (s, ws) := Script.Task.settle s ws
  let (mine, sent) := s.sent.partition (·.1 == shellPid)
  let h := { h with system := tidied { s with written := [], sent } ws, others := ws }
  (⟨s.written.reverse, (s.ending? pid).getD (.exited 0)⟩, (mine.map (·.2)).foldl take h)

/-- Starts a program and waits until it has ended. -/
def launch (h : Host) (l : Launch) : Except SysError (ChildReport × Host) :=
  if hasNul l then .error .nulInArgument
  else match h.tool? l with
    | .error e => .error e
    | .ok (tool, args) =>
      let pid := h.system.lastPid + 1
      let system := { h.system.hold pid standardFiles with lastPid := pid }
      let vars := (handedTexts l).filterMap (Text.breakAt '=')
      let child : Script.Process := {
        system
        vars := Script.Run.initialVars vars shellPid
        fds := standardFiles.map fun n => (n, n)
        cwd := h.cwd
        id := pid
        pid
        parent := shellPid }
      let start := .idle fun system => Script.runTool tool args { child with system }
      .ok (h.await pid system (start :: h.others))

def machine : Machine Host where
  pid := shellPid
  isFile := isFile
  openFile := openFile
  readable := readable
  advance := advance
  writeFile := writeFile
  enter := enter
  workingDirectory := workingDirectory
  launch := launch
  killer? := killer

/-! ## Setting up -/

def usualDirectories : List String :=
  ["/usr/bin", "/usr/lib", "/usr/local/bin", "/usr/sbin", "/etc", "/home", "/opt", "/root", "/tmp",
    "/var/tmp", "/dev", "/proc/self/fd", "/sys", "/run", "/srv", "/mnt"]

def usualLinks : List (String × String) :=
  [("/bin", "usr/bin"), ("/lib", "usr/lib"), ("/sbin", "usr/sbin"), ("/dev/fd", "/proc/self/fd"),
    ("/dev/stdin", "/proc/self/fd/0"), ("/dev/stdout", "/proc/self/fd/1"),
    ("/dev/stderr", "/proc/self/fd/2")]

def nullPath : String := "/dev/null"

def usualNodes : List (String × Node) :=
  [("/usr/bin/sh", .tool .shell), ("/usr/bin/echo", .tool .echo), ("/usr/bin/true", .tool .succeed),
    ("/usr/bin/false", .tool .fail), (nullPath, .device .null), ("/dev/full", .device .full),
    ("/dev/tty", .device .terminal)] ++
  (List.range 10).map fun n => ("/proc/self/fd/" ++ toString n, .descriptor n)

def usualTree : FileTree :=
  let t := usualDirectories.foldl
    (fun t p => t.makeDirectories FileTree.root p.toList) FileTree.empty
  let t := usualLinks.foldl (fun t p => t.makeLink FileTree.root p.1.toList p.2.toList) t
  let t := usualNodes.foldl (fun t p => match t.locate FileTree.root .target p.1.toList with
      | .ok (.vacant directory name) => t.add directory name p.2
      | _ => t) t
  t.makeFile FileTree.root "/etc/passwd".toList FileTree.usualMode []

/-- What the shell finds when it starts: nothing to read, and files that its streams go to. -/
def usualSystem (tree : FileTree) : Script.System where
  tree
  pipes := #[]
  opened :=
    let null := match tree.find FileTree.root nullPath.toList with
      | .ok (id, _) => id
      | .error _ => FileTree.root
    #[(Script.Target.node null).toRead, (Script.Target.stream .out).toWrite,
      (Script.Target.stream .err).toWrite]
  isFiled := true
  processes := [(shellPid, standardFiles)]
  lastPid := shellPid

/-- A host at work in a directory of its own, with nothing to read. -/
def withSandbox (path : Text) : Host :=
  let t := usualTree.makeDirectories FileTree.root (Text.toOctetText path)
  let cwd := (t.findDirectory FileTree.root (Text.toOctetText path)).toOption.getD FileTree.root
  { system := usualSystem t, cwd }

/-- The host with something to read, and with pipes that its streams go to. -/
def withInput (h : Host) (bytes : Bytes) : Host :=
  let (k, s) := h.system.pushPipe bytes
  { h with system := { s.setOpened 0 (Script.Target.pipe k).toRead with isFiled := false } }

end Host

end LineShell
