import LineShell.Host.Tree
import LineShell.Text.Octets

/-!
# Starting programs

A file that may be run is a tool or begins with a line `#!` that calls for another program, its
interpreter, which is then run with the file's path as an argument. Paths and arguments are texts
of octets.

* `Callout.ofHead?` : the interpreter that the head of a file calls for;
* `FileTree.program?` : the tool that running a path comes down to, and its arguments;
* `FileTree.programIn?` : the same for a name that is looked for in a search path.

Only the first `Callout.headLength` octets of a file say what it calls for. A line that is cut off there
may lose the end of its argument, but not the end of its interpreter's name.
-/

namespace LineShell.Host

/-- A call for an interpreter, with the argument that stands behind its name. -/
structure Callout where
  interpreter : Text
  argument : Option Text
  deriving DecidableEq, Repr

namespace Callout

/-- How many octets at the head of a file are looked at. -/
def headLength : Nat := 256

/-- The characters between the parts of a line. -/
def isGap (c : Char) : Bool := c == ' ' || c == '\t'

/-- The characters that end the name of an interpreter. -/
def endsName (c : Char) : Bool := isGap c || c == '\x00'

/-- The head of a file, filled up with NULs. -/
def head (bytes : Bytes) : Text :=
  let t := Text.ofOctets (bytes.take headLength)
  t ++ List.replicate (headLength - t.length) '\x00'

/-- A text without the gaps at its end. -/
def trimEnd (t : Text) : Text := (t.reverse.dropWhile isGap).reverse

/-- What stands between `#!` and the end of the line, given what is behind `#!` in the head of a file;
none if the name of the interpreter may have been cut off. -/
def line? (t : Text) : Option Text :=
  match Text.breakAt '\n' (t.takeWhile (· != '\x00')) with
  | some (line, _) => some line
  | none => if (t.dropWhile isGap).any endsName then some t.dropLast else none

/-- The call that a line makes; none if it names no interpreter. -/
def ofLine? (line : Text) : Option Callout :=
  match (trimEnd line).dropWhile isGap with
  | [] => none
  | named =>
    let argument := match named.dropWhile (!endsName ·) with
      | [] | '\x00' :: _ => none
      | rest => some ((rest.dropWhile isGap).takeWhile (· != '\x00'))
    some ⟨named.takeWhile (!endsName ·), argument⟩

def ofHead? (bytes : Bytes) : Option Callout :=
  match head bytes with
  | '#' :: '!' :: rest => (line? rest).bind ofLine?
  | _ => none

/-- The arguments of the interpreter of the file `path`, which was to be run with `args`. -/
def arguments (c : Callout) (path : Text) (args : List Text) : List Text :=
  c.interpreter :: c.argument.toList ++ path :: args.tail

end Callout

/-- Something that can be run. -/
inductive Runnable where
  | tool (tool : Tool)
  | file (bytes : Bytes)
  deriving DecidableEq, Repr

def Node.isRunnable (n : Node) : Bool := n.isRegular && n.allows .run

namespace FileTree

/-- How many octets one string handed to a program may have, its final NUL included. -/
def maxStringLength : Nat := 131072

/-- What is to be run at a path. -/
def runnable? (t : FileTree) (cwd : Nat) (path : Text) : Except SysError Runnable :=
  match t.find cwd path with
  | .error e => .error e
  | .ok (_, n) => match n.isRunnable, n with
    | true, .tool tool => .ok (.tool tool)
    | true, .file _ bytes => .ok (.file bytes)
    | _, _ => .error .accessDenied

/-- How many programs may be found one behind the other, the last one a tool. -/
def maxPrograms : Nat := 6

/-- The tool that something found at `path` comes down to, and its arguments. The interpreter that a
file calls for has to be there even if it is one too many; without a name it is the working directory,
which cannot be run. -/
def follow? (t : FileTree) (cwd : Nat) : Nat → Text → Runnable → List Text →
    Except SysError (Tool × List Text)
  | 0, _, _, _ => .error .tooManyLinks
  | _ + 1, _, .tool tool, args => .ok (tool, args)
  | n + 1, path, .file bytes, args =>
    match Callout.ofHead? bytes with
    | none => .error .badFormat
    | some c => match t.runnable? cwd (if c.interpreter.isEmpty then ['.'] else c.interpreter) with
      | .error e => .error e
      | .ok r => t.follow? cwd n c.interpreter r (c.arguments path args)

/-- The tool that running a path with `args` and variables `vars` comes down to, and its arguments. -/
def program? (t : FileTree) (cwd : Nat) (path : Text) (args strings : List Text) :
    Except SysError (Tool × List Text) :=
  match t.runnable? cwd path with
  | .error e => .error e
  | .ok r =>
    if (args ++ strings).any (maxStringLength ≤ ·.length) then .error .argumentsTooLong
    else t.follow? cwd maxPrograms path r args

/-! ## Search paths -/

/-- The search path of a process that has none. -/
def usualSearchPath : Text := "/bin:/usr/bin".toList

/-- The shell's own path, by which it runs a file that calls for no interpreter. -/
def shellPath : Text := "/bin/sh".toList

/-- Whether a search goes on behind a place where running failed for this reason. -/
def isPassedOver : SysError → Bool
  | .notFound | .notDirectory | .accessDenied => true
  | _ => false

/-- The first tool that one of some paths comes down to; a file that calls for no interpreter is one
for the shell. -/
def firstProgram? (t : FileTree) (cwd : Nat) (args strings : List Text) (failure : SysError) :
    List Text → Except SysError (Tool × List Text)
  | [] => .error failure
  | path :: rest =>
    match t.program? cwd path args strings with
    | .ok found => .ok found
    | .error .badFormat => t.program? cwd shellPath (shellPath :: path :: args.tail) strings
    | .error e =>
      if isPassedOver e then
        t.firstProgram? cwd args strings (if e = .accessDenied then e else failure) rest
      else .error e

/-- The tool that a name without `/` comes down to in a search path. -/
def programIn? (t : FileTree) (cwd : Nat) (searchPath name : Text) (args strings : List Text) :
    Except SysError (Tool × List Text) :=
  if name.isEmpty then .error .notFound
  else t.firstProgram? cwd args strings .notFound <|
    (searchPath.splitOnP (· == ':')).map fun d => if d.isEmpty then name else d ++ '/' :: name

end FileTree

end LineShell.Host
