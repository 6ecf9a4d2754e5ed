import LineShell.Script.Token

/-!
# Reading commands

* `Reader.list` : commands one behind the other, up to a token that ends them;
* `Reader.command` : one command;
* `Passage`, `Reader.line` : what a text has up to the end of a line, which is run before anything behind
  it is read.
-/

namespace LineShell.Script

/-- The names that stand for commands of the language itself, and not for functions. -/
def reservedNames : List Text :=
  [":", ".", "break", "continue", "eval", "exec", "exit", "export", "local", "readonly", "return",
    "set", "shift", "times", "trap", "unset"].map String.toList

/-- Whether a token ends a list of commands inside another command. -/
def Token.endsList : Token → Bool
  | .finish => true
  | .op sign => sign == [')'] || sign == [';', ';']
  | .keyword k => ["do", "done", "elif", "else", "esac", "fi", "then", "\x7d"].any (·.toList == k)
  | _ => false

/-- Where a list of commands stands. -/
inductive ListPlace where
  /-- It goes to the end of a line. -/
  | line
  /-- It is part of a command, and there has to be one. -/
  | body
  /-- It is part of a command and may be empty. -/
  | arm
  deriving DecidableEq, Repr

namespace Reader

/-- The complaint about a token that cannot stand where it does. -/
def unexpected {α : Type} (t : Token) : Reader α := throw (t.name ++ " unexpected".toList)

/-- The complaint about a token in the place of another. -/
def unexpectedFor {α : Type} (t wanted : Token) : Reader α :=
  throw (t.name ++ " unexpected (expecting ".toList ++ wanted.name ++ [')'])

def currentLine : Reader Nat := return (← get).line

/-! ## Here-documents -/

/-- Whether a line goes on in the next one: it ends in a backslash that is not itself quoted. -/
def goesOn (line : Text) : Bool := (line.reverse.takeWhile (· == '\\')).length % 2 == 1

/-- The lines up to one that is `mark`, behind those in `done` (last one first), the text behind that
line, and whether it ends with a newline. -/
def linesUntil (mark : Text) (tabs joins : Bool) :
    Nat → Bool → List Text → Text → List Text × Text × Bool
  | 0, _, done, t => (done.reverse, t, false)
  | fuel + 1, joined, done, t =>
    if t.isEmpty then (done.reverse, [], false)
    else
      let raw := t.takeWhile (· != '\n')
      let line := if tabs && !joined then raw.dropWhile (· == '\t') else raw
      let rest := t.drop raw.length
      if !joined && line == mark then (done.reverse, rest.tail, !rest.isEmpty)
      else
        let line := if rest.isEmpty then line else line ++ ['\n']
        linesUntil mark tabs joins fuel (joins && goesOn raw) (line :: done) rest.tail

/-- The text of a here-document that ends with the line `mark`: it is taken out of the lines behind
the current one. -/
def takeDocument (mark : Text) (tabs joins : Bool) : Reader Text :=
  modifyGet fun i =>
    let here := i.rest.takeWhile (· != '\n')
    match i.rest.drop here.length with
    | [] => ([], { i with sawEnd := true })
    | _ :: behind =>
      let (lines, rest, ends) := linesUntil mark tabs joins behind.length.succ false [] behind
      let n := behind.count '\n' - rest.count '\n'
      let out := behind.length - rest.length
      let inserted := i.inserted.map fun x =>
        let left := if behind.length ≤ x.behind then x.behind - out else min x.behind rest.length
        { x with behind := left }
      (lines.flatten, { i with
        rest := here ++ '\n' :: rest
        taken := i.taken + n
        inserted
        sawEnd := i.sawEnd || !ends })

/-- The here-document that a word stands in front of. -/
def document (nested : Bool → Reader Command) (fd : Nat) (tabs : Bool) (w : Word) :
    Reader Redirect := do
  let plain := hasQuotes w
  let t ← takeDocument (literal w) tabs (!plain)
  if plain then return .text fd (t.map (.char true ·))
  else
    let line ← currentLine
    return .text fd (← within t (line + 1) (parts nested (2 * t.length + 2)
      { quoted := true, ending := .text, inDocument := true } []))

/-- The redirection that a sign starts. -/
def redirect (nested : Bool → Reader Command) (fd : Option Nat) (sign : Text) : Reader Redirect := do
  match ← token nested false .word with
  | .word w =>
    let source := fd.getD 0
    let target := fd.getD 1
    match String.ofList sign with
    | "<" => return .file source .reading w
    | "<>" => return .file source .both w
    | ">>" => return .file target .appending w
    | "<&" => return .duplicate source w
    | ">|" => return .file target .overwriting w
    | ">&" => return .duplicate target w
    | "<<" => document nested source false w
    | "<<-" => document nested source true w
    | _ => return .file target .writing w
  | t => unexpected t

/-- The redirections that come next, behind those in `done` (last one first). -/
def redirects (nested : Bool → Reader Command) : Nat → Sight → List Redirect → Reader (List Redirect)
  | 0, _, done => return done.reverse
  | fuel + 1, s, done => do
    match ← token nested false s with
    | .redirect fd sign => do
      let r ← redirect nested fd sign
      redirects nested fuel .word (r :: done)
    | t => do
      giveBack t
      return done.reverse

/-! ## Commands -/

/-- The parts of a simple command, last ones first. -/
structure Pieces where
  assigned : List (Text × Word)
  words : List Word
  redirects : List Redirect

/-- The words of a list of items and the token behind them. -/
def items (nested : Bool → Reader Command) : Nat → List Word → Reader (List Word × Token)
  | 0, done => return (done.reverse, .finish)
  | fuel + 1, done => do
    match ← token nested false .word with
    | .word w => items nested fuel (w :: done)
    | t => return (done.reverse, t)

/-- The patterns of an arm, behind the closing parenthesis. -/
def patterns (nested : Bool → Reader Command) : Nat → Token → List Word → Reader (List Word)
  | 0, t, _ => unexpected t
  | fuel + 1, t, done => do
    let w : Word := match t with
      | .word w => w
      | .keyword k => k.map (.char false ·)
      | _ => []
    if t matches .finish then giveBack t
    let t ← token nested false .word
    if t.isOp "|" then patterns nested fuel (← token nested false .word) (w :: done)
    else if t.isOp ")" then return (w :: done).reverse
    else unexpectedFor t (.op [')'])

/-- Reads a token that has to be `wanted`. -/
def require (nested : Bool → Reader Command) (skipsNewlines : Bool) (s : Sight) (wanted : Token) :
    Reader Unit := do
  let t ← token nested skipsNewlines s
  if t.name == wanted.name then return else unexpectedFor t wanted

/-- A command behind those that were read before it. -/
def follow (done : Option Command) (c : Command) : Command :=
  match done with
  | some d => .sequence d c
  | none => c

mutual

/-- The commands of a list, behind those in `done`. -/
def list : Nat → ListPlace → Bool → Option Command → Reader (Option Command)
  | 0, _, _, done => return done
  | n + 1, place, mayEnd, done => do
    let t ← token (substituted n) (place != .line) .command
    match t with
    | .newline => return done
    | .finish => do
      giveBack t
      return done
    | t =>
      giveBack t
      if mayEnd && t.endsList then return done
      let c ← joined n
      let t ← token (substituted n) false .word
      let done := follow done (if t.isOp "&" then .background c else c)
      let mayEnd := place != .line
      if t.isOp "&" || t.isOp ";" then list n place mayEnd done
      else do
        giveBack t
        match t with
        | .finish => return done
        | .newline => list n place mayEnd done
        | t => if place == .line then unexpected t else return done

/-- The commands of a list that is part of a command. -/
def inner : Nat → ListPlace → Reader Command
  | 0, _ => return .empty
  | n + 1, place => return (← list n place (place == .arm) none).getD .empty

/-- The commands in a word; a closing parenthesis is read if it has to follow. -/
def substituted : Nat → Bool → Reader Command
  | 0, _ => return .empty
  | n + 1, closes => do
    let c ← inner n .arm
    if closes then require (substituted n) false .word (.op [')'])
    return c

/-- Commands joined by `&&` and `||`, from the left. -/
def joined : Nat → Reader Command
  | 0 => return .empty
  | n + 1 => do joinedWith n (← pipeline n false .word)

/-- A command with what `&&` and `||` join to it. -/
def joinedWith : Nat → Command → Reader Command
  | 0, c => return c
  | n + 1, c => do
    let t ← token (substituted n) false .word
    if t.isOp "&&" then joinedWith n (.both c (← pipeline n true .command))
    else if t.isOp "||" then joinedWith n (.either c (← pipeline n true .command))
    else
      giveBack t
      return c

/-- Commands joined by `|`, perhaps negated. -/
def pipeline : Nat → Bool → Sight → Reader Command
  | 0, _, _ => return .empty
  | n + 1, skipsNewlines, s => do
    let t ← token (substituted n) skipsNewlines s
    if t.isKeyword "!" then return .negated (← piped n (← command n false .command))
    else
      giveBack t
      piped n (← command n false .word)

/-- A command with those that read what it writes. -/
def piped : Nat → Command → Reader Command
  | 0, c => return c
  | n + 1, c => do
    match ← pipes n [c] with
    | [c] => return c
    | cs => return .pipeline cs

/-- The commands behind each `|`, behind those in `done` (last one first). -/
def pipes : Nat → List Command → Reader (List Command)
  | 0, done => return done.reverse
  | n + 1, done => do
    let t ← token (substituted n) false .word
    if t.isOp "|" then pipes n ((← command n true .command) :: done)
    else
      giveBack t
      return done.reverse

/-- One command. -/
def command : Nat → Bool → Sight → Reader Command
  | 0, _, _ => return .empty
  | n + 1, skipsNewlines, s => do
    let line ← currentLine
    let t ← token (substituted n) skipsNewlines s
    match t with
    | .word _ | .redirect .. =>
      giveBack t
      simple n (← currentLine) ⟨[], [], []⟩
    | .op ['('] =>
      let body ← inner n .body
      require (substituted n) false .word (.op [')'])
      return .subshell line body (← redirects (substituted n) n .command [])
    | .keyword k =>
      match String.ofList k with
      | "\x7b" =>
        let body ← inner n .body
        require (substituted n) false .word (.keyword ['\x7d'])
        redirected n line body
      | "if" => redirected n line (← branch n)
      | "while" => redirected n line (← loop n true)
      | "until" => redirected n line (← loop n false)
      | "for" => redirected n line (← each n line)
      | "case" => redirected n line (← choose n line)
      | _ => unexpected t
    | t => unexpected t

/-- A command with the redirections behind it. Where it comes down to commands in parentheses, they take
the place of the redirections that these have themselves. -/
def redirected : Nat → Nat → Command → Reader Command
  | 0, _, c => return c
  | n + 1, line, c => do
    match ← redirects (substituted n) n .command [], c with
    | [], c => return c
    | rs, .subshell line body _ => return .subshell line body rs
    | rs, c => return .redirected line c rs

/-- What follows `if` or `elif`, up to and with `fi`. -/
def branch : Nat → Reader Command
  | 0 => return .empty
  | n + 1 => do
    let condition ← inner n .body
    require (substituted n) false .word (.keyword "then".toList)
    let yes ← inner n .body
    let t ← token (substituted n) false .word
    if t.isKeyword "elif" then return .branch condition yes (some (← branch n))
    else if t.isKeyword "else" then
      let no ← inner n .body
      require (substituted n) false .word (.keyword "fi".toList)
      return .branch condition yes (some no)
    else if t.isKeyword "fi" then return .branch condition yes none
    else unexpectedFor t (.keyword "fi".toList)

/-- What follows `while` or `until`, up to and with `done`. -/
def loop : Nat → Bool → Reader Command
  | 0, _ => return .empty
  | n + 1, whileTrue => do
    let condition ← inner n .body
    require (substituted n) false .word (.keyword "do".toList)
    let body ← inner n .body
    require (substituted n) false .word (.keyword "done".toList)
    return .loop whileTrue condition body

/-- What follows `for`, up to and with `done`. -/
def each : Nat → Nat → Reader Command
  | 0, _ => return .empty
  | n + 1, line => do
    let t ← token (substituted n) false .word
    let name := match t with
      | .word w => (plain? w).getD []
      | _ => []
    if !isName name then complain "Bad for loop variable"
    let t ← token (substituted n) true .command
    let things ← if t.isKeyword "in" then do
        let (ws, t) ← items (substituted n) n []
        if !t.isNewline && !t.isOp ";" then unexpected t
        pure (some ws)
      else do
        if !t.isOp ";" then giveBack t
        pure none
    require (substituted n) true .command (.keyword "do".toList)
    let body ← inner n .body
    require (substituted n) false .word (.keyword "done".toList)
    return .each line name things body

/-- What follows `case`, up to and with `esac`. -/
def choose : Nat → Nat → Reader Command
  | 0, _ => return .empty
  | n + 1, line => do
    match ← token (substituted n) false .word with
    | .word subject =>
      require (substituted n) true .command (.keyword "in".toList)
      return .choose line subject (← arms n (← token (substituted n) true .keyword) [])
    | t => unexpectedFor t (.word [])

/-- The arms from a token on up to `esac`, behind those in `done` (last one first). -/
def arms : Nat → Token → List (List Word × Command) → Reader (List (List Word × Command))
  | 0, _, done => return done.reverse
  | n + 1, t, done => do
    if t.isKeyword "esac" then return done.reverse
    let t ← if t.isOp "(" then token (substituted n) false .word else pure t
    let ps ← patterns (substituted n) n t []
    let body ← inner n .arm
    let done := (ps, body) :: done
    let t ← token (substituted n) true .keyword
    if t.isKeyword "esac" then return done.reverse
    else if t.isOp ";;" then arms n (← token (substituted n) true .keyword) done
    else unexpectedFor t (.op [';', ';'])

/-- A simple command or the definition of a function. -/
def simple : Nat → Nat → Pieces → Reader Command
  | 0, _, _ => return .empty
  | n + 1, line, p => do
    let t ← token (substituted n) false (if p.words.isEmpty then .alias else .word)
    match t with
    | .word w =>
      match assignment? w, p.words with
      | some a, [] => simple n line { p with assigned := a :: p.assigned }
      | _, _ => simple n line { p with words := w :: p.words }
    | .redirect fd sign =>
      let r ← redirect (substituted n) fd sign
      simple n line { p with redirects := r :: p.redirects }
    | t =>
      match t.isOp "(", p with
      | true, ⟨[], [w], []⟩ => do
        require (substituted n) false .word (.op [')'])
        let name := (plain? w).getD []
        if !isName name || reservedNames.contains name then complain "Bad function name"
        return .define name (← command n true .command)
      | _, _ =>
        giveBack t
        return .simple line p.assigned.reverse p.words.reverse p.redirects.reverse

end

/-- How much is left of a text and the commands in it. -/
def bound : Reader Nat := return 12 * (← size) + 24

end Reader

/-- What a text has up to the end of a line. -/
inductive Passage where
  | finish
  | blank
  | commands (c : Command)

/-- What a text has up to the end of a line. -/
def Reader.line : Reader Passage := do
  match ← list (← bound) .line false none with
  | some c => return .commands c
  | none =>
    let isAtEnd := match (← get).pushed with
      | some .finish => true
      | _ => false
    return if isAtEnd then .finish else .blank

end LineShell.Script
