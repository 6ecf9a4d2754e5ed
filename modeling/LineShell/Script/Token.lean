import LineShell.Script.Syntax

/-!
# Tokens of a program text

* `Token` : words, operators and the words that build commands;
* `Input`, `Reader` : a text under way, and what reads from it, which may complain;
* `Reader.parts` : the parts of a word;
* `Sight`, `Reader.token` : the next token, where a word may build commands or stand for another text.

A backslash and the newline behind it join two lines. The commands in a word are read by a reader
`nested` that is given whether a closing parenthesis has to follow them.
-/

namespace LineShell.Script

/-- A word or a sign. -/
inductive Token where
  | finish
  | newline
  | op (sign : Text)
  | word (w : Word)
  /-- A word that builds commands. -/
  | keyword (k : Text)
  /-- The sign of a redirection, and the descriptor in front of it. -/
  | redirect (fd : Option Nat) (sign : Text)

namespace Token

/-- What a token is called in a complaint. -/
def name : Token → Text
  | finish => "end of file".toList
  | newline => "newline".toList
  | op sign => '\x22' :: sign ++ ['\x22']
  | word _ => "word".toList
  | keyword k => '\x22' :: k ++ ['\x22']
  | redirect .. => "redirection".toList

/-- The words that build commands. -/
def keywords : List Text :=
  ["!", "case", "do", "done", "elif", "else", "esac", "fi", "for", "if", "in", "then", "until",
    "while", "\x7b", "\x7d"].map String.toList

/-- The token of a word where such words are looked for. -/
def ofWord (w : Word) : Token :=
  match plain? w with
  | some k => if keywords.contains k then .keyword k else .word w
  | none => .word w

def isOp (t : Token) (sign : String) : Bool :=
  match t with
  | op s => s == sign.toList
  | _ => false

/-- Whether a token is a given word that builds commands. -/
def isKeyword (t : Token) (k : String) : Bool :=
  match t with
  | keyword s => s == k.toList
  | _ => false

def isNewline : Token → Bool
  | newline => true
  | _ => false

end Token

/-- A text that was put in the place of its name. -/
structure Inserted where
  name : Text
  /-- How many characters are left behind it. -/
  behind : Nat
  /-- Whether it ends in a blank, so that the word behind it may stand for a text as well. -/
  endsBlank : Bool
  deriving DecidableEq, Repr

/-- A text that is being read. -/
structure Input where
  rest : Text
  line : Nat := 1
  /-- How many lines behind the current one have been taken out of the text. -/
  taken : Nat := 0
  /-- A token that was given back. -/
  pushed : Option Token := none
  /-- The texts that words stand for. -/
  aliases : List (Text × Text) := []
  /-- The texts that were put in, the last one first. -/
  inserted : List Inserted := []
  /-- Whether it has been looked for something behind the end. -/
  sawEnd : Bool := false

namespace Input

def ofText (t : Text) (aliases : List (Text × Text)) : Input := { rest := t, aliases }

/-- Whether the text that a name stands for is being read, up to its very end. -/
def isReading (i : Input) (name : Text) : Bool :=
  let n := i.rest.length
  i.inserted.any fun x => x.name == name && x.behind ≤ n

/-- Puts the text that a name stands for in front of the rest. -/
def insert (i : Input) (name value : Text) : Input :=
  let endsBlank := value.getLast? == some ' ' || value.getLast? == some '\t'
  { i with
    rest := value ++ i.rest
    inserted := ⟨name, i.rest.length, endsBlank⟩ :: i.inserted.filter (·.behind ≤ i.rest.length) }

def append (i : Input) (t : Text) : Input :=
  { i with
    rest := i.rest ++ t
    inserted := i.inserted.map fun x => { x with behind := x.behind + t.length } }

/-- How many characters of the text itself are left. -/
def left (i : Input) : Nat :=
  let n := i.rest.length
  i.inserted.foldl (fun n x => min n x.behind) n

end Input

/-- Reads from a text; the failure is what the complaint says. -/
abbrev Reader := EStateM Text Input

/-- Where the parts of a word end. -/
inductive WordEnd where
  /-- In front of a character that ends words. -/
  | word
  /-- At a double quote. -/
  | quote
  /-- At a closing brace. -/
  | brace
  /-- At the end of the text. -/
  | text
  /-- At two closing parentheses, behind those that close `depth` others. -/
  | sum (depth : Nat)
  deriving DecidableEq, Repr

/-- How the parts of a word are read. -/
structure Mode where
  quoted : Bool
  ending : WordEnd
  /-- Whether what is quoted is so without quotes, as the text of a here-document is. -/
  inDocument : Bool := false
  deriving DecidableEq, Repr

namespace Reader

/-! ## Characters -/

def complain {α : Type} (message : String) : Reader α := throw message.toList

/-- A text without the joined line ends at its head, and how many there were. -/
def unjoin : Text → Nat → Text × Nat
  | '\\' :: '\n' :: rest, n => unjoin rest (n + 1)
  | t, n => (t, n)

def peek : Reader (Option Char) :=
  modifyGet fun i =>
    let (t, n) := unjoin i.rest 0
    (t.head?, { i with rest := t, line := i.line + n, sawEnd := i.sawEnd || t.isEmpty })

/-- The next character as it stands in the text. -/
def peekRaw : Reader (Option Char) :=
  modifyGet fun i => (i.rest.head?, { i with sawEnd := i.sawEnd || i.rest.isEmpty })

/-- Goes behind the next character. -/
def advance : Reader Unit :=
  modify fun i =>
    match i.rest with
    | '\n' :: rest => { i with rest, line := i.line + 1 + i.taken, taken := 0 }
    | _ :: rest => { i with rest }
    | [] => i

/-- Goes behind the next character, which ends no line even if it is a newline. -/
def skip : Reader Unit := modify fun i => { i with rest := i.rest.tail }

def accept (c : Char) : Reader Bool := do
  if (← peek) == some c then
    advance
    return true
  return false

/-- The characters of a class that come next, behind those in `done` (last one first). -/
def run (isIn : Char → Bool) : Nat → Text → Reader Text
  | 0, done => return done.reverse
  | fuel + 1, done => do
    match ← peek with
    | some c => if isIn c then do advance; run isIn fuel (c :: done) else return done.reverse
    | none => return done.reverse

def size : Reader Nat := return (← get).rest.length

/-- The characters of a class that come next. -/
def runOf (isIn : Char → Bool) : Reader Text := do run isIn (← size) []

/-- Reads another text, which starts on the given line, with `r`, and then goes on with this one. -/
def within {α : Type} (t : Text) (line : Nat) (r : Reader α) : Reader α := do
  let i ← get
  let n := i.rest.length
  let inserted := (i.inserted.filter (·.behind ≤ n)).map ({ · with behind := 0, endsBlank := false })
  set { rest := t, line, aliases := i.aliases, inserted : Input }
  let a ← r
  set i
  return a

/-! ## Words -/

/-- Characters that end a word unless quoted. -/
def endsWord (c : Char) : Bool := " \t\n;&|<>()".toList.contains c

/-- The characters that a backslash quotes between double quotes and the like. -/
def isEscapable (e : WordEnd) (c : Char) : Bool :=
  "\\\x60$".toList.contains c || (c == '\x22' && e != .text) || (c == '\x7d' && e == .brace)

/-- The complaint about a text that ends in the middle of a word. -/
def lost {α : Type} (m : Mode) : Reader α :=
  match m.ending with
  | .sum _ => complain "Missing '))'"
  | _ =>
    complain (if m.quoted && !m.inDocument then "Unterminated quoted string" else "Missing '\x7d'")

/-- The characters up to a single quote, in parts behind those in `done` (last one first). -/
def quotedChars : Nat → List Part → Reader (List Part)
  | 0, done => return done
  | fuel + 1, done => do
    match ← peekRaw with
    | none => complain "Unterminated quoted string"
    | some '\x27' => do advance; return done
    | some c => do advance; quotedChars fuel (.char true c :: done)

/-- The text between backquotes: a backslash quotes a few characters in it. -/
def backquoted (quoted : Bool) : Nat → Text → Reader Text
  | 0, done => return done.reverse
  | fuel + 1, done => do
    match ← peek with
    | none => complain "EOF in backquote substitution"
    | some '\x60' => do advance; return done.reverse
    | some '\\' => do
      advance
      match ← peekRaw with
      | none => backquoted quoted fuel ('\\' :: done)
      | some c => do
        advance
        if "\\\x60$".toList.contains c || (quoted && c == '\x22') then
          backquoted quoted fuel (c :: done)
        else backquoted quoted fuel (c :: '\\' :: done)
    | some c => do advance; backquoted quoted fuel (c :: done)

/-- The sign behind the name of a parameter: what is made of its value, given the word that follows, how
that word is read, and whether there is one. -/
def useOf (m : Mode) : Reader (Option Mode × (Word → Use)) := do
  let word := some { m with ending := .brace }
  let pattern := some { m with ending := .brace, quoted := false }
  if ← accept '\x7d' then return (none, fun _ => .value)
  let colon ← accept ':'
  match ← peek with
  | some '-' => do advance; return (word, .fallback .stand colon)
  | some '=' => do advance; return (word, .fallback .assign colon)
  | some '?' => do advance; return (word, .fallback .complain colon)
  | some '+' => do advance; return (word, .fallback .replace colon)
  | some c =>
    if colon || (c != '#' && c != '%') then do
      skip
      return (word, fun _ => .unknown)
    else do
      advance
      let longest ← accept c
      return (pattern, .trim (if c == '#' then .front else .back) longest)
  | none => return (word, fun _ => .unknown)

/-- The name of a parameter between braces, and whether its length is asked for; no name for anything
else. -/
def bracedName : Reader (Text × Bool) := do
  match ← peek with
  | none => return ([], false)
  | some c =>
    if isNameStart c then return (← runOf isNameRest, false)
    else if Text.isDigit c then return (← runOf Text.isDigit, false)
    else if c == '#' then
      advance
      match ← peek with
      | none => return (['#'], false)
      | some d =>
        if isNameStart d then return (← runOf isNameRest, true)
        else if Text.isDigit d then return (← runOf Text.isDigit, true)
        else if isSign d && (← get).rest.tail.head? == some '\x7d' then
          advance
          return ([d], true)
        else return (['#'], false)
    else if isSign c then
      advance
      return ([c], false)
    else do
      if c != '\x7d' then skip
      return ([], false)

/-- Parts in front of others that are listed last one first. -/
def Parts.push (ps done : List Part) : List Part := ps.reverse ++ done

mutual

/-- The parts of a word, behind those in `done` (last one first), and behind its end if that is a
sign of its own. -/
def parts (nested : Bool → Reader Command) : Nat → Mode → List Part → Reader (List Part)
  | 0, _, done => return done.reverse
  | fuel + 1, m, done => do
    match ← peek with
    | none =>
      if m.ending == .word || m.ending == .text then return done.reverse else lost m
    | some '\x22' =>
      if m.ending == .quote then
        advance
        return done.reverse
      else if m.ending == .text || m.ending matches .sum _ then
        advance
        parts nested fuel m (.char true '\x22' :: done)
      else
        advance
        let inner ← parts nested fuel { quoted := true, ending := .quote } []
        let marks := match inner with
          | [.param true ['@'] .value] => []
          | _ => [Part.quotes]
        parts nested fuel m (Parts.push (marks ++ inner) done)
    | some '\x27' =>
      advance
      if m.quoted then parts nested fuel m (.char true '\x27' :: done)
      else do
        let done ← quotedChars (← size).succ (.quotes :: done)
        parts nested fuel m done
    | some '\\' =>
      advance
      match ← peekRaw with
      | none => parts nested fuel m (.char true '\\' :: done)
      | some c =>
        advance
        if m.quoted && !isEscapable m.ending c then
          parts nested fuel m (.char true c :: .char true '\\' :: done)
        else parts nested fuel m (.char true c :: done)
    | some '$' =>
      advance
      let ps ← dollar nested fuel m
      parts nested fuel m (Parts.push ps done)
    | some '\x60' =>
      advance
      let t ← backquoted m.quoted (← size).succ []
      let body ← within t 1 (nested false)
      parts nested fuel m (.output m.quoted body :: done)
    | some c =>
      match m.ending, c with
      | .brace, '\x7d' => do advance; return done.reverse
      | .sum depth, '(' => do
        advance
        parts nested fuel { m with ending := .sum (depth + 1) } (.char true c :: done)
      | .sum (depth + 1), ')' => do
        advance
        parts nested fuel { m with ending := .sum depth } (.char true c :: done)
      | .sum 0, ')' => do
        advance
        if ← accept ')' then return done.reverse
        else parts nested fuel m (.char true c :: done)
      | e, c => do
        if e == .word && endsWord c then return done.reverse
        advance
        parts nested fuel m (.char m.quoted c :: done)

/-- The parts that a `$` starts, which has been read. -/
def dollar (nested : Bool → Reader Command) : Nat → Mode → Reader (List Part)
  | 0, m => return [.char m.quoted '$']
  | fuel + 1, m => do
    let quoted := m.quoted
    let braced := { m with ending := .brace }
    match ← peek with
    | some '(' =>
      advance
      if ← accept '(' then return [.number quoted (← parts nested fuel { quoted := true, ending := .sum 0 } [])]
      else return [.output quoted (← nested true)]
    | some '\x7b' =>
      advance
      let (name, measured) ← bracedName
      if name.isEmpty then
        discard <| parts nested fuel braced []
        return [.param quoted [] .unknown]
      else if measured then
        if ← accept '\x7d' then return [.param quoted name .length]
        else
          discard <| parts nested fuel braced []
          return [.param quoted name .unknown]
      else
        match ← useOf m with
        | (none, use) => return [.param quoted name (use [])]
        | (some m, use) => return [.param quoted name (use (withHome (· == '/') (← parts nested fuel m [])))]
    | some c =>
      if isNameStart c then return [.param quoted (← runOf isNameRest) .value]
      else if isSign c then
        advance
        return [.param quoted [c] .value]
      else return [.char quoted '$']
    | none => return [.char quoted '$']

end

/-! ## Tokens -/

def giveBack (t : Token) : Reader Unit := modify fun i => { i with pushed := some t }

/-- The operator that starts with a character, if one does; it is read. -/
def operator? (c : Char) : Reader (Option Text) := do
  if "&|;".toList.contains c then
    advance
    return some (if ← accept c then [c, c] else [c])
  else if c == '(' || c == ')' then
    advance
    return some [c]
  else return none

/-- The rest of the sign of a redirection that starts with a character. -/
def redirection (c : Char) : Reader Text := do
  if ← accept '&' then return [c, '&']
  else if c == '<' then
    if ← accept '<' then return if ← accept '-' then "<<-".toList else "<<".toList
    else return if ← accept '>' then "<>".toList else ['<']
  else if ← accept '>' then return ">>".toList
  else return if ← accept '|' then ">|".toList else ['>']

/-- Goes behind blanks and a comment. -/
def skipBlanks : Nat → Reader Unit
  | 0 => return
  | fuel + 1 => do
    match ← peek with
    | some ' ' | some '\t' => do advance; skipBlanks fuel
    | some '#' => modify fun i => { i with rest := i.rest.dropWhile (· != '\n') }
    | _ => return

/-- The next token as it stands in the text. -/
def freshToken (nested : Bool → Reader Command) : Reader Token := do
  skipBlanks (← size).succ
  match ← peek with
  | none => return .finish
  | some '\n' => do advance; return .newline
  | some c =>
    if let some s ← operator? c then return .op s
    let isArrow := fun (c : Char) => c == '<' || c == '>'
    if isArrow c then
      advance
      return .redirect none (← redirection c)
    let next := (unjoin (← get).rest.tail 0).1.headD ' '
    if Text.isDigit c && isArrow next then
      advance
      discard peek
      advance
      return .redirect (some (Text.digitsValue [c])) (← redirection next)
    return .word (← parts nested (2 * (← size) + 2) { quoted := false, ending := .word } [])

/-- The next token, or the one that was given back. -/
def anyToken (nested : Bool → Reader Command) : Reader Token := do
  match (← get).pushed with
  | some t => do
    modify fun i => { i with pushed := none }
    return t
  | none => freshToken nested

/-- What a word may be where a token stands. -/
inductive Sight where
  /-- A word and nothing else. -/
  | word
  /-- One of the words that build commands. -/
  | keyword
  /-- A word that stands for a text. -/
  | alias
  /-- Either. -/
  | command
  deriving DecidableEq, Repr

namespace Sight

/-- Whether the words that build commands are told from others. -/
def seesKeywords (s : Sight) : Bool := s == .keyword || s == .command

/-- Whether words may stand for texts. -/
def seesAliases (s : Sight) : Bool := s == .alias || s == .command

end Sight

/-- The next token behind newlines, and whether a text was read to its end on the way to it that lets the
word behind it stand for a text. -/
def solidToken (nested : Bool → Reader Command) (skipsNewlines : Bool) : Nat → Reader (Token × Bool)
  | 0 => return (.finish, false)
  | fuel + 1 => do
    let before ← get
    let t ← anyToken nested
    if skipsNewlines && t.isNewline then solidToken nested skipsNewlines fuel
    else
      let after ← get
      let isOpen := before.inserted.any fun x =>
        x.endsBlank && x.behind < before.rest.length && after.rest.length ≤ x.behind
      return (t, isOpen)

/-- The next token, where words may stand for texts if they `isOpen`. -/
def tokenFrom (nested : Bool → Reader Command) (skipsNewlines : Bool) (s : Sight) :
    Nat → Bool → Reader Token
  | 0, _ => return .finish
  | fuel + 1, isOpen => do
    let (t, opens) ← solidToken nested skipsNewlines ((← size) + 2)
    let isOpen := isOpen || opens
    match t with
    | .word w =>
      match if s.seesKeywords then Token.ofWord w else t, plain? w with
      | .word w, some name => do
        let i ← get
        match i.aliases.lookup name with
        | some value =>
          if (s.seesAliases || isOpen) && !i.isReading name then
            if !value.isEmpty then set (i.insert name value)
            tokenFrom nested skipsNewlines s fuel isOpen
          else return .word w
        | none => return .word w
      | t, _ => return t
    | t => return t

/-- The next token: behind newlines if they mean nothing there. -/
def token (nested : Bool → Reader Command) (skipsNewlines : Bool) (s : Sight) : Reader Token := do
  tokenFrom nested skipsNewlines s ((← size) + (← get).aliases.length + 2) false

end Reader

end LineShell.Script
