import LineShell.Text.Basic

/-!
# Commands and words of a program text

* `Part`, `Word` : words, as lists of their parts;
* `Redirect` : where a command reads and writes;
* `Command` : commands.

Texts are texts of octets.
-/

namespace LineShell.Script

/-- What is done with a parameter that has no value, or with one that has. -/
inductive Fallback where
  /-- The word stands for the missing value. -/
  | stand
  /-- The word becomes the missing value. -/
  | assign
  /-- The missing value ends the process, and the word says why. -/
  | complain
  /-- The word stands for a value that is there. -/
  | replace
  deriving DecidableEq, Repr

/-- The end of a value that a pattern is cut off from. -/
inductive Side where
  | front
  | back
  deriving DecidableEq, Repr

inductive Opening where
  | reading
  | writing
  /-- As for `writing`, whatever the options say about files that are there already. -/
  | overwriting
  | appending
  | both
  deriving DecidableEq, Repr

mutual

/-- A part of a word. What is quoted is neither parted into fields nor read as a pattern. -/
inductive Part where
  | char (quoted : Bool) (c : Char)
  /-- A pair of quotes, which make a field even if nothing is in it. -/
  | quotes
  | param (quoted : Bool) (name : Text) (use : Use)
  /-- What a command writes. -/
  | output (quoted : Bool) (body : Command)
  /-- The value of an arithmetic expression. -/
  | number (quoted : Bool) (expr : List Part)
  /-- The home directory of a user. -/
  | home (user : Text)

/-- What is made of the value of a parameter. -/
inductive Use where
  | value
  | length
  | fallback (kind : Fallback) (forEmpty : Bool) (word : List Part)
  | trim (side : Side) (longest : Bool) (pattern : List Part)
  /-- Something that no use of a parameter looks like. -/
  | unknown

/-- A change of where the descriptor `fd` leads. -/
inductive Redirect where
  | file (fd : Nat) (how : Opening) (name : List Part)
  /-- To where another descriptor leads, or nowhere for `-`. -/
  | duplicate (fd : Nat) (source : List Part)
  /-- To a text to read. -/
  | text (fd : Nat) (body : List Part)

/-- A command, with the line it is on where it can complain. -/
inductive Command where
  | empty
  | simple (line : Nat) (assigned : List (Text × List Part)) (words : List (List Part))
      (redirects : List Redirect)
  | sequence (first second : Command)
  | both (first second : Command)
  | either (first second : Command)
  | negated (c : Command)
  | pipeline (elements : List Command)
  | background (c : Command)
  | subshell (line : Nat) (body : Command) (redirects : List Redirect)
  | redirected (line : Nat) (body : Command) (redirects : List Redirect)
  | branch (condition yes : Command) (no : Option Command)
  /-- The body as long as the condition holds, or until it does. -/
  | loop (whileTrue : Bool) (condition body : Command)
  /-- The body once for each item; without items, for each argument of the process. -/
  | each (line : Nat) (name : Text) (items : Option (List (List Part))) (body : Command)
  /-- The first arm of which a pattern matches. -/
  | choose (line : Nat) (subject : List Part) (arms : List (List (List Part) × Command))
  | define (name : Text) (body : Command)

end

/-- A word, part by part. -/
abbrev Word := List Part

/-! ## Names -/

/-- Characters that can begin a name. -/
def isNameStart (c : Char) : Bool := c.isAlpha || c == '_'

/-- Characters that a name can go on with. -/
def isNameRest (c : Char) : Bool := isNameStart c || Text.isDigit c

def isName : Text → Bool
  | [] => false
  | c :: rest => isNameStart c && rest.all isNameRest

/-- The parameters whose names are one sign. -/
def isSign (c : Char) : Bool := "@*#?$!-".toList.contains c || Text.isDigit c

/-! ## Plain words -/

/-- The text of a word in which nothing is quoted and nothing has a value put in. -/
def plain? : Word → Option Text
  | [] => some []
  | .char false c :: rest => (plain? rest).map (c :: ·)
  | _ => none

/-- The characters of a word as they are written, quoted or not; parameters and the like are left
out. -/
def literal (w : Word) : Text := w.filterMap fun
  | .char _ c => some c
  | _ => none

def hasQuotes (w : Word) : Bool := w.any fun
  | .char true _ | .quotes => true
  | _ => false

/-- The unquoted name at the head of a word, and the parts behind it. -/
def leadingName : Word → Text × Word
  | .char false c :: rest =>
    if isNameRest c then
      let (name, w) := leadingName rest
      (c :: name, w)
    else ([], .char false c :: rest)
  | w => ([], w)

/-- The name and the value of a word that reads as an assignment. -/
def assignment? (w : Word) : Option (Text × Word) :=
  match leadingName w with
  | (name, .char false '=' :: value) => if isName name then some (name, value) else none
  | _ => none

/-! ## Home directories -/

/-- The unquoted name at the head of a word, up to a character that `ends` it. -/
def userName? (ends : Char → Bool) : Word → Option (Text × Word)
  | [] => some ([], [])
  | .char false c :: rest =>
    if ends c then some ([], .char false c :: rest)
    else (userName? ends rest).map fun (user, w) => (c :: user, w)
  | _ => none

/-- A word with the home directory that it starts with. -/
def withHome (ends : Char → Bool) : Word → Word
  | .char false '~' :: w =>
    match userName? ends w with
    | some (user, rest) => .home user :: rest
    | none => .char false '~' :: w
  | w => w

/-- The value of an assignment with the home directories that it, or a part of it behind a colon, starts
with. -/
def withHomes : Nat → Word → Word
  | 0, w => w
  | n + 1, w =>
    let w := withHome (fun c => c == '/' || c == ':') w
    let isColon := fun (part : Part) => part matches .char false ':'
    match w.dropWhile (!isColon ·) with
    | [] => w
    | colon :: rest => w.takeWhile (!isColon ·) ++ colon :: withHomes n rest

end LineShell.Script
