import LineShell.Text.Basic

/-!
# Patterns

A pattern is matched against a whole text. `*` stands for any text, `?` for any character and `[...]`
for one character of a set, or with `!` in front for one that is not in it. Characters that are
quoted, by themselves or by a backslash in front, stand for themselves.

* `Pattern.ofChars` : the pattern that characters write, each with whether it is quoted;
* `Pattern.isMatch` : whether a pattern matches a text;
* `Pattern.cutFront`, `Pattern.cutBack` : a text without the part at one of its ends that a pattern
  matches.
-/

namespace LineShell.Script

/-- What one item between brackets stands for. -/
inductive SetItem where
  | range (first last : Char)
  /-- The characters of a class, such as `digit`. -/
  | named (name : Text)
  deriving DecidableEq, Repr

/-- A part of a pattern. -/
inductive Glob where
  | one (c : Char)
  | any
  | many
  | set (negated : Bool) (items : List SetItem)
  deriving DecidableEq, Repr

/-- A pattern, part by part. -/
abbrev Pattern := List Glob

/-- A character, and whether it is quoted. -/
abbrev Marked := Bool × Char

namespace Pattern

/-! ## Sets -/

/-- The characters that are seen on paper. -/
def isGraph (c : Char) : Bool := '!' ≤ c && c ≤ '~'

def isInClass (name : Text) (c : Char) : Bool :=
  match String.ofList name with
  | "alpha" => c.isAlpha
  | "digit" => Text.isDigit c
  | "alnum" => c.isAlphanum
  | "upper" => c.isUpper
  | "lower" => c.isLower
  | "space" => c == ' ' || ('\t' ≤ c && c ≤ '\x0d')
  | "blank" => c == ' ' || c == '\t'
  | "punct" => isGraph c && !c.isAlphanum
  | "graph" => isGraph c
  | "print" => isGraph c || c == ' '
  | "cntrl" => c < ' ' || c == '\x7f'
  | "xdigit" => Text.isDigit c || ('a' ≤ c && c ≤ 'f') || ('A' ≤ c && c ≤ 'F')
  | _ => false

/-- The name of a class up to `:]`, and the characters behind it. -/
def class? : List Marked → Option (Text × List Marked)
  | (_, ':') :: (_, ']') :: rest => some ([], rest)
  | (_, c) :: rest => if c.isAlpha then (class? rest).map fun (name, t) => (c :: name, t) else none
  | [] => none

/-- The items of a set up to its closing bracket, behind those in `done` (last one first), and the
characters behind it; none if it is not closed. A closing bracket that comes first is an item. -/
def items? : Nat → Bool → List SetItem → List Marked → Option (List SetItem × List Marked)
  | 0, _, _, _ => none
  | _, _, _, [] => none
  | n + 1, isFirst, done, (quoted, c) :: rest =>
    if c == ']' && !quoted && !isFirst then some (done.reverse, rest)
    else
      let single := fun (c : Char) (rest : List Marked) =>
        match rest with
        | (false, '-') :: (q, d) :: behind =>
          if d == ']' && !q then items? n false (.range c c :: done) rest
          else items? n false (.range c d :: done) behind
        | rest => items? n false (.range c c :: done) rest
      match quoted, c, rest with
      | false, '\\', (_, d) :: rest => single d rest
      | false, '[', (false, ':') :: behind =>
        match class? behind with
        | some (name, rest) => items? n false (.named name :: done) rest
        | none => single c rest
      | _, _, _ => single c rest

/-- The set that an opening bracket starts, given the characters behind it. -/
def set? (t : List Marked) : Option (Glob × List Marked) :=
  let (negated, t) := match t with
    | (false, '!') :: rest => (true, rest)
    | t => (false, t)
  (items? t.length.succ true [] t).map fun (items, rest) => (.set negated items, rest)

/-! ## Patterns -/

def ofCharsFrom : Nat → List Marked → Pattern
  | 0, _ => []
  | _, [] => []
  | fuel + 1, (quoted, c) :: rest =>
    match quoted, c with
    | true, c => .one c :: ofCharsFrom fuel rest
    | false, '*' => .many :: ofCharsFrom fuel rest
    | false, '?' => .any :: ofCharsFrom fuel rest
    | false, '[' =>
      match set? rest with
      | some (g, rest) => g :: ofCharsFrom fuel rest
      | none => .one '[' :: ofCharsFrom fuel rest
    | false, '\\' =>
      match rest with
      | (_, d) :: rest => .one d :: ofCharsFrom fuel rest
      | [] => [.one '\\']
    | false, c => .one c :: ofCharsFrom fuel rest

/-- The pattern that characters write. -/
def ofChars (t : List Marked) : Pattern := ofCharsFrom t.length t

def isIn (c : Char) : SetItem → Bool
  | .range first last => first ≤ c && c ≤ last
  | .named name => isInClass name c

def fits (c : Char) : Glob → Bool
  | .one d => c == d
  | .any => true
  | .many => false
  | .set negated items => items.any (isIn c) != negated

def isMatch : Pattern → Text → Bool
  | [], t => t.isEmpty
  | .many :: p, [] => isMatch p []
  | .many :: p, c :: t => isMatch p (c :: t) || isMatch (.many :: p) t
  | _ :: _, [] => false
  | g :: p, c :: t => fits c g && isMatch p t
  termination_by p t => p.length + t.length

/-- Whether a pattern matches more texts than one. -/
def isOpen (p : Pattern) : Bool := p.any fun g => !(g matches .one _)

/-- A text without the shortest or the longest part at its front that a pattern matches. -/
def cutFront (p : Pattern) (longest : Bool) (t : Text) : Text :=
  let lengths := List.range (t.length + 1)
  match (if longest then lengths.reverse else lengths).find? fun n => p.isMatch (t.take n) with
  | some n => t.drop n
  | none => t

/-- A text without the shortest or the longest part at its back that a pattern matches. -/
def cutBack (p : Pattern) (longest : Bool) (t : Text) : Text :=
  let lengths := List.range (t.length + 1)
  match (if longest then lengths else lengths.reverse).find? fun n => p.isMatch (t.drop n) with
  | some n => t.take n
  | none => t

end Pattern

end LineShell.Script
