import LineShell.Script.Syntax

/-!
# Arithmetic

Expressions over integers of sixty-four bits, with the operators of C less those that count up and
down.

* `Expression` : expressions;
* `Expression.ofText` : the expression that a text writes, and what is wrong with it;
* `Expression.eval` : the value of an expression.
-/

namespace LineShell.Script

inductive Expression where
  | number (n : Int)
  | name (x : Text)
  | unary (sign : Char) (a : Expression)
  | binary (sign : String) (a b : Expression)
  | choice (c a b : Expression)
  /-- A variable is given a value, or its own value combined with one by the operator `sign`. -/
  | assign (x : Text) (sign : Option String) (a : Expression)
  /-- An expression behind which nothing makes sense any more. -/
  | broken (a : Expression) (message : String)
  deriving Repr

namespace Expression

/-- The integer of sixty-four bits that stands for `n`. -/
def wrap (n : Int) : Int := n.bmod (Nat.pow 2 64)

/-! ## Numerals -/

def digit? (c : Char) : Option Nat :=
  if Text.isDigit c then some (c.toNat - '0'.toNat)
  else if 'a' ≤ c && c ≤ 'z' then some (c.toNat - 'a'.toNat + 10)
  else if 'A' ≤ c && c ≤ 'Z' then some (c.toNat - 'A'.toNat + 10)
  else none

def isDigitIn (base : Nat) (c : Char) : Bool :=
  match digit? c with
  | some d => d < base
  | none => false

/-- The number that digits denote in a base. -/
def valueIn (base : Nat) (t : Text) : Nat := t.foldl (fun n c => base * n + (digit? c).getD 0) 0

/-- The natural number at the head of a text and the text behind it; none if there is none. A zero in
front makes it octal, and `0x` hexadecimal. -/
def numeral? (t : Text) : Option (Nat × Text) :=
  let read := fun base (t : Text) =>
    (valueIn base (t.takeWhile (isDigitIn base)), t.dropWhile (isDigitIn base))
  match t with
  | '0' :: 'x' :: c :: rest | '0' :: 'X' :: c :: rest =>
    if isDigitIn 16 c then some (read 16 (c :: rest)) else some (0, t.tail)
  | '0' :: _ => some (read 8 t)
  | c :: _ => if Text.isDigit c then some (read 10 t) else none
  | [] => none

def greatest : Int := Int.pow 2 63 - 1

def least : Int := -Int.pow 2 63

/-- The integer nearest to `n`. -/
def clamp (n : Int) : Int := max least (min greatest n)

def isBlank (c : Char) : Bool := c == ' ' || ('\t' ≤ c && c ≤ '\x0d')

/-- The integer at the head of a text, and the text behind it. -/
def integer? (t : Text) : Option (Int × Text) :=
  match t.dropWhile isBlank with
  | '-' :: rest => (numeral? rest).map fun (n, rest) => (-(n : Int), rest)
  | '+' :: rest => (numeral? rest).map fun (n, rest) => ((n : Int), rest)
  | rest => (numeral? rest).map fun (n, rest) => ((n : Int), rest)

/-! ## Reading -/

/-- The operators between two expressions, longer ones first, with how tightly they bind. -/
def operators : List (String × Nat) :=
  [("||", 1), ("&&", 2), ("==", 6), ("!=", 6), ("<=", 7), (">=", 7), ("<<", 8), (">>", 8), ("|", 3),
    ("^", 4), ("&", 5), ("<", 7), (">", 7), ("+", 9), ("-", 9), ("*", 10), ("/", 10), ("%", 10)]

/-- The operators that can stand in front of `=`. -/
def assigning : List String := ["<<", ">>", "*", "/", "%", "+", "-", "&", "^", "|"]

/-- The text behind the sign `s` if it starts with it. -/
def behind? (s : String) (t : Text) : Option Text :=
  if s.toList.isPrefixOf t then some (t.drop s.length) else none

/-- The assignment sign at the head of a text: the operator in front of `=`, and the text behind it. -/
def assignment? (t : Text) : Option (Option String × Text) :=
  match t with
  | '=' :: '=' :: _ => none
  | '=' :: rest => some (none, rest)
  | t => assigning.findSome? fun s => (behind? (s ++ "=") t).map (some s, ·)

/-- The operator at the head of a text that binds at least as tightly as `level`. -/
def operator? (level : Nat) (t : Text) : Option (String × Nat × Text) :=
  if (assignment? t).isSome then none
  else match operators.findSome? fun (s, l) => (behind? s t).map (s, l, ·) with
    | some (s, l, rest) => if level ≤ l then some (s, l, rest) else none
    | none => none

/-- A text without the blanks at its head. -/
def trim (t : Text) : Text := t.dropWhile isBlank

/-- An expression as far as it could be read, and the text behind it or what is wrong with that. -/
abbrev Read := Expression × Except String Text

/-- What is read where nothing makes sense: no expression behind `a`. -/
def stop (a : Expression) (message : String) : Read := (.broken a message, .error message)

/-- What is read where there is no expression. -/
def nothing : Read := stop (.number 0) "expecting primary"

/-- Goes on behind an expression that was read; `make` makes a whole of one that has no end. -/
def Read.andThen (r : Read) (make : Expression → Expression) (next : Expression → Text → Read) : Read :=
  match r with
  | (a, .ok rest) => next a (trim rest)
  | (a, .error e) => (make a, .error e)

/-- Makes something of an expression that was read. -/
def Read.map (r : Read) (make : Expression → Expression) : Read := (make r.1, r.2)

mutual

/-- An expression at the head of a text, and the text behind it. -/
def readWhole : Nat → Text → Read
  | 0, _ => nothing
  | n + 1, t =>
    let t := trim t
    let name := t.takeWhile isNameRest
    match isName name, assignment? (trim (t.drop name.length)) with
    | true, some (sign, rest) => (readWhole n rest).map (.assign name sign)
    | _, _ => readChoice n t

/-- An expression that is no assignment. -/
def readChoice : Nat → Text → Read
  | 0, _ => nothing
  | n + 1, t =>
    (readBinary n 1 t).andThen id fun c rest =>
      match rest with
      | '?' :: rest =>
        (readWhole n rest).andThen (.choice c · (.number 0)) fun a rest =>
          match rest with
          | ':' :: rest => (readChoice n rest).map (.choice c a)
          | _ => (.choice c (.broken a "expecting ':'") (.number 0), .error "expecting ':'")
      | rest => (c, .ok rest)

/-- Expressions joined by operators that bind at least as tightly as `level`. -/
def readBinary : Nat → Nat → Text → Read
  | 0, _, _ => nothing
  | n + 1, level, t => (readPrimary n t).andThen id (readJoined n level)

/-- An expression with what such operators join to it. -/
def readJoined : Nat → Nat → Expression → Text → Read
  | 0, _, a, t => (a, .ok t)
  | n + 1, level, a, t =>
    match operator? level t with
    | none => (a, .ok t)
    | some (sign, l, rest) =>
      ((readBinary n (l + 1) rest).map (.binary sign a)).andThen id (readJoined n level)

/-- A number, a name, an expression in parentheses, or one with a sign in front. -/
def readPrimary : Nat → Text → Read
  | 0, _ => nothing
  | n + 1, t =>
    let t := trim t
    match t with
    | '(' :: rest =>
      (readWhole n rest).andThen id fun a rest =>
        match rest with
        | ')' :: rest => (a, .ok rest)
        | _ => stop a "expecting ')'"
    | c :: rest =>
      if ['!', '~', '+', '-'].contains c then
        (readPrimary n rest).map (.unary c)
      else if isNameStart c then (.name (t.takeWhile isNameRest), .ok (t.dropWhile isNameRest))
      else match numeral? t with
        | some (m, rest) => (.number (clamp m), .ok rest)
        | none => nothing
    | [] => nothing

end

/-- The expression that a text writes as far as it makes sense, and what is wrong with it. -/
def ofText (t : Text) : Expression × Option String :=
  match readWhole (4 * t.length + 8) t with
  | (a, .error e) => (a, some e)
  | (a, .ok rest) => (a, if (trim rest).isEmpty then none else some "expecting EOF")

/-! ## Values -/

/-- The number that stands for a truth. -/
def truth (b : Bool) : Int := if b then 1 else 0

/-- Why a division has no value. -/
inductive DivisionError where
  | byZero
  /-- The value is the integer behind the greatest one. -/
  | overflow
  deriving DecidableEq, Repr

/-- The value of a division, which `divide` works out where there is one. -/
def divided (divide : Int → Int → Int) (a b : Int) : Except DivisionError Int :=
  if b = 0 then .error .byZero
  else if a = least && b = -1 then .error .overflow
  else .ok (divide a b)

/-- The value of an operator. -/
def combine (sign : String) (a b : Int) : Except DivisionError Int :=
  let shift := (b % 64).toNat
  match sign with
  | "==" => .ok (truth (a == b))
  | "!=" => .ok (truth (a != b))
  | "<=" => .ok (truth (a ≤ b))
  | ">=" => .ok (truth (b ≤ a))
  | "<" => .ok (truth (a < b))
  | ">" => .ok (truth (b < a))
  | "<<" => .ok (wrap (a * Int.pow 2 shift))
  | ">>" => .ok (a.fdiv (Int.pow 2 shift))
  | "|" => .ok ((Int64.ofInt a ||| Int64.ofInt b).toInt)
  | "^" => .ok ((Int64.ofInt a ^^^ Int64.ofInt b).toInt)
  | "&" => .ok ((Int64.ofInt a &&& Int64.ofInt b).toInt)
  | "+" => .ok (wrap (a + b))
  | "-" => .ok (wrap (a - b))
  | "*" => .ok (wrap (a * b))
  | "/" => divided Int.tdiv a b
  | "%" => divided Int.tmod a b
  | _ => .ok 0

/-- The value of a sign in front. -/
def applySign (sign : Char) (a : Int) : Int :=
  match sign with
  | '!' => truth (a == 0)
  | '~' => -a - 1
  | '-' => wrap (-a)
  | _ => a

/-- How variables are asked for and set, and how complaints are made. -/
structure Handler (m : Type → Type) where
  get : Text → m Int
  set : Text → Int → m Unit
  fail : String → m Int
  /-- What is done about a division without a value. -/
  stop : DivisionError → m Int

def eval {m : Type → Type} [Monad m] (h : Handler m) : Expression → m Int
  | .number n => pure n
  | .name x => h.get x
  | .unary sign a => do return applySign sign (← eval h a)
  | .choice c a b => do
    if (← eval h c) ≠ 0 then eval h a else eval h b
  | .binary "&&" a b => do
    if (← eval h a) = 0 then return 0
    return truth ((← eval h b) != 0)
  | .binary "||" a b => do
    if (← eval h a) ≠ 0 then return 1
    return truth ((← eval h b) != 0)
  | .binary sign a b => do
    match combine sign (← eval h a) (← eval h b) with
    | .ok n => return n
    | .error e => h.stop e
  | .assign x sign a => do
    let n ← eval h a
    let n ← match sign with
      | none => pure n
      | some s => do
        match combine s (← h.get x) n with
        | .ok n => pure n
        | .error e => h.stop e
    h.set x n
    return n
  | .broken a message => do
    discard <| eval h a
    h.fail message

end Expression

end LineShell.Script
