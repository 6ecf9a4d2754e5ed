import LineShell.Script.Arithmetic

/-!
# Tests

* `TestView` : what a test can ask about what is outside of it;
* `TestWord` : what a word is in a test;
* `TestFault` : what is wrong with a test;
* `test` : the truth of a `test` expression.
-/

namespace LineShell.Script

/-- What a test can ask about what is outside of it. -/
structure TestView where
  /-- Whether a path has the property that a letter stands for. -/
  has : Char → Text → Bool
  /-- Whether two paths lead to one file. -/
  same : Text → Text → Bool
  /-- Whether something stands behind the words that is no word. -/
  isLittered : Bool

/-- What a test can ask whose last word is not part of it. -/
def TestView.enclosed (view : TestView) : TestView := { view with isLittered := false }

/-- What is wrong with a test. -/
inductive TestFault where
  | complaint (message : Text)
  /-- It has read on behind its words, to where something stands that is no word. -/
  | astray
  deriving DecidableEq, Repr

/-- What a word is in a test. -/
inductive TestWord where
  | finish
  | operand
  | unary (letter : Char)
  | binary (sign : String)
  | not
  | and
  | or
  | opening
  | closing
  deriving DecidableEq, Repr

namespace TestWord

def unaryLetters : Text := "rwxefdcbpugkstznhOGLS".toList

def binarySigns : List String :=
  ["=", "!=", "<", ">", "-eq", "-ne", "-gt", "-ge", "-lt", "-le", "-nt", "-ot", "-ef"]

/-- What a word is by itself. -/
def ofText (t : Text) : TestWord :=
  let s := String.ofList t
  match t with
  | ['!'] => .not
  | ['('] => .opening
  | [')'] => .closing
  | ['-', 'a'] => .and
  | ['-', 'o'] => .or
  | ['-', c] => if unaryLetters.contains c then .unary c else .operand
  | _ => if binarySigns.contains s then .binary s else .operand

def isBinary : TestWord → Bool
  | binary _ => true
  | _ => false

/-- What the first of some words is: an operator with nothing to work on is an operand. -/
def first : List Text → TestWord
  | [] => .finish
  | w :: ws =>
    match ofText w, ws with
    | .unary _, [] => .operand
    | .unary c, [_] => .unary c
    | .unary c, v :: _ => if (ofText v).isBinary then .operand else .unary c
    | .opening, [] => .operand
    | k, _ => k

end TestWord

/-- The integer that an operand denotes. -/
def testInt (t : Text) : Except Text Int :=
  let digits := match t.dropWhile Expression.isBlank with
    | '-' :: rest | '+' :: rest => rest
    | rest => rest
  let n : Int := Text.digitsValue (digits.takeWhile Text.isDigit)
  let n := if t.dropWhile Expression.isBlank |>.head? |> (· == some '-') then -n else n
  if digits.head?.any Text.isDigit && (digits.dropWhile Text.isDigit).all Expression.isBlank &&
      Expression.least ≤ n && n ≤ Expression.greatest then .ok n
  else .error ("Illegal number: ".toList ++ t)

/-- Whether a text comes before another, by the first character that differs. -/
def comesBefore (a b : Text) : Bool := a.map Char.toNat < b.map Char.toNat

/-- The truth of a comparison. -/
def compare (view : TestView) (a : Text) (sign : String) (b : Text) : Except Text Bool :=
  let ints := fun (holds : Int → Int → Bool) => do return holds (← testInt a) (← testInt b)
  match sign with
  | "=" => .ok (a == b)
  | "!=" => .ok (a != b)
  | "<" => .ok (comesBefore a b)
  | ">" => .ok (comesBefore b a)
  | "-eq" => ints (· == ·)
  | "-ne" => ints (· != ·)
  | "-gt" => ints (· > ·)
  | "-ge" => ints (· ≥ ·)
  | "-lt" => ints (· < ·)
  | "-le" => ints (· ≤ ·)
  | "-ef" => .ok (view.same a b)
  | "-nt" => .ok false
  | "-ot" => .ok false
  | _ => .ok false

/-- The truth of an operator with one operand. -/
def testOne (view : TestView) (letter : Char) (a : Text) : Except Text Bool :=
  match letter with
  | 'z' => .ok a.isEmpty
  | 'n' => .ok (!a.isEmpty)
  | 't' => do
    discard <| testInt a
    return false
  | c => .ok (view.has c a)

/-- A truth, or what is wrong with what was to be found true. -/
abbrev Tested := Except TestFault

/-- Complains. -/
def TestFault.raise {α : Type} (message : Text) : Tested α := .error (.complaint message)

/-- The words behind an operator, with nothing wrong behind them if there are none. -/
def wordsBehind (view : TestView) (ws : List Text) : Tested (List Text) :=
  if ws.length ≤ 2 && view.isLittered then .error .astray else .ok (ws.drop 2)

mutual

/-- The truth of alternatives, the first word of which is a `k`, and the words from the last one of
them on. -/
def testAny (view : TestView) : Nat → TestWord → List Text → Tested (Bool × List Text)
  | 0, _, ws => .ok (false, ws)
  | n + 1, k, ws => do
    let (a, ws) ← testAll view n k ws
    if TestWord.first ws.tail = .or then
      let ws ← wordsBehind view ws
      let (b, ws) ← testAny view n (TestWord.first ws) ws
      return (a || b, ws)
    else return (a, ws)

/-- The truth of conditions that have to hold together. -/
def testAll (view : TestView) : Nat → TestWord → List Text → Tested (Bool × List Text)
  | 0, _, ws => .ok (false, ws)
  | n + 1, k, ws => do
    let (a, ws) ← testNot view n k ws
    if TestWord.first ws.tail = .and then
      let ws ← wordsBehind view ws
      let (b, ws) ← testAll view n (TestWord.first ws) ws
      return (a && b, ws)
    else return (a, ws)

/-- The truth of a condition, perhaps negated. -/
def testNot (view : TestView) : Nat → TestWord → List Text → Tested (Bool × List Text)
  | 0, _, ws => .ok (false, ws)
  | n + 1, k, ws => do
    if k = .not then
      let next := TestWord.first ws.tail
      let (a, ws) ← testNot view n next (if next = .finish then ws else ws.tail)
      return (!a, ws)
    else testPrimary view n k ws

/-- The truth of one condition. -/
def testPrimary (view : TestView) : Nat → TestWord → List Text → Tested (Bool × List Text)
  | 0, _, ws => .ok (false, ws)
  | n + 1, k, ws => do
    let miss := fun (op : Text) => TestFault.raise (op ++ ": argument expected".toList)
    match k, ws with
    | .finish, ws => return (false, ws)
    | .opening, _ :: ws =>
      let next := TestWord.first ws
      if next = .closing then return (false, ws)
      let (a, ws) ← testAny view n next ws
      if TestWord.first ws.tail = .closing then return (a, ws.tail)
      else TestFault.raise "closing paren expected".toList
    | .unary c, op :: ws =>
      match ws with
      | [] => miss op
      | a :: _ => return (← (testOne view c a).mapError .complaint, ws)
    | _, a :: ws =>
      match TestWord.first ws, ws with
      | .binary sign, op :: ws =>
        match ws with
        | [] => miss op
        | b :: _ => return (← (compare view a sign b).mapError .complaint, ws)
      | _, _ => return (!a.isEmpty, a :: ws)
    | _, [] => return (false, [])

end

/-- The truth of a whole expression whose first word is a `k`. -/
def testWhole (view : TestView) (k : TestWord) (ws : List Text) : Tested Bool := do
  match ← testAny view (4 * ws.length + 8) k ws with
  | (_, last :: _ :: _) =>
    TestFault.raise ((if last.isEmpty then [] else last ++ ": ".toList) ++ "unexpected operator".toList)
  | (truth, _) => return truth

/-- The truth of a `test` expression that may stand behind a `!`, two of which are as good as one. -/
def testBehind (view : TestView) (isNegated : Bool) : List Text → Tested Bool
  | [] => .ok isNegated
  | [a, op, b] =>
    if (TestWord.ofText op).isBinary then whole .operand [a, op, b]
    else if a == ['('] && b == [')'] then bracketed [op]
    else if a == ['!'] then testBehind view true [op, b]
    else whole (TestWord.first [a, op, b]) [a, op, b]
  | [a, b, c, d] =>
    if a == ['('] && d == [')'] then bracketed [b, c]
    else if a == ['!'] then testBehind view true [b, c, d]
    else whole (TestWord.first [a, b, c, d]) [a, b, c, d]
  | ws => whole (TestWord.first ws) ws
where
  whole (k : TestWord) (ws : List Text) : Tested Bool :=
    (testWhole view k ws).map (· != isNegated)
  bracketed (ws : List Text) : Tested Bool :=
    (testWhole view.enclosed (TestWord.first ws) ws).map (· != isNegated)

def test (view : TestView) : List Text → Tested Bool := testBehind view false

end LineShell.Script
