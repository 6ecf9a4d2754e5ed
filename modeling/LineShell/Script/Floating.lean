import LineShell.Script.Arithmetic

/-!
# Floating-point numbers

Numbers of fifty-three binary digits, read from texts and written as texts. All is worked out over
whole numbers: a number is the one nearest to what a text writes, and what is written of it is the
nearest of the numbers that have so many digits, an even one if two are nearest.

* `roundDiv` : the whole number nearest to a fraction;
* `Floating.nearest` : the number nearest to a fraction;
* `Floating.ofText?` : the number at the head of a text;
* `Floating.text` : a number without its sign, in the notation that a letter stands for.
-/

namespace LineShell.Script

/-- The whole number nearest to a fraction; the even one if two are. -/
def roundDiv (num den : Nat) : Nat :=
  let twice := 2 * (num % den)
  if twice < den then num / den
  else if den < twice then num / den + 1
  else num / den + num / den % 2

/-- A number of fifty-three binary digits. -/
inductive Floating where
  /-- The number `digits * 2 ^ exponent`. -/
  | finite (isNegative : Bool) (digits : Nat) (exponent : Int)
  | infinite (isNegative : Bool)
  | undefined (isNegative : Bool)
  deriving DecidableEq, Repr

namespace Floating

/-! ## Nearest numbers -/

/-- A fraction divided by a power of a base. -/
def dividedBy (base num den : Nat) (exponent : Int) : Nat × Nat :=
  if 0 ≤ exponent then (num, den * Nat.pow base exponent.toNat)
  else (num * Nat.pow base (-exponent).toNat, den)

def leastExponent : Int := -1074

def greatestExponent : Int := 971

/-- The exponent with which a fraction has fifty-three binary digits in front of its point, or the least
one. -/
def exponentOf (num den : Nat) : Int :=
  let e : Int := (num.log2 : Int) - den.log2 - 53
  let (n, d) := dividedBy 2 num den e
  max leastExponent (if Nat.pow 2 53 * d ≤ n then e + 1 else e)

/-- The number nearest to a fraction, and whether it is as near as one in range can be. -/
def nearest (isNegative : Bool) (num den : Nat) : Floating × Bool :=
  if num = 0 then (.finite isNegative 0 0, true)
  else
    let e := exponentOf num den
    let (n, d) := dividedBy 2 num den e
    let m := roundDiv n d
    let (m, e) := if m = Nat.pow 2 53 then (Nat.pow 2 52, e + 1) else (m, e)
    if greatestExponent < e then (.infinite isNegative, false)
    else (.finite isNegative m e, Nat.pow 2 52 ≤ m || n % d = 0)

/-! ## Reading -/

/-- What stands at the head of a text. -/
structure Numeral where
  value : Floating
  isInRange : Bool
  rest : Text

/-- How far from one a number of some base may be that is worked out; those further away are out of
range. -/
def horizon (base : Nat) : Int := if base = 2 then 2000 else 500

/-- The number `n * base ^ e`, and whether it is in range; `size` is how many digits `n` has. -/
def scaled (isNegative : Bool) (n size base : Nat) (e : Int) : Floating × Bool :=
  if n = 0 then (.finite isNegative 0 0, true)
  else if horizon base < size + e then (.infinite isNegative, false)
  else if size + e < -horizon base then (.finite isNegative 0 0, false)
  else
    let (num, den) := dividedBy base n 1 (-e)
    nearest isNegative num den

/-- The digits at the head of a text, perhaps with a point among them: their value, how many there are
behind the point, and the text behind them. -/
def digits? (base : Nat) (t : Text) : Option (Nat × Nat × Text) :=
  let isDigit := Expression.isDigitIn base
  let whole := t.takeWhile isDigit
  let (part, rest) := match t.drop whole.length with
    | '.' :: rest => (rest.takeWhile isDigit, rest.dropWhile isDigit)
    | rest => ([], rest)
  if whole.isEmpty && part.isEmpty then none
  else some (Expression.valueIn base (whole ++ part), part.length, rest)

/-- The exponent behind a mark, and the text behind it; zero if there is none. -/
def exponent (mark : Char) (t : Text) : Int × Text :=
  match t with
  | c :: rest =>
    let (isNegative, digits) := match rest with
      | '-' :: digits => (true, digits)
      | '+' :: digits => (false, digits)
      | digits => (false, digits)
    if c.toLower == mark && digits.head?.any Text.isDigit then
      let n : Int := Text.digitsValue (digits.takeWhile Text.isDigit)
      (if isNegative then -n else n, digits.dropWhile Text.isDigit)
    else (0, t)
  | [] => (0, [])

/-- The text behind a note in parentheses. -/
def behindNote (t : Text) : Text :=
  match t with
  | '(' :: rest =>
    match rest.dropWhile fun c => c.isAlphanum || c == '_' with
    | ')' :: rest => rest
    | _ => t
  | t => t

/-- The text behind a word, whatever the case of its letters. -/
def behind? (word : String) (t : Text) : Option Text :=
  if word.toList.isPrefixOf (t.map Char.toLower) then some (t.drop word.length) else none

/-- The number that a text without a sign starts with. -/
def unsigned? (isNegative : Bool) (t : Text) : Option Numeral :=
  match behind? "infinity" t <|> behind? "inf" t, behind? "nan" t, behind? "0x" t with
  | some rest, _, _ => some ⟨.infinite isNegative, true, rest⟩
  | _, some rest, _ => some ⟨.undefined isNegative, true, behindNote rest⟩
  | _, _, hexadecimal =>
    match hexadecimal.bind (digits? 16), digits? 10 t with
    | some (n, places, rest), _ =>
      let (e, rest) := exponent 'p' rest
      let (x, isInRange) := scaled isNegative n (n.log2 + 1) 2 (e - 4 * places)
      some ⟨x, isInRange, rest⟩
    | none, some (n, places, rest) =>
      let (e, rest) := exponent 'e' rest
      let (x, isInRange) := scaled isNegative n (Nat.toDigits 10 n).length 10 (e - places)
      some ⟨x, isInRange, rest⟩
    | none, none => none

/-- The number at the head of a text. -/
def ofText? (t : Text) : Option Numeral :=
  match t.dropWhile Expression.isBlank with
  | '-' :: rest => unsigned? true rest
  | '+' :: rest => unsigned? false rest
  | rest => unsigned? false rest

/-! ## Writing -/

/-- Digits with a point in front of the last `places` of them; a point with nothing behind it is left
out unless it is kept. -/
def pointed (keepsPoint : Bool) (places : Nat) (digits : Text) : Text :=
  let n := digits.length - places
  digits.take n ++ if places = 0 && !keepsPoint then [] else '.' :: digits.drop n

/-- A fraction with so many places. -/
def fixed (keepsPoint : Bool) (places num den : Nat) : Text :=
  pointed keepsPoint places (Text.zeroed (places + 1) (Nat.toDigits 10 (roundDiv (num * Nat.pow 10 places) den)))

/-- The exponent of the first digit of a fraction that is not zero. -/
def leading (num den : Nat) : Int :=
  if den ≤ num then (Nat.toDigits 10 (num / den)).length - 1
  else
    let n := (Nat.toDigits 10 (den / num)).length
    if den ≤ num * Nat.pow 10 (n - 1) then 1 - n else -n

/-- The first digits of a fraction, one and so many places, and the exponent of the first. -/
def firstDigits (places num den : Nat) : Text × Int :=
  if num = 0 then (List.replicate (places + 1) '0', 0)
  else
    let e := leading num den
    let (n, d) := dividedBy 10 num den (e - places)
    let m := roundDiv n d
    if m = Nat.pow 10 (places + 1) then (Nat.toDigits 10 (Nat.pow 10 places), e + 1) else (Nat.toDigits 10 m, e)

/-- An exponent behind its mark, with two digits or more where `width` is two. -/
def marked (mark : Char) (width : Nat) (e : Int) : Text :=
  mark :: (if e < 0 then '-' else '+') :: Text.zeroed width (Nat.toDigits 10 e.natAbs)

/-- A text that has a point without the zeros at its end, and without the point if that is then last. -/
def trimmed (t : Text) : Text :=
  if t.contains '.' then
    match t.reverse.dropWhile (· == '0') with
    | '.' :: rest => rest.reverse
    | rest => rest.reverse
  else t

/-- A fraction with so many digits and an exponent where it is far from one. -/
def general (keepsPoint : Bool) (count num den : Nat) : Text :=
  let trim := fun (t : Text) => if keepsPoint then t else trimmed t
  let (digits, e) := firstDigits (count - 1) num den
  if -4 ≤ e && e < count then trim (fixed keepsPoint (count - 1 - e).toNat num den)
  else trim (pointed keepsPoint (count - 1) digits) ++ marked 'e' 2 e

/-- A number in hexadecimal digits. -/
def hexadecimal (precision : Option Nat) (keepsPoint : Bool) (digits : Nat) (e : Int) : Text :=
  if digits = 0 then
    let places := precision.getD 0
    pointed keepsPoint places (List.replicate (places + 1) '0') ++ marked 'p' 1 0
  else
    let places := precision.getD 13
    let n := if places < 13 then roundDiv digits (Nat.pow 2 (52 - 4 * places))
      else digits * Nat.pow 16 (places - 13)
    let t := pointed true places (Text.zeroed (places + 1) (Nat.toDigits 16 n))
    let t := if precision.isNone then trimmed t else t
    let t := if keepsPoint then if t.contains '.' then t else t ++ ['.']
      else if t.getLast? == some '.' then t.dropLast else t
    t ++ marked 'p' 1 (e + 52)

def isNegative : Floating → Bool
  | finite b .. | infinite b | undefined b => b

def isFinite : Floating → Bool
  | finite .. => true
  | _ => false

/-- The digits of a number in the notation that a letter stands for. -/
def body (letter : Char) (precision : Option Nat) (keepsPoint : Bool) : Floating → Text
  | infinite _ => "inf".toList
  | undefined _ => "nan".toList
  | finite _ digits e =>
    let (num, den) := dividedBy 2 digits 1 (-e)
    let places := precision.getD 6
    match letter with
    | 'f' => fixed keepsPoint places num den
    | 'e' =>
      let (ds, e) := firstDigits places num den
      pointed keepsPoint places ds ++ marked 'e' 2 e
    | 'g' => general keepsPoint (max 1 places) num den
    | _ => hexadecimal precision keepsPoint digits e

/-- A number without its sign in the notation that a letter stands for: what is in front of any zeros
that fill it up, and its digits. -/
def text (letter : Char) (precision : Option Nat) (keepsPoint : Bool) (x : Floating) : Text × Text :=
  let small := letter.toLower
  let front := if small == 'a' && x.isFinite then ['0', 'x'] else []
  let t := x.body small precision keepsPoint
  if letter.isUpper then (front.map Char.toUpper, t.map Char.toUpper) else (front, t)

end Floating

end LineShell.Script
