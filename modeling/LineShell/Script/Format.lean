import LineShell.Script.Escape
import LineShell.Script.Floating

/-!
# Formats

What `printf` makes of its arguments.

* `Field` : how a value is set;
* `Printed` : what has been written, and the arguments that are left;
* `printf` : what is written, with complaints about arguments, and what is wrong with the format.
-/

namespace LineShell.Script

/-- How a value is set in a field. -/
structure Field where
  flags : Text
  width : Nat
  /-- Whether it stands to the left of its field. -/
  left : Bool
  precision : Option Nat

namespace Field

def has (f : Field) (flag : Char) : Bool := f.flags.contains flag

/-- A text filled up to the width of a field, behind a sign that stays in front of zeros. -/
def fill (f : Field) (zeros : Bool) (sign t : Text) : Text :=
  let gap := f.width - (sign.length + t.length)
  if f.left then sign ++ t ++ List.replicate gap ' '
  else if zeros then sign ++ List.replicate gap '0' ++ t
  else List.replicate gap ' ' ++ sign ++ t

/-- The sign that stands in front of a number. -/
def signOf (f : Field) (isNegative : Bool) : Text :=
  if isNegative then ['-'] else if f.has '+' then ['+'] else if f.has ' ' then [' '] else []

/-- A text in its field. -/
def ofText (f : Field) (t : Text) : Text := f.fill false [] (t.take (f.precision.getD t.length))

/-- Digits behind a sign in their field. -/
def ofDigits (f : Field) (sign digits : Text) : Text :=
  let least := f.precision.getD 1
  let digits := if digits == ['0'] then [] else digits
  let digits := List.replicate (least - digits.length) '0' ++ digits
  f.fill (f.has '0' && f.precision.isNone) sign digits

/-- An integer in its field. -/
def ofInt (f : Field) (n : Int) : Text := f.ofDigits (f.signOf (n < 0)) (Text.ofNat n.natAbs)

/-- A floating-point number in its field, in the notation that a letter stands for. -/
def ofFloating (f : Field) (letter : Char) (x : Floating) : Text :=
  let (front, digits) := x.text letter f.precision (f.has '#')
  f.fill (f.has '0' && x.isFinite) (f.signOf x.isNegative ++ front) digits

/-- A natural number in its field, in the base that a letter stands for. -/
def ofNat (f : Field) (letter : Char) (n : Nat) : Text :=
  match letter with
  | 'o' =>
    let digits := Nat.toDigits 8 n
    f.ofDigits [] (if f.has '#' && n ≠ 0 then '0' :: digits else digits)
  | 'x' => f.ofDigits (if f.has '#' && n ≠ 0 then ['0', 'x'] else []) (Nat.toDigits 16 n)
  | 'X' =>
    let digits := (Nat.toDigits 16 n).map Char.toUpper
    f.ofDigits (if f.has '#' && n ≠ 0 then ['0', 'X'] else []) digits
  | _ => f.ofDigits [] (Text.ofNat n)

end Field

/-- What `printf` has written so far. -/
structure Printed where
  text : Text
  args : List Text
  /-- Whether an argument was called for. -/
  used : Bool
  complaints : List Text
  /-- Whether nothing more is to be written. -/
  closed : Bool
  /-- What is wrong with the format, if something is. -/
  failure : Option Text := none

namespace Printed

/-- Another complaint about an argument. -/
def complain (p : Printed) (arg : Text) (message : String) : Printed :=
  { p with complaints := p.complaints ++ [arg ++ ": ".toList ++ message.toList] }

/-- The next argument. -/
def next (p : Printed) : Text × Printed :=
  (p.args.headD [], { p with args := p.args.tail, used := true })

/-- The next argument as an integer within bounds. -/
def nextInt (p : Printed) (low high : Int) : Int × Printed :=
  let (arg, p) := p.next
  match arg with
  | [] => (0, p)
  | '\x27' :: rest | '\x22' :: rest => (((rest.headD '\x00').toNat : Int), p)
  | arg => match Expression.integer? arg with
    | none => (0, p.complain arg "expected numeric value")
    | some (n, []) =>
      if low ≤ n && n ≤ high then (n, p)
      else (max low (min high n), p.complain arg "Numerical result out of range")
    | some (n, _) => (max low (min high n), p.complain arg "not completely converted")

def nextFloating (p : Printed) : Floating × Printed :=
  let (arg, p) := p.next
  match arg with
  | [] => (.finite false 0 0, p)
  | '\x27' :: rest | '\x22' :: rest => ((Floating.nearest false (rest.headD '\x00').toNat 1).1, p)
  | arg => match Floating.ofText? arg with
    | none => (.finite false 0 0, p.complain arg "expected numeric value")
    | some n =>
      let p := if !n.rest.isEmpty then p.complain arg "not completely converted"
        else if n.isInRange then p
        else p.complain arg "Numerical result out of range"
      (n.value, p)

/-- Nothing more is written, for something is wrong with the format. -/
def fail (p : Printed) (message : Text) : Printed :=
  { p with closed := true, failure := some message }

def write (p : Printed) (t : Text) : Printed := { p with text := p.text ++ t }

/-- The number that a format gives or asks an argument for, and the format behind it. -/
def measure (p : Printed) (format : Text) : Option Int × Printed × Text :=
  match format with
  | '*' :: rest =>
    let (n, p) := p.nextInt Expression.least Expression.greatest
    (some n, p, rest)
  | format =>
    let digits := format.takeWhile Text.isDigit
    (if digits.isEmpty then none else some (Text.digitsValue digits : Int), p, format.drop digits.length)

/-- The next argument in the field `f`, as the letter says; none for a letter that says nothing. -/
def convert? (p : Printed) (f : Field) (letter : Char) : Option Printed :=
  match letter with
  | 's' => let (arg, p) := p.next; some (p.write (f.ofText arg))
  | 'b' =>
    let (arg, p) := p.next
    let (t, complete) := unescape arg
    some { p.write (f.ofText t) with closed := !complete }
  | 'c' => let (arg, p) := p.next; some (p.write (f.fill false [] [arg.headD '\x00']))
  | 'd' | 'i' =>
    let (n, p) := p.nextInt Expression.least Expression.greatest
    some (p.write (f.ofInt n))
  | 'u' | 'o' | 'x' | 'X' =>
    let (n, p) := p.nextInt (-Int.pow 2 64 + 1) (Int.pow 2 64 - 1)
    some (p.write (f.ofNat letter (n % Int.pow 2 64).toNat))
  | 'a' | 'A' | 'e' | 'E' | 'f' | 'F' | 'g' | 'G' =>
    let (x, p) := p.nextFloating
    some (p.write (f.ofFloating letter x))
  | _ => none

/-- What one use of a format writes. -/
def formatOnce : Nat → Text → Printed → Printed
  | 0, _, p => p
  | _, [], p => p
  | n + 1, '%' :: '%' :: rest, p => formatOnce n rest (p.write ['%'])
  | n + 1, '\\' :: rest, p =>
    let (c, rest) := escaped rest
    formatOnce n rest (p.write [c])
  | n + 1, '%' :: rest, p =>
    let flags := rest.takeWhile "#-+ 0".toList.contains
    let (width, p, behind) := p.measure (rest.drop flags.length)
    let (precision, p, behind) := match behind with
      | '.' :: behind =>
        let (m, p, behind) := p.measure behind
        (some (m.getD 0), p, behind)
      | behind => (none, p, behind)
    let width := width.getD 0
    let f : Field := ⟨flags, width.natAbs, flags.contains '-' || width < 0,
      precision.bind fun m => if m < 0 then none else some m.toNat⟩
    match behind with
    | [] => p.fail "missing format character".toList
    | letter :: behind =>
      match p.convert? f letter with
      | some p => if p.closed then p else formatOnce n behind p
      | none => p.fail ('%' :: rest.take (rest.length - behind.length) ++ ": invalid directive".toList)
  | n + 1, c :: rest, p => formatOnce n rest (p.write [c])

/-- The format used until the arguments are. -/
def formatAll (format : Text) : Nat → Printed → Printed
  | 0, p => p
  | fuel + 1, p =>
    let p := formatOnce format.length.succ format { p with used := false }
    if p.used && !p.args.isEmpty && !p.closed then formatAll format fuel p else p

end Printed

def printf : List Text → Printed
  | [] => Printed.fail ⟨[], [], false, [], false, none⟩ "usage: printf format [arg ...]".toList
  | format :: args => Printed.formatAll format (args.length + 1) ⟨[], args, false, [], false, none⟩

end LineShell.Script
