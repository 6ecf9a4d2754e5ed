import LineShell.Script.Arithmetic

/-!
# Backslash sequences

Texts in which a backslash and what is behind it stand for a character.

* `unescape` : a text with its sequences put in;
* `echo` : the text that `echo` writes; `plainEcho` the one of an `echo` that keeps backslashes.
-/

namespace LineShell.Script

/-! ## Sequences -/

def isOctal (c : Char) : Bool := '0' ≤ c && c ≤ '7'

/-- The octet that digits denote in a base. -/
def octetIn (base : Nat) (t : Text) : Char := Char.ofNat (Expression.valueIn base t % 256)

/-- The character that a letter behind a backslash stands for. -/
def escape? : Char → Option Char
  | 'a' => some '\x07'
  | 'b' => some '\x08'
  | 'e' => some '\x1b'
  | 'f' => some '\x0c'
  | 'n' => some '\n'
  | 'r' => some '\r'
  | 't' => some '\t'
  | 'v' => some '\x0b'
  | '\\' => some '\\'
  | _ => none

/-- The character that the text behind a backslash starts with, and the text behind it; the backslash
stands for itself if it starts no sequence. -/
def escaped (t : Text) : Char × Text :=
  match t with
  | [] => ('\\', [])
  | c :: rest =>
    if isOctal c then
      let digits := (t.take 3).takeWhile isOctal
      (octetIn 8 digits, t.drop digits.length)
    else match escape? c with
      | some d => (d, rest)
      | none => ('\\', t)

/-- A text with its backslash sequences put in, behind the characters `seen` (last one first), and
whether it goes on to its end: `\c` ends it. -/
def unescapeFrom (more : Text → Option (Char × Text)) : Nat → Text → Text → Text × Bool
  | 0, seen, t => (seen.reverse ++ t, true)
  | _, seen, [] => (seen.reverse, true)
  | fuel + 1, seen, '\\' :: rest =>
    match rest, more rest with
    | 'c' :: _, _ => (seen.reverse, false)
    | _, some (d, rest) => unescapeFrom more fuel (d :: seen) rest
    | '0' :: c :: behind, none =>
      let (d, rest) := if isOctal c then escaped (c :: behind) else escaped rest
      unescapeFrom more fuel (d :: seen) rest
    | rest, none =>
      let (d, rest) := escaped rest
      unescapeFrom more fuel (d :: seen) rest
  | fuel + 1, seen, c :: rest => unescapeFrom more fuel (c :: seen) rest

/-- A text with its backslash sequences put in, and whether it goes on to its end. -/
def unescape (t : Text) : Text × Bool := unescapeFrom (fun _ => none) t.length [] t

/-- The sequences that only some commands know: hexadecimal octets. -/
def moreEscapes? : Text → Option (Char × Text)
  | 'x' :: rest =>
    let digits := (rest.take 2).takeWhile (Expression.isDigitIn 16)
    if digits.isEmpty then none else some (octetIn 16 digits, rest.drop digits.length)
  | _ => none

/-- Words with a space between each two. -/
def joinWords (ws : List Text) : Text := (ws.intersperse [' ']).flatten

/-! ## Echo -/

def echo (args : List Text) : Text :=
  let isOpen := args.head? == some ['-', 'n']
  let (t, complete) := unescape (joinWords (if isOpen then args.tail else args))
  if complete && !isOpen then t ++ ['\n'] else t

/-- Whether a word is made of options of a plain `echo`: `n` for no newline, `e` for backslash
sequences and `E` for none. -/
def isEchoOption : Text → Bool
  | '-' :: c :: cs => (c :: cs).all ['n', 'e', 'E'].contains
  | _ => false

/-- The text that an `echo` writes which keeps backslashes unless told otherwise. A strict one keeps none,
and has options only where the first word is `-n`. -/
def plainEcho (isStrict : Bool) (args : List Text) : Text :=
  let options := if isStrict && args.head? != some ['-', 'n'] then [] else args.takeWhile isEchoOption
  let letters := options.flatten
  let t := joinWords (args.drop options.length)
  let unescapes := isStrict || (letters.filter fun c => c == 'e' || c == 'E').getLast? == some 'e'
  let (t, complete) := if unescapes then unescapeFrom moreEscapes? t.length [] t else (t, true)
  if complete && !letters.contains 'n' then t ++ ['\n'] else t

end LineShell.Script
