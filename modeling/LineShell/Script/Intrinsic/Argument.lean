import LineShell.Script.Eval

/-!
# Arguments of commands

* `Intrinsic.options` : the options of a command, and its other arguments;
* `Intrinsic.quote` : a text in quotes, as the language reads it back.
-/

namespace LineShell.Script.Intrinsic

open Eval

/-- The options of a command: letters of `known`, one with a `:` behind it taking an argument. They end
at `--` or at the first argument that is none. -/
def optionsFrom (known : Text) : Nat → List (Char × Text) → List Text →
    Eval (List (Char × Text) × List Text)
  | 0, done, args => return (done.reverse, args)
  | n + 1, done, args =>
    match args with
    | ['-', '-'] :: rest => return (done.reverse, rest)
    | ('-' :: c :: cs) :: rest =>
      match known.dropWhile (· != c) with
      | [] => fail ("Illegal option -".toList ++ [c])
      | _ :: ':' :: _ =>
        match cs, rest with
        | [], [] => fail ("No arg for -".toList ++ c :: " option".toList)
        | [], arg :: rest => optionsFrom known n ((c, arg) :: done) rest
        | cs, rest => optionsFrom known n ((c, cs) :: done) rest
      | _ =>
        if cs.isEmpty then optionsFrom known n ((c, []) :: done) rest
        else optionsFrom known n ((c, []) :: done) (('-' :: cs) :: rest)
    | args => return (done.reverse, args)

/-- The options of a command, and its other arguments. -/
def options (known : String) (args : List Text) : Eval (List (Char × Text) × List Text) :=
  optionsFrom known.toList (args.flatten.length + args.length + 1) [] args

def given (os : List (Char × Text)) (letter : Char) : Bool := os.any (·.1 == letter)

/-- A text in quotes that the language reads back. Quotes in it stand between double quotes. -/
def quotedText : Nat → Text → Text
  | 0, t => t
  | n + 1, t =>
    let isQuote := fun (c : Char) => c == '\x27'
    let head := '\x27' :: t.takeWhile (!isQuote ·) ++ ['\x27']
    match t.dropWhile (!isQuote ·) with
    | [] => head
    | rest =>
      let quotes := '\x22' :: rest.takeWhile isQuote ++ ['\x22']
      match rest.dropWhile isQuote with
      | [] => head ++ quotes
      | rest => head ++ quotes ++ quotedText n rest

/-- A text in quotes. -/
def quote (t : Text) : Text := quotedText t.length.succ t

end LineShell.Script.Intrinsic
