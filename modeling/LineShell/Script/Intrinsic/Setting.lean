import LineShell.Script.Escape
import LineShell.Script.Expand
import LineShell.Script.Intrinsic.Name

/-!
# Settings

The commands that set what a process has for itself: its arguments, its options, the mask that is taken
off new files and its limits.

* `Intrinsic.setOptions` : sets options;
* `Intrinsic.shift`, `set`, `getopts` : arguments;
* `Intrinsic.umask`, `ulimit` : the mask and the limits.
-/

namespace LineShell.Script.Intrinsic

open Eval

/-! ## Arguments and options -/

/-- `shift [N]` -/
def shift (args : List Text) : Eval Unit := do
  let n ← match args with
    | t :: _ => number t
    | [] => pure 1
  if (← get).args.length < n then fail "can't shift that many".toList
  modify fun p => { p with args := p.args.drop n, progress := {} }
  setStatus 0

/-- The options by their names. Two of them have no letter and are never set. -/
def optionNames : List (String × Option Char) :=
  [("errexit", 'e'), ("noglob", 'f'), ("ignoreeof", 'I'), ("interactive", 'i'), ("monitor", 'm'),
    ("noexec", 'n'), ("stdin", 's'), ("xtrace", 'x'), ("verbose", 'v'), ("vi", 'V'), ("emacs", 'E'),
    ("noclobber", 'C'), ("allexport", 'a'), ("notify", 'b'), ("nounset", 'u'), ("privileged", 'p'),
    ("nolog", none), ("debug", none)]

/-- Sets an option or takes it back. -/
def setOption (isSet : Bool) (letter : Char) : Eval Unit := do
  if !Expand.optionLetters.contains letter then fail ("Illegal option -".toList ++ [letter])
  modify fun p =>
    let others := p.options.filter (· != letter)
    { p with options := if isSet then letter :: others else others }

/-- Lists the options: for a reader, or as commands that would set them again. -/
def listOptions (forReader : Bool) : Eval Unit := do
  if forReader then putLine "Current option settings".toList
  for (name, letter) in optionNames do
    let isSet ← letter.elim (pure false) hasOption
    let name := name.toList
    if forReader then
      putLine (name ++ List.replicate (16 - name.length) ' ' ++ (if isSet then "on" else "off").toList)
    else putLine ("set ".toList ++ (if isSet then '-' else '+') :: "o ".toList ++ name)

/-- Sets the option of a name or takes it back; without a name, lists them all. -/
def setNamed (isSet : Bool) : Option Text → Eval Unit
  | none => listOptions isSet
  | some name =>
    match optionNames.lookup (String.ofList name) with
    | some (some letter) => setOption isSet letter
    | some none => return
    | none => fail ("Illegal option -o ".toList ++ name)

/-- Sets options from arguments, and gives the other arguments; none if nothing is said about them. The
letters in `kept` are given to the caller instead. -/
def setOptions (kept : Text) : Nat → Text → List Text → Eval (Text × Option (List Text))
  | 0, found, _ => return (found, none)
  | n + 1, found, args =>
    match args with
    | [] => return (found, none)
    | ['-', '-'] :: rest => return (found, some rest)
    | ['-'] :: rest => do
      if kept.isEmpty then
        modify fun p => { p with options := p.options.filter fun c => c != 'x' && c != 'v' }
      return (found, if rest.isEmpty then none else some rest)
    | (sign :: letters) :: rest => do
      if sign != '-' && sign != '+' then return (found, some args)
      let isSet := sign == '-'
      let mut rest := rest
      let mut found := found
      for letter in letters do
        if kept.contains letter then found := letter :: found
        else if letter == 'o' then
          setNamed isSet rest.head?
          rest := rest.tail
        else setOption isSet letter
      setOptions kept n found rest
    | args => return (found, some args)

/-- Takes the option `m` back, for which a terminal is missing. Copies of a process do not ask for one. -/
def missTerminal : Eval Unit := do
  let p ← get
  if p.options.contains 'm' && p.id = p.pid then
    complain "can't access tty; job control turned off".toList
    setOption false 'm'

/-- `set [OPTION...] [ARG...]` -/
def set (args : List Text) : Eval Unit := do
  if args.isEmpty then list [] ((← get).vars.filter (·.value.isSome))
  else
    let (_, rest) ← setOptions [] (args.length + 1) [] args
    if let some args := rest then modify ({ · with args, progress := {} })
    missTerminal
    setStatus 0

/-- What stands behind a letter in the letters of `getopts`, where a `:` behind a letter is none. -/
def behindLetter? (c : Char) : Text → Option Text
  | [] => none
  | d :: rest =>
    if d == c then some rest
    else match rest with
      | ':' :: rest => behindLetter? c rest
      | rest => behindLetter? c rest

/-- The next letter among some words, the text behind it in its word, and the place of the word that
comes next; no letter at the end of the options. -/
def nextLetter (words : List Text) (p : Progress) : Option (Char × Text) × Nat :=
  let p := if words.length + 1 < p.place then {} else p
  let under := match p.behind with
    | some n => if 1 < p.place then (words.getD (p.place - 2) []).drop n else []
    | none => []
  match under, words.getD (p.place - 1) [] with
  | c :: rest, _ => (some (c, rest), p.place)
  | [], ['-', '-'] => (none, p.place + 1)
  | [], '-' :: c :: rest => (some (c, rest), p.place + 1)
  | [], _ => (none, p.place)

/-- `getopts LETTERS NAME [ARG...]` -/
def getopts (args : List Text) : Eval Unit := do
  match args with
  | letters :: name :: given =>
    let p ← get
    let words := if given.isEmpty then p.args else given
    let (letter, place) := nextLetter words p.progress
    let isQuiet := letters.head? == some ':'
    let finish := fun (place : Nat) (under : Option Text) (letter : Char) (status : Nat) => do
      setVar "OPTIND".toList (Text.ofNat place)
      setVar name [letter]
      let behind := under.map fun t => (words.getD (place - 2) []).length - t.length
      modify ({ · with progress := ⟨place, behind⟩ })
      setStatus status
    let blame := fun (message : String) (c : Char) (end_ : String) => do
      if isQuiet then setVar "OPTARG".toList [c]
      else
        writeTo 2 (message.toList ++ c :: end_.toList)
        dropVar "OPTARG".toList
    match letter with
    | none => finish place none '?' 1
    | some (c, under) =>
      match behindLetter? c letters with
      | none => do
        blame "Illegal option -" c "\n"
        finish place (some under) '?' 0
      | some (':' :: _) =>
        match under, words[place - 1]? with
        | [], none => do
          blame "No arg for -" c " option\n"
          finish place none (if isQuiet then ':' else '?') 0
        | [], some arg => do
          setVar "OPTARG".toList arg
          finish (place + 1) none c 0
        | arg, _ => do
          setVar "OPTARG".toList arg
          finish place none c 0
      | some _ => do
        setVar "OPTARG".toList []
        finish place (some under) c 0
  | _ => fail "Usage: getopts optstring var [arg...]".toList

/-! ## The mask -/

/-- What a mask lets the owner, the group or others do. -/
def allowed (mask shift : Nat) : Text :=
  let bits := 7 - mask / shift % 8
  (if bits / 4 % 2 = 1 then ['r'] else []) ++ (if bits / 2 % 2 = 1 then ['w'] else []) ++
    if bits % 2 = 1 then ['x'] else []

/-- The bits that stand for the letters of a change of a mask, in the mask's last three bits; `may` is what
the mask leaves. -/
def permission (may : Nat) : Char → Nat
  | 'r' => 4
  | 'w' => 2
  | 'x' => 1
  | 'u' => may / 64 % 8
  | 'g' => may / 8 % 8
  | 'o' => may % 8
  | 'X' => if may &&& 0o111 != 0 then 1 else 0
  | _ => 0

/-- The bits that stand for those who a change of a mask is about; all of them where none is named. -/
def positions (who : Text) : Nat :=
  let one : Char → Nat := fun
    | 'a' => 0o111
    | 'u' => 0o100
    | 'g' => 0o010
    | _ => 0o001
  if who.isEmpty then 0o111 else who.foldl (fun n c => n ||| one c) 0

/-- What is left by a mask after the changes that a text writes; none if it makes no sense. The text ends
at a NUL; one that stands for a sign is read like one, so that what is behind it is read as well. -/
def changed (may : Nat) : Nat → Text → Nat → Text → Option Nat
  | 0, _, _, _ => none
  | _, _, left, [] => some left
  | _, _, left, '\x00' :: _ => some left
  | n + 1, who, left, t =>
    let more := t.takeWhile "augo".toList.contains
    let who := who ++ more
    match t.drop more.length with
    | [] => some left
    | sign :: rest =>
      let letters := rest.takeWhile "rwxugoXs".toList.contains
      let bits := letters.foldl (fun n c => n ||| permission may c) 0
      let value := (bits &&& 7) * positions who
      let left? := match sign with
        | '-' => some (left &&& (0o777 ^^^ value))
        | '=' => some (value ||| (left &&& (0o777 ^^^ (positions who * 7))))
        | '+' => some (left ||| value)
        | '\x00' => some left
        | _ => none
      match left?, rest.drop letters.length with
      | none, _ => none
      | some left, ',' :: rest => changed may n [] left rest
      | some left, [] => some left
      | some left, c :: rest =>
        if "=+-\x00".toList.contains c then changed may n who left (c :: rest) else none

/-- `umask [-S] [MASK]` -/
def umask (args : List Text) : Eval Unit := do
  let (os, rest) ← options "S" args
  let mask := (← get).mask
  match rest with
  | [] =>
    if given os 'S' then
      putLine ("u=".toList ++ allowed mask 64 ++ ",g=".toList ++ allowed mask 8 ++ ",o=".toList ++
        allowed mask 1)
    else putLine (Text.zeroed 4 (Nat.toDigits 8 mask))
  | t :: _ =>
    if t.head?.any Text.isDigit then
      if !t.all isOctal then failNumber t
      modify ({ · with mask := Expression.valueIn 8 t % 512 })
    else
      let whole := t ++ '\x00' :: (← get).area.textBehind (rest.length - 1) t.length
      match changed (0o777 - mask) whole.length.succ [] (0o777 - mask) whole with
      | some may => modify ({ · with mask := 0o777 - may % 512 })
      | none => fail ("Illegal mode: ".toList ++ t)
  setStatus 0

/-! ## Limits -/

/-- A bound as it is told. -/
def boundText (kind : LimitKind) : Option Nat → Text
  | none => "unlimited".toList
  | some n => Text.ofNat (n / kind.unit)

/-- The bound that an argument gives. -/
def bound (kind : LimitKind) (t : Text) : Eval (Option Nat) := do
  if t == "unlimited".toList then return none
  if !t.all Text.isDigit then fail "bad number".toList
  return some (Text.digitsValue t * kind.unit % Nat.pow 2 64)

/-- `ulimit [-HS] [-a | -LETTER] [BOUND]` -/
def ulimit (args : List Text) : Eval Unit := do
  let letters := String.ofList ('H' :: 'S' :: 'a' :: Limit.kinds.map (·.letter))
  let (os, rest) ← options letters args
  let how := (os.filter fun o => o.1 == 'H' || o.1 == 'S').getLast?.map (·.1)
  let told := fun (l : Limit) => if how == some 'H' then l.hard else l.soft
  let letter := ((os.filter fun o => !"HSa".toList.contains o.1).getLast?.map (·.1)).getD 'f'
  let limits := (← get).limits
  match Limit.kinds.find? (·.letter == letter), rest with
  | some kind, t :: more =>
    if given os 'a' || !more.isEmpty then fail "too many arguments".toList
    let n ← bound kind t
    let old := limits.get kind
    let new : Limit := ⟨if how == some 'H' then old.soft else n, if how == some 'S' then old.hard else n⟩
    let refuse := fun (why : Text) => fail ("error setting limit (".toList ++ why ++ [')'])
    if !Limit.isWithin new.soft new.hard then refuse SysError.invalidArgument.text
    if !Limit.isWithin new.hard old.hard then refuse "Operation not permitted".toList
    modify ({ · with limits := limits.put kind new })
  | some kind, [] =>
    if given os 'a' then
      for kind in Limit.kinds do
        let name := kind.name.toList
        putLine (name ++ List.replicate (20 - name.length) ' ' ++ ' ' ::
          boundText kind (told (limits.get kind)))
    else putLine (boundText kind (told (limits.get kind)))
  | none, _ => return
  setStatus 0

end LineShell.Script.Intrinsic
