import LineShell.Script.Eval
import LineShell.Script.Fields

/-!
# What words stand for

A word is first worked out to stretches of characters, which are then parted into fields. A field that
is a pattern stands for the paths that it matches.

* `Expand.stretches` : the stretches of a word;
* `Expand.paths` : the texts that a field stands for;
* `Expand.word` : the texts that a word stands for;
* `Expand.text`, `Expand.pattern` : what a word stands for where it is not parted.

The output of a command in a word is asked for through a function that runs it.
-/

namespace LineShell.Script

open Host

namespace Expand

/-- How a word is worked out. -/
structure Context where
  /-- Runs a command, and gives what it writes. -/
  outputOf : Command → Eval Text
  /-- Whether the word may become several fields. -/
  parts : Bool

/-! ## Values -/

/-- The text of some stretches. -/
def plain (ss : List Stretch) : Text :=
  ss.flatMap fun s => s.marks.filterMap fun m => m.marked?.map (·.2)

/-- The stretch of a value. -/
def valueStretch (quoted : Bool) (t : Text) : Stretch :=
  ⟨if quoted then .fixed else .value, t.map (.char quoted)⟩

/-- The characters that part fields. -/
def separators : Eval Text := return (← Eval.value? "IFS".toList).getD Mark.blanks

/-- What stands between the arguments where they become one text. -/
def joint : Eval Text := return (← separators).take 1

def joinedArgs : Eval Text := return ((← get).args.intersperse (← joint)).flatten

/-- The letters of the options, in the order in which a process tells which of them are set. -/
def optionLetters : Text := "pubaCEVvxsnmiIfe".toList

def param? (name : Text) : Eval (Option Text) := do
  let p ← get
  match name with
  | ['@'] | ['*'] => return some (← joinedArgs)
  | ['#'] => return some (Text.ofNat p.args.length)
  | ['?'] => return some (Text.ofNat p.status)
  | ['$'] => return some (Text.ofNat p.pid)
  | ['!'] => return p.lastJob.map Text.ofNat
  | ['-'] => return some (optionLetters.filter p.options.contains)
  | ['0'] => return some p.name
  | c :: rest =>
    if Text.isDigit c then
      match Text.digitsValue (c :: rest) with
      | 0 => return some p.name
      | n + 1 => return p.args[n]?
    else Eval.value? name
  | [] => return none

/-- The stretch of all arguments where they become several fields. -/
def argStretch (quoted : Bool) : Eval (List Stretch) := do
  let args := (← get).args
  let marks := ((args.map (·.map (.char quoted))).intersperse [.cut]).flatten
  if !quoted then return [⟨.value, marks⟩]
  else return if args.isEmpty then [] else [⟨.arguments, marks⟩]

/-- The stretches of a parameter's value. -/
def paramStretches (parts quoted : Bool) (name value : Text) : Eval (List Stretch) := do
  if parts && (name == ['@'] || (name == ['*'] && !quoted)) then argStretch quoted
  else return [valueStretch quoted value]

def failUnset {α : Type} (name : Text) (word : Text) (forEmpty : Bool) : Eval α :=
  let message :=
    if word.isEmpty then "parameter not set".toList ++ if forEmpty then " or null".toList else []
    else word
  Eval.fail (name ++ ": ".toList ++ message)

/-- The integer that a variable's value writes; nothing but blanks writes zero. -/
def integerOf (t : Text) : Eval Int :=
  let (n, rest) := (Expression.integer? t).getD (0, t)
  if rest.all Expression.isBlank && Expression.clamp n = n then return n else Eval.failNumber t

def failArithmetic {α : Type} (t : Text) (message : String) : Eval α :=
  Eval.fail ("arithmetic expression: ".toList ++ message.toList ++ ": \"".toList ++ t ++ ['\x22'])

/-- The value of the arithmetic expression that a text writes. What makes sense of it is worked out before
the rest is complained about. -/
def arithmetic (t : Text) : Eval Int := do
  let (e, wrong) := Expression.ofText t
  let n ← e.eval {
    get := fun x => do integerOf ((← Eval.value? x).getD [])
    set := fun x n => Eval.setVar x (Text.ofInt n)
    fail := failArithmetic t
    stop := fun
      | .byZero => failArithmetic t "division by zero"
      | .overflow => throw (.killed Signal.arithmetic) }
  match wrong with
  | some message => failArithmetic t message
  | none => return n

/-- The octet that quotes the one behind it in a word that may become several fields. -/
def quotingOctet : Char := '\x81'

/-- A text without the octets that quote others. -/
def unquoted : Text → Text
  | [] => []
  | c :: rest =>
    if c != quotingOctet then c :: unquoted rest
    else match rest with
      | [] => []
      | d :: rest => d :: unquoted rest

def patternOf (ss : List Stretch) : Pattern :=
  Pattern.ofChars (ss.flatMap (·.marks.filterMap Mark.marked?))

/-! ## Home directories -/

/-- The home directory of a user; of the one whose process it is for the empty name. -/
def home? (user : Text) : Eval (Option Text) := do
  if user.isEmpty then Eval.value? "HOME".toList
  else return if user == "root".toList then some "/root".toList else none

/-! ## Words -/

mutual

/-- The stretches of a part. -/
def partStretches (x : Context) (isPut : Bool) : Part → Eval (List Stretch)
  | .char quoted c => return [⟨if isPut && !quoted then .value else .fixed, [.char quoted c]⟩]
  | .quotes => return [⟨.fixed, [.quotes]⟩]
  | .output quoted body => return [valueStretch quoted (← x.outputOf body)]
  | .number quoted expr => do
    let t := plain (← stretches { x with parts := false } false expr)
    let n ← arithmetic (if x.parts then unquoted t else t)
    return [valueStretch quoted (Text.ofInt n)]
  | .home user => do
    match ← home? user with
    | some path => return [valueStretch true path]
    | none => return [⟨if isPut then .value else .fixed, ('~' :: user).map (.char false)⟩]
  | .param quoted name use => useStretches x quoted name use

/-- The stretches of what is made of a parameter's value. -/
def useStretches (x : Context) (quoted : Bool) (name : Text) : Use → Eval (List Stretch)
  | .unknown => Eval.fail "Bad substitution".toList
  | .value => do
    match ← param? name with
    | some v => paramStretches x.parts quoted name v
    | none =>
      if ← Eval.hasOption 'u' then failUnset name [] false else return []
  | .length => do
    match ← param? name with
    | some v => return [valueStretch quoted (Text.ofNat v.length)]
    | none =>
      if ← Eval.hasOption 'u' then failUnset name [] false else return [valueStretch quoted ['0']]
  | .trim side longest word => do
    let v ← param? name
    if v.isNone && (← Eval.hasOption 'u') then failUnset name [] false
    let pattern := patternOf (← stretches { x with parts := false } false word)
    let cut := match side with
      | .front => Pattern.cutFront pattern longest
      | .back => Pattern.cutBack pattern longest
    return (v.map fun v => valueStretch quoted (cut v)).toList
  | .fallback kind forEmpty word => do
    let v ← param? name
    match kind, v.filter fun v => !(forEmpty && v.isEmpty) with
    | .replace, none => return [valueStretch quoted []]
    | .replace, some _ | .stand, none => stretches x (!quoted) word
    | .assign, none => do
      let t := plain (← stretches { x with parts := false } false word)
      Eval.setVar name t
      return [valueStretch quoted t]
    | .complain, none => do
      failUnset name (plain (← stretches { x with parts := false } false word)) forEmpty
    | _, some v => paramStretches x.parts quoted name v

/-- The stretches of some parts; characters one behind the other make one stretch. -/
def stretches (x : Context) (isPut : Bool) : List Part → Eval (List Stretch)
  | [] => return []
  | part :: rest => do
    let first ← partStretches x isPut part
    let more ← stretches x isPut rest
    match part, rest, first, more with
    | .char false _, .char false _ :: _, [s], t :: more =>
      return { t with marks := s.marks ++ t.marks } :: more
    | _, _, _, _ => return first ++ more

end

/-! ## Paths -/

/-- The names in a directory, the directory itself and the one above among them. -/
def namesIn (tree : FileTree) (cwd : Nat) (path : Text) : List Text :=
  match tree.findReadable cwd (if path.isEmpty then ['.'] else path) with
  | .ok (_, .directory _ _ entries _) => ['.'] :: ['.', '.'] :: entries.map (·.1)
  | _ => []

/-- Whether a path leads to something, a link standing for itself. -/
def isThere (tree : FileTree) (cwd : Nat) (path : Text) : Bool :=
  match tree.locate cwd .bearer path with
  | .ok (.node _) => true
  | _ => false

/-- Whether a pattern can match a name: one that starts with a dot has to be asked for. -/
def matchesName (pattern : Pattern) (name : Text) : Bool :=
  (name.head? != some '.' || pattern.head? == some (.one '.')) && pattern.isMatch name

/-- The paths behind `base` that patterns, one for each name, match. -/
def pathsFrom (tree : FileTree) (cwd : Nat) : Text → List Pattern → List Text
  | base, [] => [base]
  | base, pattern :: rest =>
    let names :=
      if pattern.isOpen then (namesIn tree cwd base).filter (matchesName pattern)
      else [pattern.filterMap fun g => match g with
        | .one c => some c
        | _ => none]
    let ends := rest.isEmpty
    names.flatMap fun name =>
      let path := base ++ name
      if ends then if isThere tree cwd path then [path] else []
      else if isThere tree cwd (path ++ ['/']) || !pattern.isOpen then
        pathsFrom tree cwd (path ++ ['/']) rest
      else []

/-- The texts that a field stands for: the paths that it matches in order, or itself. -/
def paths (tree : FileTree) (cwd : Nat) (field : List Marked) : List Text :=
  let itself := field.map (·.2)
  if !(Pattern.ofChars field).isOpen then [itself]
  else
    let found := pathsFrom tree cwd [] ((field.splitOnP (·.2 == '/')).map Pattern.ofChars)
    if found.isEmpty then [itself] else found.mergeSort fun a b => !comesBefore b a

/-! ## Whole words -/

/-- The octet that stands for quotes in a word that may become several fields. -/
def quotesOctet : Char := '\x88'

/-- The characters that are quoted one by one between quotes. -/
def quotedSigns : Text := "!*?[=~:/-]".toList

/-- The octets of a word as it is laid out first, where quotes have their octets too. -/
def written (isBetween : Bool) : List Mark → Text
  | [] => if isBetween then [quotesOctet] else []
  | .quotes :: ms => (if isBetween then [quotesOctet] else []) ++ quotesOctet :: written true ms
  | .char true c :: ms =>
    (if isBetween && !quotedSigns.contains c then [] else [quotingOctet]) ++ c :: written isBetween ms
  | .char false c :: ms => (if isBetween then [quotesOctet] else []) ++ c :: written false ms
  | .cut :: ms => '\x00' :: written isBetween ms

/-- The texts that a word stands for. -/
def word (outputOf : Command → Eval Text) (w : Word) : Eval (List Text) := do
  let ss ← stretches ⟨outputOf, true⟩ false (withHome (· == '/') w)
  let found := Stretch.fields (← separators) none ss
  let fields := found.map (·.map (·.2))
  Eval.changeArea (·.layWord (written false (ss.flatMap (·.marks))) fields)
  let p ← get
  if p.options.contains 'f' then return fields
  return found.flatMap (paths p.system.tree p.cwd)

/-- The text that a word stands for where it is not parted. -/
def text (outputOf : Command → Eval Text) (w : Word) : Eval Text :=
  return plain (← stretches ⟨outputOf, false⟩ false (withHome (· == '/') w))

/-- The text that a here-document stands for. -/
def document (outputOf : Command → Eval Text) (w : Word) : Eval Text :=
  return plain (← stretches ⟨outputOf, false⟩ false w)

/-- The text that the value of an assignment stands for. -/
def assigned (outputOf : Command → Eval Text) (w : Word) : Eval Text :=
  return plain (← stretches ⟨outputOf, false⟩ false (withHomes w.length.succ w))

/-- The pattern that a word stands for. -/
def pattern (outputOf : Command → Eval Text) (w : Word) : Eval Pattern :=
  return patternOf (← stretches ⟨outputOf, false⟩ false (withHome (· == '/') w))

end Expand

end LineShell.Script
