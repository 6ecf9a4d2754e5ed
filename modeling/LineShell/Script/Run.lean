import LineShell.Script.Search

/-!
# Running commands

* `Run.simple` : runs a simple command;
* `Run.pipeline`, `background`, `subshell` : runs commands in copies of the process;
* `Run.command` : runs a command, given a runner for the commands in it;
* `exec` : the runner, for commands nested up to a given depth;
* `Start`, `Start.run` : runs a tool to its end.

The elements of a pipeline are copies of the process that go on in turn, and so is what is started in the
background. A process lets the others go on when it has run a number of commands.
-/

namespace LineShell.Script

open Host

namespace Run

open Eval

/-! ## Programs and texts -/

/-- Complains about a command for which there is no tool. -/
def missTool (argv : List Text) (why : SysError × Nat) : Eval Unit := do
  complain (argv.headD [] ++ ": ".toList ++ reason why.1)
  setStatus why.2

/-- Whether nothing is to be done at any signal or at the end of the process. -/
def isUntrapped : Eval Bool := return (← get).traps.all (·.2.isEmpty)

def program (run : Runner) (isLast isStandard : Bool) (argv : List Text) : Eval Unit := do
  match ← toolOf isStandard argv with
  | .error why => missTool argv why
  | .ok (tool, args) =>
    if isLast && (← isUntrapped) then becomeTool run tool args
    else Intrinsic.reapEnd (← startTool run tool args)

/-- `exec [COMMAND]` -/
def replace (run : Runner) (argv : List Text) : Eval Unit := do
  match argv with
  | [] => setStatus 0
  | name :: _ =>
    match ← toolIn argv (← candidates name) with
    | .error why => do
      missTool argv why
      throw .exit
    | .ok (tool, args) => becomeTool run tool args

/-- `eval [WORD...]` -/
def evaluate (run : Runner) (args : List Text) : Eval Unit := text run (joinWords args)

/-- `. FILE` -/
def source (run : Runner) (args : List Text) : Eval Unit := do
  let (_, args) ← Intrinsic.options "" args
  match args with
  | [] => setStatus 0
  | name :: _ =>
    let paths ← candidates name
    let path ← if name.contains '/' then pure name else
      match ← firstPlace Node.isRegular 0 .notFound paths with
      | .ok place => pure (paths.getD place [])
      | .error _ => fail (name ++ ": not found".toList)
    let origin ← openText path
    modify ({ · with within := some path })
    untilReturn (file run origin)

/-- Whether a name stands for a command of the language that is not special. -/
def isIntrinsic (name : Text) : Bool :=
  (Intrinsic.run? name).isSome || ["command", "hash", "type"].any (·.toList == name)

/-- What a command of the language does; none for any other name. -/
def intrinsic? (run : Runner) (name : Text) : Option (List Text → Eval Unit) :=
  match String.ofList name with
  | "." => some (source run)
  | "command" => some (describeCommand isIntrinsic)
  | "eval" => some (evaluate run)
  | "exec" => some (replace run)
  | "hash" => some (hash isIntrinsic)
  | "type" => some (describeAll isIntrinsic)
  | _ => Intrinsic.run? name

/-! ## Simple commands -/

/-- What the first word of a command stands for. -/
inductive Action where
  | nothing
  /-- A command of the language; a special one takes the process down when it fails. -/
  | intrinsic (isSpecial : Bool) (body : List Text → Eval Unit)
  | function (body : Command)
  /-- A program, perhaps one of the standard search path. -/
  | program (isStandard : Bool)

/-- The command that `command` is to run, and whether it is to be looked for in the standard search path;
none if there is none to run. -/
def commanded (isStandard : Bool) : List Text → Option (Bool × List Text)
  | ['-', '-'] :: [] => none
  | ['-', '-'] :: rest => some (isStandard, rest)
  | ('-' :: c :: cs) :: rest => if (c :: cs).all (· == 'p') then commanded true rest else none
  | [] => none
  | rest => some (isStandard, rest)

/-- What a command stands for, and its words. One that was asked for by `command`, which sees no functions,
`isAsked`. -/
def action (run : Runner) : Nat → Bool → Bool → List Text → Eval (Action × List Text)
  | 0, _, isStandard, argv => return (.program isStandard, argv)
  | _, _, _, [] => return (.nothing, [])
  | n + 1, isAsked, isStandard, name :: args => do
    if reservedNames.contains name then
      match intrinsic? run name with
      | some body => return (.intrinsic (!isAsked) body, name :: args)
      | none => return (.program isStandard, name :: args)
    match (← get).functions.lookup name, isAsked with
    | some body, false => return (.function body, name :: args)
    | _, _ =>
      match name == "command".toList, commanded isStandard args, intrinsic? run name with
      | true, some (isStandard, rest), _ => action run n true isStandard rest
      | _, _, some body => return (.intrinsic false body, name :: args)
      | _, _, none => return (.program isStandard, name :: args)

/-- Whether the words behind some others may be assignments. -/
def declares : List Text → Bool
  | name :: rest =>
    if name == "command".toList || name == "-p".toList then declares rest
    else ["alias", "export", "readonly", "local"].any (·.toList == name)
  | [] => false

/-- The texts that the words of a command stand for, behind those in `done`. -/
def argumentsFrom (run : Runner) (done : List Text) : List Word → Eval (List Text)
  | [] => return done
  | w :: ws => do
    let more ← match declares done, assignment? w with
      | true, some (name, value) =>
        let t := name ++ '=' :: (← Expand.assigned (outputOf run) value)
        changeArea (·.layWord t [t])
        pure [t]
      | _, _ => Expand.word (outputOf run) w
    argumentsFrom run (done ++ more) ws

def maxFunctions : Nat := 1000

def call (run : Runner) (s : Situation) (body : Command) (args : List Text) : Eval Unit := do
  let p ← get
  if maxFunctions ≤ p.functionDepth then
    fail ("Maximum function recursion depth (".toList ++ Text.ofNat maxFunctions ++
      ") reached".toList)
  modify ({ · with
    args
    functionDepth := p.functionDepth + 1
    loops := 0
    progress := {} })
  always (untilReturn (run ⟨s.isTested, false⟩ body)) <| modify ({ · with
    args := p.args
    functionDepth := p.functionDepth
    loops := p.loops
    progress := p.progress })

/-- Runs a command of the language by its name. -/
def carryOut (isSpecial : Bool) (body : List Text → Eval Unit) (argv : List Text) : Eval Unit := do
  let within := (← get).within
  modify ({ · with within := some (argv.headD []) })
  always
    (try body argv.tail catch
      | .failed => if isSpecial then throw .failed else setStatus 2
      | e => throw e)
    (modify ({ · with within }))

/-- A text with the values of what it asks for. -/
def filledIn (run : Runner) (t : Text) : Eval Text := do
  let n := 12 * t.length + 24
  let reader := Reader.parts (Reader.substituted n) n { quoted := true, ending := .text } []
  match reader (Input.ofText t []) with
  | .ok w _ => Expand.document (outputOf run) w
  | .error .. => return t

/-- Shows a command in an opened file before it is run, where that is asked for. -/
def trace (run : Runner) (id : Option Nat) (assigned : List (Text × Text)) (argv : List Text) : Eval Unit := do
  match id, ← hasOption 'x' with
  | some id, true =>
    let words := assigned.map (fun a => a.1 ++ '=' :: a.2) ++ argv
    discard <| writeThrough id ((← filledIn run (← valueD "PS4")) ++ joinWords words ++ ['\n'])
  | _, _ => return

/-- The assignments of a command: kept only for its time if it `isBrief`. -/
def assign (run : Runner) (isBrief isExported : Bool) :
    List (Text × Word) → Eval (List (Text × Text))
  | [] => return []
  | (name, w) :: rest => do
    let value ← Expand.assigned (outputOf run) w
    changeArea (·.layText (name ++ '=' :: value))
    if isBrief then keepVar name
    setVar name value
    if isBrief || isExported then changeVar name ({ · with exported := true })
    return (name, value) :: (← assign run isBrief isExported rest)

def act (run : Runner) (s : Situation) (a : Action) (argv : List Text) : Eval Unit := do
  match a with
  | .nothing => setStatus (← get).outputStatus
  | .intrinsic isSpecial body => carryOut isSpecial body argv
  | .function body => call run s body argv.tail
  | .program isStandard => program run s.isLast isStandard argv

def simple (run : Runner) (s : Situation) (line : Nat) (assigned : List (Text × Word))
    (words : List Word) (redirects : List Redirect) : Eval Unit := do
  modify fun p => { p with line, outputStatus := 0, area := p.area.ready }
  let whole ← argumentsFrom run [] words
  let (a, argv) ← action run (whole.length + 1) false false whole
  changeArea (·.layList)
  let ready ← redirects.mapM (Redirect.prepare (outputOf run))
  let (isSpecial, isBrief) := match a with
    | .nothing => (false, false)
    | .intrinsic isSpecial _ => (isSpecial, !isSpecial)
    | _ => (false, true)
  let isReplaced := (a matches .intrinsic ..) && argv.head? == some "exec".toList
  let errors ← descriptor? 2
  let work := fun isBrief isExported => do
    trace run errors (← assign run isBrief isExported assigned) whole
    act run s a argv
  let body := do
    if ← Ready.applyAll ready then
      if isBrief then withFrame (work true true)
      else work false (isReplaced && 1 < argv.length)
    else if isSpecial then throw .failed
  if isReplaced then body else withDescriptors body

/-! ## Loops -/

/-- One round of a loop: the status to go on with, or none if the loop ends. -/
def round (body : Eval (Option Nat)) : Eval (Option Nat) :=
  try body catch
    | .leave n goesOn =>
      if n ≤ 1 then return if goesOn then some 0 else none else throw (.leave (n - 1) goesOn)
    | e => throw e

/-- Does something inside a loop. -/
def inLoop (body : Eval Unit) : Eval Unit := do
  let loops := (← get).loops
  modify ({ · with loops := loops + 1 })
  always body (modify ({ · with loops }))

def maxRounds : Nat := 10000000

/-- Runs a body as long as a condition holds, or until it does; `last` is the status of the last
round. -/
def loop (run : Runner) (s : Situation) (whileTrue : Bool) (condition body : Command) :
    Nat → Nat → Eval Unit
  | 0, last => setStatus last
  | n + 1, last => do
    let next ← round do
      run ⟨true, false⟩ condition
      if ((← get).status == 0) == whileTrue then
        run ⟨s.isTested, false⟩ body
        return some (← get).status
      else
        setStatus last
        return none
    if let some last := next then loop run s whileTrue condition body n last

/-- Runs a body once for each value. -/
def each (run : Runner) (s : Situation) (name : Text) (body : Command) : List Text → Eval Unit
  | [] => return
  | value :: rest => do
    let next ← round do
      setVar name value
      run ⟨s.isTested, false⟩ body
      return some 0
    if next.isSome then each run s name body rest

/-! ## Other commands -/

/-- The first arm with a pattern that matches a text. -/
def arm? (run : Runner) (t : Text) : List (List Word × Command) → Eval (Option Command)
  | [] => return none
  | (ws, body) :: rest => do
    if ← ws.anyM fun w => return (← Expand.pattern (outputOf run) w).isMatch t then return some body
    arm? run t rest

/-- Starts the elements of a pipeline, changed as `f` says, each of which reads what the one before it
writes, the first one what the opened file `source` leads to. Their numbers are given. -/
def elements (run : Runner) (f : Process → Process) (source : Option Nat) : List Command → Eval (List Nat)
  | [] => return []
  | c :: rest => do
    let ends ← if rest.isEmpty then pure none else some <$> openPipe []
    let pid ← inCopy run
      (fun p =>
        let p := if source.isSome then p.withDescriptor 0 source else p
        f (if ends.isSome then p.withDescriptor 1 (ends.map (·.2)) else p))
      (run ⟨false, true⟩ c)
    return pid :: (← elements run f (ends.map (·.1)) rest)

/-- Looks for the program of an element of a pipeline, if it has a plain name. -/
def lookAhead (run : Runner) : Command → Eval Unit
  | .simple _ _ (w :: _) _ => do
    let name := literal w
    let isPlain := w.all (· matches .char false _) && isName name
    let p ← get
    if isPlain && !p.functions.any (·.1 == name) && (intrinsic? run name).isNone then
      discard <| locate name
  | _ => return

/-- Starts a pipeline, and gives the numbers of its elements. -/
def startPipeline (run : Runner) (f : Process → Process) (source : Option Nat) (cs : List Command) :
    Eval (List Nat) := do
  cs.forM (lookAhead run)
  elements run f source cs

def pipeline (run : Runner) (cs : List Command) : Eval Unit := do
  discard Intrinsic.vacate
  for pid in ← startPipeline run id none cs do Intrinsic.reapEnd pid

/-- A process that runs in the background. -/
def inBackground (p : Process) : Process := { p with ignored := Signal.terminal ++ p.ignored }

/-- Runs a command in the background, with nothing to read. -/
def background (run : Runner) (c : Command) : Eval Unit := do
  let place ← Intrinsic.vacate
  let input ← match ← find "/dev/null".toList with
    | .ok (id, _) => some <$> openFile (Target.node id).toRead
    | .error _ => pure none
  let pids ← match c with
    | .pipeline cs => startPipeline run inBackground input cs
    | c => do pure [← inCopy run (inBackground <| ·.withDescriptor 0 input) (run ⟨false, true⟩ c)]
  modify fun p => { p with jobs := { place, pids } :: p.jobs, lastJob := pids.getLast? }
  setStatus 0

/-- Runs a command in a copy of the process. -/
def subshell (run : Runner) (s : Situation) (body : Command) (redirects : List Redirect) :
    Eval Unit := do
  let ready ← redirects.mapM (Redirect.prepare (outputOf run))
  let work := do
    Ready.applyFrom false [] ready
    run ⟨s.isTested, true⟩ body
  if s.isLast && (← isUntrapped) then become fun p => live run work p.copied
  else
    discard Intrinsic.vacate
    Intrinsic.reapEnd (← inCopy run id work)

/-- Runs a command with redirections, if they can be carried out. -/
def redirected (run : Runner) (s : Situation) (body : Command) (redirects : List Redirect) :
    Eval Unit := do
  let ready ← redirects.mapM (Redirect.prepare (outputOf run))
  withDescriptors do
    if ← Ready.applyAll ready then run ⟨s.isTested, false⟩ body

/-- Whether a command's failure may end a process that has been told to end at a failure. -/
def isDecisive : Command → Bool
  | .simple .. | .subshell .. | .pipeline _ | .background _ => true
  | _ => false

def command (run : Runner) (s : Situation) : Command → Eval Unit
  | .empty => setStatus 0
  | .simple line assigned words redirects => simple run s line assigned words redirects
  | .sequence a b => do
    run ⟨s.isTested, false⟩ a
    run s b
  | .both a b => do
    run ⟨true, false⟩ a
    if (← get).status = 0 then run s b
  | .either a b => do
    run ⟨true, false⟩ a
    if (← get).status ≠ 0 then run s b
  | .negated c => do
    run ⟨true, false⟩ c
    setTruth ((← get).status ≠ 0)
  | .pipeline cs => pipeline run cs
  | .background c => background run c
  | .subshell line body redirects => do
    modify ({ · with line })
    subshell run s body redirects
  | .redirected line body redirects => do
    modify ({ · with line })
    redirected run s body redirects
  | .branch condition yes no => do
    run ⟨true, false⟩ condition
    if (← get).status = 0 then run s yes
    else match no with
      | some no => run s no
      | none => setStatus 0
  | .loop whileTrue condition body => inLoop (loop run s whileTrue condition body maxRounds 0)
  | .each line name items body => do
    modify ({ · with line })
    let p ← get
    let values ← match items with
      | some ws => List.flatten <$> ws.mapM (Expand.word (outputOf run))
      | none => pure p.args
    if values.isEmpty then setStatus 0
    inLoop (each run s name body values)
  | .choose line subject arms => do
    modify ({ · with line })
    let t ← Expand.text (outputOf run) subject
    changeArea (·.layText t)
    match ← arm? run t arms with
    | some body => run s body
    | none => setStatus 0
  | .define name body => do
    untrack name
    modify fun p => { p with functions := (name, body) :: p.functions.filter (·.1 != name) }
    setStatus 0

end Run

/-- How many commands a process runs before it lets others go on. -/
def turnLength : Nat := 500

/-- Counts a command, behind which others may have to go on. -/
def countStep : Eval Unit := do
  let steps := (← get).system.steps + 1
  modify fun p => { p with system := { p.system with steps } }
  if steps % turnLength = 0 then Eval.pause fun _ => true

/-- Runs commands nested at most so deep; one that is nested deeper has no room left to run in. -/
def exec : Nat → Runner
  | 0 => fun _ _ => throw (.killed Signal.badAddress)
  | n + 1 => fun s c => do
    if ← Eval.hasOption 'n' then return
    countStep
    let taken := (← get).area.taken
    Run.command (exec n) s c
    Eval.changeArea ({ · with taken })
    Eval.receive
    Run.takeSignals (exec n) ((← get).pending.length + 1)
    let p ← get
    if p.options.contains 'e' && !s.isTested && Run.isDecisive c && p.status ≠ 0 then throw .exit

def maxDepth : Nat := 40000

/-! ## Whole programs -/

/-- What a process does that runs a tool. -/
def runTool (tool : Tool) (args : List Text) (p : Process) : Task :=
  let run := exec maxDepth
  Run.live run (Run.work run args tool) p

end LineShell.Script
