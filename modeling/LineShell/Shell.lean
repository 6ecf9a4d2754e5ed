import LineShell.Command.Search
import LineShell.External
import LineShell.Journal
import LineShell.Source

/-!
# Running the shell

A `Shell` is a session, the state of its machine and its journal.

* `Shell.execute` : runs one segment, as a command of the shell or else as a program;
* `Shell.finishLine` : runs the segments of the current line; by `Shell.finishLine_done` all of them,
  until the run is over;
* `Shell.ask`, `Shell.endInput` : what happens in front of a read and at the end of the input;
  `Shell.interrupt` : what may happen in between;
* `Shell.feed` : reads and runs the lines of a source; by `Shell.feed_ofBytes` those of some octets one
  by one;
* `Shell.run` : loads the history, feeds the source, saves the history.

What says that a run is over is a parameter of the loops; in `Shell.run` it is that `exit` has been run.
-/

namespace LineShell

/-- A session at work on a machine. -/
structure Shell (ω : Type) where
  session : Session
  world : ω
  journal : Journal

namespace Shell

variable {ω : Type}

/-- A shell that has done nothing. -/
def start (session : Session) (world : ω) : Shell ω := ⟨session, world, .empty⟩

/-! ## One segment -/

/-- The variable that holds the search path. -/
def searchPath : Text := "PATH".toList

/-- Runs a command of the shell; its output is sent at once. -/
def runBuiltin (m : Machine ω) (b : Builtin) (argv : List Text) (sh : Shell ω) :
    Shell ω × Except Fault Status :=
  let r := b.run m argv sh.session.countCommand sh.world
  (⟨r.session, r.world, sh.journal.scope .command (Utf8.encode r.written)⟩, r.result)

def runProgram (m : Machine ω) (name : Text) (argv : List Text) (sh : Shell ω) :
    Shell ω × Except Fault Status :=
  let s := sh.session.countLine
  match Command.resolve? (m.isFile sh.world) (s.env.get? searchPath) name s.interactive with
  | none => ({ sh with session := s }, .error .commandNotFound)
  | some path =>
    let r := External.run m path argv s sh.world
    (⟨r.session, r.world, sh.journal.relay r.written⟩, r.result)

/-- The status of a command becomes the last one; a fault is reported. -/
def settle (name : Text) (result : Except Fault Status) (sh : Shell ω) : Shell ω :=
  match result with
  | .ok status => { sh with session := { sh.session with lastStatus := status } }
  | .error fault =>
    { sh with
      session := { sh.session with lastStatus := fault.status }
      journal := sh.journal.report (sh.session.reportPrefix name ++ fault.message) }

/-- Runs a command by its words: the shell's own if the first word names one, or else a program. -/
def command (m : Machine ω) (name : Text) (argv : List Text) (sh : Shell ω) : Shell ω :=
  let r := match Builtin.named? name with
    | some b => runBuiltin m b argv sh
    | none => runProgram m name argv sh
  r.1.settle name r.2

/-- Runs one segment. One without words only counts its line. -/
def execute (m : Machine ω) (segment : Text) (sh : Shell ω) : Shell ω :=
  let argv := sh.session.wordsOf m.pid segment
  let sh := { sh with
    session := { sh.session with argv := [] }
    journal := sh.journal.note (.ran segment argv) }
  match argv with
  | [] => { sh with session := sh.session.countLine }
  | name :: _ =>
    let sh := sh.command m name argv
    { sh with session := { sh.session with argv } }

/-! ## One line -/

def isLeaving (sh : Shell ω) : Bool := sh.session.stage.isLeaving

/-- Runs at most `fuel` segments of the current line. -/
def drain (isOver : Shell ω → Bool) (m : Machine ω) : Nat → Shell ω → Shell ω
  | 0, sh => sh
  | fuel + 1, sh =>
    if isOver sh then sh
    else match sh.session.nextSegment with
      | (none, s) => { sh with session := s }
      | (some segment, s) => drain isOver m fuel (execute m segment { sh with session := s })

/-- Runs the segments of the current line; there are fewer of them than its cursor's size. -/
def finishLine (isOver : Shell ω → Bool) (m : Machine ω) (sh : Shell ω) : Shell ω :=
  drain isOver m (sh.session.cursor.size + 1) sh

/-! ## The input -/

/-- In front of a read: asks someone for a line, or else sends everything held back. -/
def ask (sh : Shell ω) : Shell ω :=
  { sh with
    journal :=
      if sh.session.interactive then
        sh.journal.scope .prompt (Utf8.encode sh.session.settings.prompt)
      else sh.journal.flush }

/-- What someone sees who interrupts the shell: a new line with the prompt again if a line was being
asked for, and nothing otherwise. -/
def onInterrupt (prompt : Text) (asking : Bool) : Text := if asking then '\n' :: prompt else []

/-- An interrupt of a shell that asks for its lines; it stays, and what is to be seen is sent at once. -/
def interrupt (asking : Bool) (sh : Shell ω) : Shell ω :=
  { sh with
    journal := sh.journal.note
      (.wrote ⟨.prompt, Utf8.encode (onInterrupt sh.session.settings.prompt asking)⟩) }

/-- A line that was read becomes the current one. -/
def receive (raw : Text) (sh : Shell ω) : Shell ω :=
  { sh with session := sh.session.accept raw, journal := sh.journal.note (.read (.line raw)) }

/-- The read that gives no line: at the end someone who was asked gets a new line, and a failure is
reported. -/
def endInput (failure : Option SysError) (sh : Shell ω) : Shell ω :=
  match failure with
  | none =>
    let journal := sh.journal.note (.read .ended)
    { sh with
      journal :=
        if sh.session.interactive then journal.scope .farewell (Utf8.encode ['\n']) else journal }
  | some e =>
    { sh with
      journal := (sh.journal.note (.read (.failed e))).report
        (sh.session.program ++ ": ".toList ++ e.message) }

/-- Reads and runs lines, at most `fuel` of them, until the run is over or there are none left. -/
def feed (isOver : Shell ω → Bool) (m : Machine ω) : Nat → Source → Shell ω → Shell ω
  | 0, _, sh => sh
  | fuel + 1, source, sh =>
    if isOver sh then sh
    else
      let sh := sh.ask
      match source.next m sh.world with
      | (.line raw, source, world) =>
        feed isOver m fuel source (finishLine isOver m ({ sh with world }.receive raw))
      | (.ended, _, world) => { sh with world }.endInput none
      | (.failed e, _, world) => { sh with world }.endInput (some e)

/-- Reads and runs the lines of a list, until the run is over or there are none left. -/
def feedLines (isOver : Shell ω → Bool) (m : Machine ω) : List Text → Shell ω → Shell ω
  | [], sh => if isOver sh then sh else sh.ask.endInput none
  | raw :: rest, sh =>
    if isOver sh then sh else feedLines isOver m rest (finishLine isOver m (sh.ask.receive raw))

/-! ## The whole run -/

/-- Saves the history and sends everything held back. -/
def close (m : Machine ω) (sh : Shell ω) : Shell ω :=
  let r := sh.session.saveHistory m sh.world
  let journal := match r.1 with
    | some (path, bytes) => sh.journal.note (.saved path bytes)
    | none => sh.journal
  { sh with world := r.2, journal := journal.flush.note .closed }

def remember (m : Machine ω) (sh : Shell ω) : Shell ω :=
  let (session, world) := sh.session.loadHistory m sh.world
  { sh with session, world }

/-- Loads the history and works through the source. -/
def work (isOver : Shell ω → Bool) (m : Machine ω) (source : Source) (sh : Shell ω) : Shell ω :=
  feed isOver m source.reads source (finishLine isOver m (remember m sh))

/-- Works through the source and closes. -/
def run (m : Machine ω) (source : Source) (sh : Shell ω) : Shell ω :=
  close m (work isLeaving m source sh)

def status (sh : Shell ω) : Status := sh.session.finalStatus

/-! ## The current line is the loop's alone -/

theorem cursor_settle (name : Text) (result : Except Fault Status) (sh : Shell ω) :
    (sh.settle name result).session.cursor = sh.session.cursor := by
  unfold settle
  split <;> rfl

theorem cursor_command (m : Machine ω) (name : Text) (argv : List Text) (sh : Shell ω) :
    (sh.command m name argv).session.cursor = sh.session.cursor := by
  unfold command
  simp only [cursor_settle]
  split
  · exact Builtin.cursor_run ..
  · unfold runProgram
    simp only []
    split
    · exact Session.cursor_countLine _
    · rw [External.cursor_run]; exact Session.cursor_countLine _

/-- Running a segment leaves the rest of its line as it is. -/
theorem cursor_execute (m : Machine ω) (segment : Text) (sh : Shell ω) :
    (sh.execute m segment).session.cursor = sh.session.cursor := by
  unfold execute
  simp only []
  split
  · exact Session.cursor_countLine _
  · exact cursor_command ..

/-- Fuel beyond the size of the cursor suffices: the run is over or nothing is left of the line. -/
theorem drain_done (isOver : Shell ω → Bool) (m : Machine ω) {fuel : Nat} {sh : Shell ω}
    (h : sh.session.cursor.size < fuel) :
    isOver (drain isOver m fuel sh) = true ∨
      (drain isOver m fuel sh).session.cursor = .exhausted := by
  induction fuel generalizing sh with
  | zero => omega
  | succ fuel ih =>
    rw [drain]
    split
    · next hl => exact .inl hl
    · split
      · next s hs =>
        refine .inr ?_
        obtain ⟨hn, rfl⟩ := Prod.mk.inj hs
        exact Line.Cursor.next_eq_none hn
      · next segment s hs =>
        obtain ⟨hn, rfl⟩ := Prod.mk.inj hs
        apply ih
        rw [cursor_execute]
        exact Nat.lt_of_lt_of_le (Line.Cursor.size_next hn) (Nat.le_of_lt_succ h)

/-- A line is finished when the run is over or nothing is left of it. -/
theorem finishLine_done (isOver : Shell ω → Bool) (m : Machine ω) (sh : Shell ω) :
    isOver (finishLine isOver m sh) = true ∨ (finishLine isOver m sh).session.cursor = .exhausted :=
  drain_done isOver m (Nat.lt_succ_self _)

/-! ## The lines of some octets -/

/-- The lines of some octets are read one by one, and there are no more of them than octets. -/
theorem feed_ofBytes (isOver : Shell ω → Bool) (m : Machine ω) {fuel : Nat} {bs : Bytes}
    (h : bs.length < fuel) (sh : Shell ω) :
    feed isOver m fuel (Source.ofBytes bs) sh = feedLines isOver m (Bytes.textLines bs) sh := by
  induction fuel generalizing bs sh with
  | zero => omega
  | succ fuel ih =>
    rw [feed]
    cases hf : Bytes.firstLine? bs with
    | some found =>
      obtain ⟨line, rest⟩ := found
      have hl := Bytes.length_of_firstLine?_eq_some hf
      rw [Bytes.textLines, Bytes.lines_of_firstLine?_eq_some hf, List.map_cons, feedLines]
      split
      · rfl
      · simp only [Source.next, Source.ofBytes, hf]
        exact ih (by omega) _
    | none =>
      rw [Bytes.textLines, Bytes.lines_of_firstLine?_eq_none hf]
      cases bs with
      | nil =>
        simp only [Source.next, Source.ofBytes, hf]
        rfl
      | cons b bs =>
        have hlast : ∀ sh : Shell ω, feed isOver m fuel (Source.ofBytes []) sh =
            feedLines isOver m [] sh := fun sh => by
          simpa [Bytes.textLines] using @ih [] (by simp at h ⊢; omega) sh
        simp only [Source.next, Source.ofBytes, hf, Source.last, reduceCtorEq, if_false, List.map_cons,
          List.map_nil, feedLines]
        split
        · rfl
        · exact hlast _

/-- A run over some octets reads all of their lines. -/
theorem work_ofBytes (isOver : Shell ω → Bool) (m : Machine ω) (bs : Bytes) (sh : Shell ω) :
    work isOver m (Source.ofBytes bs) sh =
      feedLines isOver m (Bytes.textLines bs) (finishLine isOver m (remember m sh)) :=
  feed_ofBytes isOver m (by simp [Source.reads, Source.ofBytes, Source.maxLines]) _

end Shell

end LineShell
