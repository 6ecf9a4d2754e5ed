import LineShell.Proofs.Environment
import LineShell.Proofs.Shell.Order

/-!
# What programs are given

* `launch?` : the program that running a segment asks the machine for; by `execute_withLaunch` it asks
  for no other;
* `Ran.Hears` : what becomes of a segment by the machine's reply; by `Ran.hears` so it is with this program;
* `Environment.Closed.execute`, `Environment.Closed.invariant` : what all changes of variables keep is
  kept by every segment and along every run;
* `Launch.Shows` : the variables of a program are those that the shell shows.

`launches_show` : so it is for every program that is started in a run.
-/

namespace LineShell

variable {ω : Type}

/-- The machine with another way to start programs. -/
def Machine.withLaunch (m : Machine ω) (launch : ω → Launch → Except SysError (ChildReport × ω)) :
    Machine ω := { m with launch }

/-- The variables of the program `l` are those of the shell: one pair for each entry, split at its first
`=`, and under each name what the shell has, writes for the name behind a `$`, and prints. -/
structure Launch.Shows (l : Launch) (s : Session) (pid : Nat) : Prop where
  named : ∀ e ∈ s.env.vars.entries, ∃ name, name ≠ [] ∧ '=' ∉ name ∧ e.name? = some name
  nodup : s.env.vars.names.Nodup
  vars : l.vars.map some = s.env.vars.entries.map Entry.binding?
  get? : ∀ name, name ≠ [] → '=' ∉ name → l.value? name = s.env.get? name
  expandWord : ∀ name, name ≠ [] → '=' ∉ name → name ≠ ['?'] → name ≠ ['$'] →
    (s.scope pid).expandWord ('$' :: name) = (l.value? name).getD []
  printed : ∀ (m : Machine ω) (argv : List Text) (w : ω), (Builtin.env.run m argv s w).written =
    Builtin.unlines (s.env.vars.entries.map Entry.text)
  absent : ∀ name, name ≠ [] → '=' ∉ name →
    (l.value? name = none ↔ ∀ e ∈ s.env.vars.entries, e.name? ≠ some name)

namespace Shell

def launchOf? (m : Machine ω) (name : Text) (argv : List Text) (sh : Shell ω) : Option Launch :=
  match Builtin.named? name with
  | some _ => none
  | none =>
    (Command.resolve? (m.isFile sh.world) (sh.session.env.get? searchPath) name
      sh.session.interactive).map (External.launch · argv sh.session.env)

/-- The program that running a segment asks the machine for. -/
def launch? (m : Machine ω) (segment : Text) (sh : Shell ω) : Option Launch :=
  match sh.session.wordsOf m.pid segment with
  | [] => none
  | name :: args => launchOf? m name (name :: args) sh

def Ran.launch? (m : Machine ω) (r : Ran ω) : Option Launch := r.shell.launch? m r.segment

/-! ## One segment -/

section WithLaunch

variable {m : Machine ω} {launch : ω → Launch → Except SysError (ChildReport × ω)} {sh : Shell ω}

theorem command_withLaunch {name : Text} {argv : List Text}
    (h : ∀ l, launchOf? m name argv sh = some l → launch sh.world l = m.launch sh.world l) :
    sh.command (m.withLaunch launch) name argv = sh.command m name argv := by
  unfold launchOf? at h
  unfold command
  cases hb : Builtin.named? name with
  | some b =>
    -- the shell's own commands start nothing
    have hrun : ∀ argv s w, b.run (m.withLaunch launch) argv s w = b.run m argv s w := by
      intro argv s w
      cases b <;> rfl
    simp only [runBuiltin, hrun]
  | none =>
    rw [hb] at h
    have hprogram : runProgram (m.withLaunch launch) name argv sh = runProgram m name argv sh := by
      obtain ⟨lineCount, uncounted, hc⟩ := session_countLine sh.session
      unfold runProgram
      rw [hc]
      dsimp only [Machine.withLaunch]
      cases hr : Command.resolve? (m.isFile sh.world) (sh.session.env.get? searchPath) name
          sh.session.interactive with
      | none => rfl
      | some path =>
        have hl := h (External.launch path argv sh.session.env) (by rw [hr]; rfl)
        simp only [External.run, hl]
    dsimp only
    rw [hprogram]

theorem execute_withLaunch {segment : Text}
    (h : ∀ l, launch? m segment sh = some l → launch sh.world l = m.launch sh.world l) :
    execute (m.withLaunch launch) segment sh = execute m segment sh := by
  have hwords : sh.session.wordsOf (m.withLaunch launch).pid segment =
      sh.session.wordsOf m.pid segment := rfl
  unfold launch? at h
  unfold execute
  rw [hwords]
  cases hw : sh.session.wordsOf m.pid segment with
  | nil => rfl
  | cons name args =>
    rw [hw] at h
    have hc := @command_withLaunch ω m launch ⟨{ sh.session with argv := [] }, sh.world,
      sh.journal.note (.ran segment (name :: args))⟩ name (name :: args) h
    dsimp only
    rw [hc]

end WithLaunch

/-! ## The reply -/

/-- What a program comes to that was asked for in a segment: the state behind it, what it wrote and its result.
Output that was held back is sent in front of it, and a fault is reported behind it. -/
structure Ran.Yields (m : Machine ω) (r : Ran ω) (written : List (Stream × Bytes)) (result : Except Fault Status)
    (w : ω) : Prop where
  world : (r.after m).world = w
  outcome : r.outcome? m = (r.words m).head?.map (·, result)
  lastStatus : (r.after m).session.lastStatus = resultStatus result
  log : (r.after m).journal.log = r.shell.journal.log ++ .ran r.segment (r.words m) ::
    (r.shell.journal.held.reverse.map .wrote ++ written.map (fun p => .wrote ⟨.child p.1, p.2⟩) ++
      (r.report? m).toList.map fun bytes => .wrote ⟨.report, bytes⟩)

/-- What a segment makes of the machine's reply to the program that it asks for. One that could not be started
leaves the state as it is; what one wrote is put out, and its state is that behind the segment. -/
inductive Ran.Hears (m : Machine ω) (r : Ran ω) : Except SysError (ChildReport × ω) → Prop
  | ended {report : ChildReport} {w : ω} (hstatus : report.ending.status ≠ External.notExecutable)
      (h : r.Yields m report.written (.ok report.ending.status) w) : Hears m r (.ok (report, w))
  | barred {report : ChildReport} {w : ω} (hstatus : report.ending.status = External.notExecutable)
      (h : r.Yields m report.written (.error .accessDenied) w) : Hears m r (.ok (report, w))
  | denied (h : r.Yields m [] (.error .accessDenied) r.shell.world) : Hears m r (.error .accessDenied)
  | refused {e : SysError} (he : e ≠ .accessDenied) (h : r.Yields m [] (.error (.notStarted e)) r.shell.world) :
      Hears m r (.error e)

section Reply

variable {m : Machine ω} {r : Ran ω} {l : Launch}

/-- A segment that asks for a program runs it. -/
theorem Ran.exists_run_of_launch? (h : r.launch? m = some l) :
    ∃ name args path s, r.words m = name :: args ∧ s.env = r.shell.session.env ∧
      l = External.launch path (name :: args) s.env ∧
      answer m name (name :: args) (r.shell.opened r.segment (name :: args)) =
        (let reply := External.run m path (name :: args) s r.shell.world
        (⟨reply.session, reply.world, (r.shell.journal.note (.ran r.segment (name :: args))).relay reply.written⟩,
          reply.result)) := by
  unfold launch? Shell.launch? at h
  cases hw : r.shell.session.wordsOf m.pid r.segment with
  | nil => simp [hw] at h
  | cons name args =>
    rw [hw] at h
    dsimp only [launchOf?] at h
    cases hb : Builtin.named? name with
    | some b => simp [hb] at h
    | none =>
      rw [hb] at h
      obtain ⟨path, hpath, rfl⟩ := Option.map_eq_some_iff.1 h
      let s : Session := { r.shell.session with argv := [] }
      obtain ⟨_, _, hc⟩ := session_countLine s
      have henv : s.countLine.env = r.shell.session.env := by rw [hc]
      have hresolve : Command.resolve? (m.isFile r.shell.world) (s.countLine.env.get? searchPath) name
          s.countLine.interactive = some path := by rwa [hc]
      refine ⟨name, args, path, s.countLine, hw, henv, by rw [henv], ?_⟩
      unfold answer
      rw [hb]
      dsimp only [runProgram]
      rw [show Command.resolve? (m.isFile (r.shell.opened r.segment (name :: args)).world)
        ((r.shell.opened r.segment (name :: args)).session.countLine.env.get? searchPath) name
        (r.shell.opened r.segment (name :: args)).session.countLine.interactive = some path from hresolve]
      rfl

/-- The result of a program is settled behind what it wrote. -/
theorem Ran.yields {name : Text} {args : List Text} {s : Session} {written : List (Stream × Bytes)}
    {result : Except Fault Status} {w : ω} (hw : r.words m = name :: args)
    (ha : answer m name (name :: args) (r.shell.opened r.segment (name :: args)) =
      (⟨s, w, (r.shell.journal.note (.ran r.segment (name :: args))).relay written⟩, result)) :
    r.Yields m written result w := by
  let sh : Shell ω := ⟨s, w, (r.shell.journal.note (.ran r.segment (name :: args))).relay written⟩
  have hafter : r.after m = { sh.settle name result with
      session := { (sh.settle name result).session with argv := name :: args } } := by
    rw [after, execute_of_words hw, ha]
  obtain ⟨hrelay, hheld⟩ := Journal.relay_flush (r.shell.journal.note (.ran r.segment (name :: args))) written
  refine ⟨?_, ?_, ?_, ?_⟩
  · rw [hafter]
    cases result <;> rfl
  · rw [outcome?_of_cons hw, ha, hw]
    rfl
  · rw [hafter]
    exact lastStatus_settle name result sh
  · rw [hafter]
    show (sh.settle name result).journal.log = _
    rw [Ran.log_settle hw ha hheld, show sh.journal.log = _ from hrelay, Journal.log_flush, Journal.log_note, hw]
    simp only [Journal.held_note, List.append_assoc, List.cons_append, List.nil_append]

/-- A segment that asks for a program goes on with the reply. -/
theorem Ran.hears (h : r.launch? m = some l) :
    r.words m = l.arguments ∧ r.Hears m (m.launch r.shell.world l) := by
  obtain ⟨name, args, path, s, hw, -, rfl, ha⟩ := Ran.exists_run_of_launch? h
  refine ⟨hw, ?_⟩
  unfold External.run at ha
  cases hreply : m.launch r.shell.world (External.launch path (name :: args) s.env) with
  | error e =>
    rw [hreply] at ha
    by_cases he : e = .accessDenied
    · subst he
      exact .denied (Ran.yields hw ha)
    · refine .refused he (@Ran.yields ω m r name args { s with env := s.env.refresh } [] _ _ hw (ha.trans ?_))
      cases e <;> first | rfl | exact absurd rfl he
  | ok reply =>
    obtain ⟨report, w⟩ := reply
    rw [hreply] at ha
    dsimp only at ha
    by_cases hstatus : report.ending.status = External.notExecutable
    · rw [if_pos hstatus] at ha
      exact .barred hstatus (Ran.yields hw ha)
    · rw [if_neg hstatus] at ha
      exact .ended hstatus (Ran.yields hw ha)

end Reply

/-! ## A whole run -/

theorem env_countLine (s : Session) : s.countLine.env = s.env := by
  obtain ⟨_, _, hc⟩ := session_countLine s
  rw [hc]

theorem env_settle (name : Text) (result : Except Fault Status) (sh : Shell ω) :
    (sh.settle name result).session.env = sh.session.env := by
  obtain ⟨_, hs⟩ := session_settle name result sh
  rw [hs]

end Shell

namespace Environment.Closed

variable {P : Environment → Prop}

theorem command (h : Closed P) (m : Machine ω) (name : Text) (argv : List Text) {sh : Shell ω}
    (hp : P sh.session.env) : P (sh.command m name argv).session.env := by
  unfold Shell.command
  cases Builtin.named? name with
  | some b =>
    dsimp only
    rw [Shell.env_settle]
    exact h.run m b argv (s := sh.session.countCommand) hp sh.world
  | none =>
    have hc : P sh.session.countLine.env := by rwa [Shell.env_countLine]
    dsimp only
    rw [Shell.env_settle]
    unfold Shell.runProgram
    dsimp only
    split
    · exact hc
    · rw [External.session_run]
      exact h.refresh _ hc

theorem execute (h : Closed P) (m : Machine ω) (segment : Text) {sh : Shell ω} (hp : P sh.session.env) :
    P (sh.execute m segment).session.env := by
  unfold Shell.execute
  dsimp only
  cases sh.session.wordsOf m.pid segment with
  | nil => rwa [Shell.env_countLine]
  | cons name args =>
    exact @command ω P h m name (name :: args) ⟨{ sh.session with argv := [] }, sh.world,
      sh.journal.note (.ran segment (name :: args))⟩ hp

theorem invariant (h : Closed P) (m : Machine ω) : Shell.Invariant m fun sh => P sh.session.env where
  withCursor _ _ hp := hp
  execute segment _ hp := h.execute m segment hp
  ask _ hp := hp
  next _ _ hp := hp
  receive _ _ _ hp := hp
  endInput failure sh hp := by
    rwa [Shell.session_endInput]

end Environment.Closed

namespace Shell

theorem launch_shows {s : Session} (h : s.env.Sound) (path : Text) (argv : List Text) (pid : Nat) :
    (External.launch path argv s.env).Shows (ω := ω) s pid where
  named e he := by
    obtain ⟨name, hne, hname⟩ := h.named e he
    exact ⟨name, hne, (Entry.name?_eq_some_iff.1 hname).2, hname⟩
  nodup := h.nodup
  vars := by
    show s.env.snapshot.map some = _
    rw [h.snapshot, h.map_binding?]
  get? name _ hn := h.value?_launch path argv hn
  expandWord name hne hn hq hd := by
    have hexact := Environment.exactName_iff.2 (Table.not_misreads (t := s.env.vars) hn)
    rw [h.value?_launch path argv hn, hexact.get?]
    exact hexact.expandWord hne hq hd s.lastStatus pid
  printed m argv w := rfl
  absent name _ hn := by
    have hexact := Environment.exactName_iff.2 (Table.not_misreads (t := s.env.vars) hn)
    rw [h.value?_launch path argv hn, hexact.get?]
    constructor
    · intro hnone e he hname
      obtain ⟨p, hp, hpn⟩ := List.mem_map.1 (Table.mem_names.2 ⟨e, he, hname⟩)
      have := List.lookup_eq_none_iff.1 hnone p hp
      simp [hpn] at this
    · intro hno
      refine lookup_eq_none_of_not_mem fun hm => ?_
      obtain ⟨e, he, hname⟩ := Table.mem_names.1 hm
      exact hno e he hname

/-- A session starts with variables that were set one after the other, under proper names. Whatever it
runs, running a segment asks for no program but the one that `launch?` tells, and goes on with the machine's reply
to that one, which is given what the shell shows at that moment. Working through some octets is a loop that ends,
and so is it with any source, unless as many lines are read as may be. -/
theorem launches_show (m : Machine ω) (ps : List (Text × Text)) (hps : ∀ p ∈ ps, p.1 ≠ [] ∧ '=' ∉ p.1)
    (sh : Shell ω) (henv : sh.session.env = .ofPairs ps) :
    (∀ bs, ∃ trace,
      Loop m (.ofBytes bs) (remember m sh) trace (work isLeaving m (.ofBytes bs) sh)) ∧
    (∀ source trace last, Loop m source (remember m sh) trace last → ∀ r ∈ trace,
      (∀ launch, (∀ l, r.launch? m = some l → launch r.shell.world l = m.launch r.shell.world l) →
        execute (m.withLaunch launch) r.segment r.shell = execute m r.segment r.shell) ∧
      ∀ l, r.launch? m = some l → l.Shows (ω := ω) r.shell.session m.pid ∧
        r.words m = l.arguments ∧ r.Hears m (m.launch r.shell.world l)) ∧
    ∀ source, (∃ trace, Loop m source (remember m sh) trace (work isLeaving m source sh)) ∨
      ∃ raws : List Text, raws.length = source.reads ∧
        (run m source sh).journal.readings = sh.journal.readings ++ raws.map .line := by
  refine ⟨fun bs => exists_loop m bs sh, fun source trace last hloop r hr =>
    ⟨?_, fun l hl => ⟨?_, r.hears hl⟩⟩, fun source => exists_loop_or_lines m source sh⟩
  · exact fun launch h => execute_withLaunch h
  · have hstart : (remember m sh).session.env.Sound := by
      obtain ⟨_, _, hs⟩ := session_remember m sh
      rw [hs]
      exact henv ▸ .ofPairs hps
    have hsound : r.shell.session.env.Sound :=
      (hloop.forall_ran (Environment.closed_sound.invariant m) hstart).1 r hr
    obtain ⟨name, args, path, s, -, henv, rfl, -⟩ := Ran.exists_run_of_launch? hl
    rw [henv]
    exact launch_shows hsound path _ m.pid

/-- A program is started behind a `setenv`, and finds the value with its `=`. -/
theorem launches_show_behind_setenv :
    let m := Bench.machine
    let ps := [("A".toList, "1".toList), ("PATH".toList, "/bin".toList)]
    let sh := start (Session.start "sh".toList {} (.ofPairs ps)) Bench.plain
    let bs := Utf8.encode "setenv A x=y; true\n".toList
    let l : Launch := ⟨"/bin/true".toList, ["true".toList],
      [("A".toList, "x=y".toList), ("PATH".toList, "/bin".toList)]⟩
    (∀ p ∈ ps, p.1 ≠ [] ∧ '=' ∉ p.1) ∧ sh.session.env = .ofPairs ps ∧
      ∃ trace last, Loop m (.ofBytes bs) (remember m sh) trace last ∧
        ∃ r ∈ trace, r.launch? m = some l ∧ l.Shows (ω := Bench) r.shell.session m.pid ∧
          r.Hears m (m.launch r.shell.world l) := by
  intro m ps sh bs l
  have hps : ∀ p ∈ ps, p.1 ≠ [] ∧ '=' ∉ p.1 := by decide
  have hcursor : (remember m sh).session.cursor = .exhausted := by decide +kernel
  obtain ⟨trace, hloop, hcourse⟩ := feedLines_course m (show Bytes.textLines bs = _ from rfl)
    (.inr hcursor)
  have hran : trace.map Ran.idle = (Course.lines m (Bytes.textLines bs) (remember m sh).idle).ran :=
    congrArg Course.ran hcourse
  have hlaunched : trace.filterMap (Ran.launch? m) = [l] := by
    -- what is started does not depend on what is left of the line
    have hidle : trace.filterMap (Ran.launch? m) = (trace.map Ran.idle).filterMap (Ran.launch? m) := by
      rw [List.filterMap_map]
      rfl
    rw [hidle, hran]
    decide +kernel
  obtain ⟨r, hr, hl⟩ := List.mem_filterMap.1 (hlaunched ▸ List.mem_singleton_self l)
  obtain ⟨-, hall, -⟩ := launches_show m ps hps sh rfl
  obtain ⟨hshows, -, hhears⟩ := (hall _ _ _ hloop r hr).2 l hl
  exact ⟨hps, rfl, trace, _, hloop, r, hr, hl, hshows, hhears⟩

end Shell

end LineShell
