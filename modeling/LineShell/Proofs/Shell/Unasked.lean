import LineShell.Proofs.Shell.Reports

/-!
# Asking makes no difference

A shell that asks for its lines does the same as one that does not, as long as there is a search path; and it does
the same however often it asks.

* `Event.asks` : what is written for the one who is asked, a prompt or the new line at the end;
* `Shell.quiet` : a shell as it would be if nothing of that had been written, a guise of it; every step of a run
  makes the same of two shells that are the same but for that (`execute_of_quiet_eq`, `read_of_quiet_eq`,
  `endInput_of_quiet_eq`, `quiet_receive`, `quiet_close`);
* `Loop.exists_quiet_eq` : what a loop does, any shell does that is the same but for that;
* `Alike` : two loops of which nothing differs but what is written for the one who is asked.

`Loop.exists_alike` : with a search path a session has such a loop whether it asks or not.

`interrupts_alike` : a shell that is interrupted has such a loop, and shows its prompt again.
-/

namespace LineShell

variable {ω : Type}

/-- Whether something is written for the one who is asked. -/
def Chunk.asks (c : Chunk) : Bool := c.origin == .prompt || c.origin == .farewell

def Event.asks : Event → Bool
  | .wrote c => c.asks
  | _ => false

/-! ## The journal -/

namespace Journal

/-- The journal without what is written for the one who is asked. -/
def unasked (j : Journal) : Journal := ⟨j.events.filter (!·.asks), j.held.filter (!·.asks)⟩

theorem unasked_note {e : Event} (h : e.asks = false) (j : Journal) : (j.note e).unasked = j.unasked.note e := by
  simp [unasked, note, h]

theorem unasked_flush (j : Journal) : j.flush.unasked = j.unasked.flush := by
  simp [unasked, flush, List.filter_map, Function.comp_def, Event.asks]

theorem unasked_scope {o : Origin} {bs : Bytes} (h : Chunk.asks ⟨o, bs⟩ = false) (j : Journal) :
    (j.scope o bs).unasked = j.unasked.scope o bs := by
  rw [scope, unasked_flush]
  simp [unasked, write, h, scope]

theorem unasked_scope_of_asks {o : Origin} {bs : Bytes} (h : Chunk.asks ⟨o, bs⟩ = true) (j : Journal) :
    (j.scope o bs).unasked = j.unasked.flush := by
  rw [scope, unasked_flush]
  simp [unasked, write, h]

theorem unasked_report (j : Journal) (message : Text) : (j.report message).unasked = j.unasked.report message := by
  rw [report, unasked_note rfl, unasked_flush]
  rfl

theorem unasked_relay (j : Journal) (written : List (Stream × Bytes)) :
    (j.relay written).unasked = j.unasked.relay written := by
  unfold relay
  rw [← unasked_flush]
  generalize j.flush = j
  induction written generalizing j with
  | nil => rfl
  | cons p rest ih => rw [List.foldl_cons, List.foldl_cons, ih, unasked_note rfl]

theorem log_unasked (j : Journal) : j.unasked.log = j.log.filter (!·.asks) := List.filter_reverse.symm

theorem reports_unasked (j : Journal) : j.unasked.reports = j.reports := by
  unfold reports view
  rw [log_unasked, List.filterMap_filter]
  congr 1
  funext e
  cases ha : e.asks with
  | false => rfl
  | true =>
    rcases e with ⟨⟨o, bs⟩⟩ | _ | _ | _ | _
    · cases o <;> first | rfl | cases ha
    all_goals cases ha

end Journal

/-- A guise in which nothing was written for the one who is asked. -/
def Guise.quiet (interactive : Bool → Bool) : Guise where
  cursor := id
  interactive := interactive
  journal := Journal.unasked
  ran j _ _ := Journal.unasked_note rfl j
  command j _ := Journal.unasked_scope rfl j
  relay := Journal.unasked_relay
  report := Journal.unasked_report

namespace Shell

/-- A shell as it would be if nothing had been written for the one who is asked, and `f` told whether it asks. -/
def quiet (f : Bool → Bool) (sh : Shell ω) : Shell ω := sh.inGuise (.quiet f)

def Ran.quiet (f : Bool → Bool) (r : Ran ω) : Ran ω := ⟨r.segment, r.shell.quiet f⟩

variable {f : Bool → Bool}

/-! ## Every step -/

theorem quiet_execute (m : Machine ω) (segment : Text) {sh : Shell ω} (h : f = id ∨ sh.HasPath) :
    (execute m segment sh).quiet f = execute m segment (sh.quiet f) :=
  (execute_inGuise m segment (.quiet f) h).symm

theorem quiet_ask (f : Bool → Bool) (sh : Shell ω) :
    sh.ask.quiet f = { sh.quiet f with journal := (sh.quiet f).journal.flush } := by
  have hjournal : sh.ask.journal.unasked = sh.journal.unasked.flush := by
    unfold ask
    dsimp only
    split
    · exact Journal.unasked_scope_of_asks rfl _
    · exact Journal.unasked_flush _
  exact congrArg (Shell.mk (sh.session.inGuise (.quiet f)) sh.world) hjournal

theorem quiet_receive (raw : Text) (sh : Shell ω) : (sh.receive raw).quiet f = (sh.quiet f).receive raw :=
  congrArg (Shell.mk _ sh.world) (Journal.unasked_note rfl _)

theorem unasked_endInput_none {sh : Shell ω} (h : sh.journal.held = []) :
    (sh.endInput none).journal.unasked = sh.journal.unasked.note (.read .ended) := by
  have hnote : (sh.journal.note (.read .ended)).unasked = sh.journal.unasked.note (.read .ended) :=
    Journal.unasked_note rfl _
  have hheld : (sh.journal.unasked.note (.read .ended)).held = [] := by simp [Journal.unasked, h]
  unfold endInput
  dsimp only
  split
  · rw [Journal.unasked_scope_of_asks rfl, hnote]
    exact Journal.flush_of_held hheld
  · exact hnote

theorem unasked_endInput_some (e : SysError) (sh : Shell ω) :
    (sh.endInput (some e)).journal.unasked = (sh.journal.unasked.note (.read (.failed e))).report
      (sh.session.program ++ ": ".toList ++ e.message) :=
  (Journal.unasked_report _ _).trans (congrArg (Journal.report · _) (Journal.unasked_note rfl _))

theorem quiet_close (m : Machine ω) (sh : Shell ω) : (close m sh).quiet f = close m (sh.quiet f) := by
  have hsave : (sh.quiet f).session.saveHistory m (sh.quiet f).world = sh.session.saveHistory m sh.world := rfl
  unfold close
  rw [hsave]
  dsimp only
  refine congrArg (Shell.mk (sh.session.inGuise (.quiet f)) _) ?_
  show (Journal.note _ _).unasked = _
  rw [Journal.unasked_note rfl, Journal.unasked_flush]
  cases (sh.session.saveHistory m sh.world).1 with
  | none => rfl
  | some p =>
    dsimp only
    rw [Journal.unasked_note rfl]
    rfl

section Same

variable {m : Machine ω} {sh sh' : Shell ω} (h : sh'.quiet f = sh.quiet f)

include h

theorem isLeaving_of_quiet_eq : sh'.isLeaving = sh.isLeaving := by
  show (sh'.quiet f).isLeaving = (sh.quiet f).isLeaving
  rw [h]

theorem nextSegment_of_quiet_eq : sh'.session.nextSegment.1 = sh.session.nextSegment.1 := by
  show (sh'.quiet f).session.nextSegment.1 = (sh.quiet f).session.nextSegment.1
  rw [h]

theorem asked_of_quiet_eq : sh'.asked.quiet f = sh.asked.quiet f := congrArg asked h

theorem next_of_quiet_eq (source : Source) : source.next m sh'.world = source.next m sh.world := by
  show source.next m (sh'.quiet f).world = source.next m (sh.quiet f).world
  rw [h]

theorem hasPath_of_quiet_eq (hpath : sh.HasPath) : sh'.HasPath := by
  show (sh'.quiet f).HasPath
  rw [h]
  exact hpath

theorem execute_of_quiet_eq (hpath : f = id ∨ sh.HasPath) (segment : Text) :
    (execute m segment sh').quiet f = (execute m segment sh).quiet f := by
  rw [quiet_execute m segment (hpath.imp_right (hasPath_of_quiet_eq h)), h, quiet_execute m segment hpath]

theorem read_of_quiet_eq (w : ω) :
    ({ sh'.ask with world := w } : Shell ω).quiet f = ({ sh.ask with world := w } : Shell ω).quiet f := by
  have hask : sh'.ask.quiet f = sh.ask.quiet f := by rw [quiet_ask, h, quiet_ask]
  exact congrArg (fun sh : Shell ω => { sh with world := w }) hask

theorem endInput_of_quiet_eq (failure : Option SysError) (hheld : sh.journal.held = [])
    (hheld' : sh'.journal.held = []) : (sh'.endInput failure).quiet f = (sh.endInput failure).quiet f := by
  have hjournal : sh'.journal.unasked = sh.journal.unasked := congrArg journal h
  cases failure with
  | none =>
    have hended : (sh'.endInput none).journal.unasked = (sh.endInput none).journal.unasked := by
      rw [unasked_endInput_none hheld', hjournal, unasked_endInput_none hheld]
    exact congrArg₂ (fun (sh : Shell ω) journal => { sh with journal }) h hended
  | some e =>
    have hprogram : sh'.session.program = sh.session.program := by
      show (sh'.quiet f).session.program = (sh.quiet f).session.program
      rw [h]
    have hfailed : (sh'.endInput (some e)).journal.unasked = (sh.endInput (some e)).journal.unasked := by
      rw [unasked_endInput_some, hjournal, hprogram, unasked_endInput_some]
    exact congrArg₂ (fun (sh : Shell ω) journal => { sh with journal }) h hfailed

end Same

/-! ## A loop -/

theorem answer_inGuise (m : Machine ω) (name : Text) (argv : List Text) (g : Guise) {sh : Shell ω}
    (h : g.interactive = id ∨ sh.HasPath) :
    answer m name argv (sh.inGuise g) = ((answer m name argv sh).1.inGuise g, (answer m name argv sh).2) := by
  unfold answer
  cases Builtin.named? name with
  | some b => exact runBuiltin_inGuise ..
  | none => exact runProgram_inGuise m name argv g h

/-- The result of a command is the same, with a search path even if no one is asked. -/
theorem Ran.outcome?_quiet (m : Machine ω) {r : Ran ω} (h : f = id ∨ r.shell.HasPath) :
    (r.quiet f).outcome? m = r.outcome? m := by
  cases hw : r.words m with
  | nil =>
    have hwords : (r.quiet f).words m = [] := hw
    rw [(after_of_nil hwords).1, (after_of_nil hw).1]
  | cons name args =>
    have hwords : (r.quiet f).words m = name :: args := hw
    have hopened : (r.quiet f).shell.opened r.segment (name :: args) =
        (r.shell.opened r.segment (name :: args)).inGuise (.quiet f) :=
      congrArg (Shell.mk _ r.shell.world) (Journal.unasked_note rfl _).symm
    have hanswer := @answer_inGuise ω m name (name :: args) (.quiet f)
      (r.shell.opened r.segment (name :: args)) h
    rw [outcome?_of_cons hwords, outcome?_of_cons hw, show (r.quiet f).segment = r.segment from rfl, hopened, hanswer]

/-- What a loop does, any other shell does that is the same but for what was written for the one who is asked; where
there is a search path, whichever of the two asks. -/
theorem Loop.exists_quiet_eq {m : Machine ω} {source : Source} {sh last : Shell ω} {trace : List (Ran ω)}
    (h : Loop m source sh trace last) (hpath : ∀ r ∈ trace, f = id ∨ r.shell.HasPath) {sh' : Shell ω}
    (hheld : sh.journal.held = []) (hheld' : sh'.journal.held = []) (hsame : sh'.quiet f = sh.quiet f) :
    ∃ trace' last', Loop m source sh' trace' last' ∧ trace'.map (Ran.quiet f) = trace.map (Ran.quiet f) ∧
      last'.quiet f = last.quiet f := by
  -- what a shell is but for asking decides which turn comes next, and each turn keeps `hsame`
  induction h using Loop.rec_turns generalizing sh' with
  | left _ sh hl => exact ⟨[], sh', .left ((isLeaving_of_quiet_eq hsame).trans hl), rfl, hsame⟩
  | ran _ sh _ segment trace hl hn _ ih =>
    obtain ⟨hr, hrest⟩ := List.forall_mem_cons.1 hpath
    have hasked := asked_of_quiet_eq hsame
    obtain ⟨trace', last', hloop, htrace, hlast⟩ := ih hrest
      ((held_invariant m).execute segment sh.asked hheld) ((held_invariant m).execute segment sh'.asked hheld')
      (execute_of_quiet_eq hasked hr segment)
    refine ⟨⟨segment, sh'.asked⟩ :: trace', last', .ran_asked ((isLeaving_of_quiet_eq hsame).trans hl)
      ((nextSegment_of_quiet_eq hsame).trans hn) hloop, ?_, hlast⟩
    rw [List.map_cons, List.map_cons, htrace]
    exact congrArg (fun sh => Ran.mk segment sh :: _) hasked
  | line source _ sh _ raw w _ hl hn hr _ ih =>
    have hread := read_of_quiet_eq (asked_of_quiet_eq hsame) w
    obtain ⟨trace', last', hloop, hend⟩ := ih hpath ((held_invariant m).ask sh.asked hheld)
      (show ({ sh'.asked.ask with world := w }.receive raw).journal.held = [] from
        (held_invariant m).ask sh'.asked hheld')
      (by rw [quiet_receive, hread, quiet_receive])
    exact ⟨trace', last', .line_asked ((isLeaving_of_quiet_eq hsame).trans hl)
      ((nextSegment_of_quiet_eq hsame).trans hn) ((next_of_quiet_eq hsame source).trans hr) hloop, hend⟩
  | stopped source _ sh failure w hl hn hr =>
    have hask : ({ sh.asked.ask with world := w } : Shell ω).journal.held = [] :=
      (held_invariant m).ask sh.asked hheld
    have hask' : ({ sh'.asked.ask with world := w } : Shell ω).journal.held = [] :=
      (held_invariant m).ask sh'.asked hheld'
    exact ⟨[], _, .stopped ((isLeaving_of_quiet_eq hsame).trans hl)
      ((nextSegment_of_quiet_eq hsame).trans hn) ((next_of_quiet_eq hsame source).trans hr), rfl,
      endInput_of_quiet_eq (read_of_quiet_eq (asked_of_quiet_eq hsame) w) failure hask hask'⟩

/-! ## A whole run -/

theorem quiet_remember (m : Machine ω) (sh : Shell ω) : (remember m sh).quiet f = remember m (sh.quiet f) := by
  have hload : (sh.quiet f).session.loadHistory m (sh.quiet f).world =
      ((sh.session.loadHistory m sh.world).1.inGuise (.quiet f), (sh.session.loadHistory m sh.world).2) := by
    unfold Session.loadHistory
    rw [show (sh.quiet f).session.historyPath = sh.session.historyPath from rfl]
    cases sh.session.historyPath with
    | none => rfl
    | some path =>
      dsimp only
      rw [show (sh.quiet f).session.history = sh.session.history from rfl,
        show (sh.quiet f).world = sh.world from rfl]
      cases sh.session.history.load ((m.readFile sh.world path).map (·.1)) with
      | mk result history => cases result <;> rfl
  unfold remember
  rw [hload]
  rfl

/-- In two closed loops the same was run with the same results, and nothing differs but what was written for the one
who is asked. -/
structure Alike (m : Machine ω) (trace trace' : List (Ran ω)) (last last' : Shell ω) : Prop where
  commands : trace'.map (Ran.command m) = trace.map (Ran.command m)
  outcomes : trace'.map (Ran.outcome? m) = trace.map (Ran.outcome? m)
  reports : (close m last').journal.reports = (close m last).journal.reports
  status : (close m last').status = (close m last).status
  log : (close m last').journal.log.filter (!·.asks) = (close m last).journal.log.filter (!·.asks)
  world : (close m last').world = (close m last).world

theorem Alike.of_quiet_eq {m : Machine ω} {trace trace' : List (Ran ω)} {last last' : Shell ω}
    (htrace : trace'.map (Ran.quiet f) = trace.map (Ran.quiet f)) (hlast : last'.quiet f = last.quiet f)
    (hpath : ∀ r ∈ trace, f = id ∨ r.shell.HasPath) : Alike m trace trace' last last' := by
  have hpath' : ∀ r' ∈ trace', f = id ∨ r'.shell.HasPath := by
    intro r' hr'
    obtain ⟨r, hr, hsame⟩ := List.mem_map.1 (htrace ▸ List.mem_map_of_mem hr')
    exact (hpath r hr).imp_right (hasPath_of_quiet_eq (congrArg Ran.shell hsame).symm)
  have houtcomes : ∀ trace : List (Ran ω), (∀ r ∈ trace, f = id ∨ r.shell.HasPath) →
      (trace.map (Ran.quiet f)).map (Ran.outcome? m) = trace.map (Ran.outcome? m) := by
    intro trace hpath
    rw [List.map_map]
    exact List.map_congr_left fun r hr => r.outcome?_quiet m (hpath r hr)
  have hcommands : ∀ trace : List (Ran ω),
      (trace.map (Ran.quiet f)).map (Ran.command m) = trace.map (Ran.command m) := by
    intro trace
    rw [List.map_map]
    rfl
  have hclose : (close m last').quiet f = (close m last).quiet f := by rw [quiet_close, hlast, quiet_close]
  refine ⟨?_, ?_, ?_, ?_, ?_, ?_⟩
  · rw [← hcommands, htrace, hcommands]
  · rw [← houtcomes trace' hpath', htrace, houtcomes trace hpath]
  · rw [← Journal.reports_unasked, ← Journal.reports_unasked (close m last).journal]
    exact congrArg (fun sh : Shell ω => sh.journal.reports) hclose
  · show ((close m last').quiet f).status = ((close m last).quiet f).status
    rw [hclose]
  · rw [← Journal.log_unasked, ← Journal.log_unasked]
    exact congrArg (fun sh : Shell ω => sh.journal.log) hclose
  · show ((close m last').quiet f).world = ((close m last).quiet f).world
    rw [hclose]

/-- If there is a search path in front of each segment, the same session does the same with or without asking. -/
theorem Loop.exists_alike {m : Machine ω} {source : Source} {s : Session} {w : ω} {trace : List (Ran ω)}
    {last : Shell ω} (h : Loop m source (remember m (start s w)) trace last)
    (hpath : ∀ r ∈ trace, r.shell.HasPath) (interactive : Bool) :
    ∃ trace' last', Loop m source (remember m (start { s with interactive } w)) trace' last' ∧
      Alike m trace trace' last last' := by
  let unasked : Bool → Bool := fun _ => false
  have hsame : (remember m (start { s with interactive } w)).quiet unasked =
      (remember m (start s w)).quiet unasked := by
    rw [quiet_remember, quiet_remember]
    rfl
  have hpath' : ∀ r ∈ trace, unasked = id ∨ r.shell.HasPath := fun r hr => .inr (hpath r hr)
  obtain ⟨trace', last', hloop, htrace, hlast⟩ := h.exists_quiet_eq hpath' rfl rfl hsame
  exact ⟨trace', last', hloop, .of_quiet_eq htrace hlast hpath'⟩

/-! ## Interrupts -/

/-- A shell that is interrupted again and again; of each time it is told whether a line was being asked for. -/
def interrupted (asking : List Bool) (sh : Shell ω) : Shell ω := asking.foldl (fun sh a => sh.interrupt a) sh

theorem interrupted_eq (asking : List Bool) (sh : Shell ω) :
    ∃ journal, sh.interrupted asking = { sh with journal } ∧ journal.held = sh.journal.held ∧
      journal.transcript = sh.journal.transcript ++
        asking.flatMap fun a => Utf8.encode (onInterrupt sh.session.settings.prompt a) := by
  induction asking generalizing sh with
  | nil => exact ⟨sh.journal, rfl, rfl, (List.append_nil _).symm⟩
  | cons a asking ih =>
    obtain ⟨journal, hsh, hheld, htranscript⟩ := ih (sh.interrupt a)
    have hfirst : (sh.interrupt a).journal.transcript =
        sh.journal.transcript ++ Utf8.encode (onInterrupt sh.session.settings.prompt a) := by
      unfold interrupt Journal.transcript
      dsimp only
      rw [Journal.log_note, List.flatMap_append, List.flatMap_singleton]
      rfl
    refine ⟨journal, hsh, hheld, ?_⟩
    rw [htranscript, hfirst, List.append_assoc, List.flatMap_cons]
    rfl

theorem quiet_interrupted (asking : List Bool) (sh : Shell ω) : (sh.interrupted asking).quiet f = sh.quiet f := by
  induction asking generalizing sh with
  | nil => rfl
  | cons a asking ih => exact ih (sh.interrupt a)

/-- Interrupts while a shell waits for a line show its prompt again, each time on a new line and if a line is still
being asked for. They change nothing else: with the line that comes then the shell goes on like one that was not
interrupted. -/
theorem interrupts_alike {m : Machine ω} {source : Source} {sh last : Shell ω} {raw : Text} {w : ω}
    {trace : List (Ran ω)} (h : Loop m source ({ sh.ask with world := w }.receive raw) trace last)
    (asking : List Bool) :
    (sh.ask.interrupted asking).session = sh.ask.session ∧ (sh.ask.interrupted asking).world = sh.ask.world ∧
      (sh.ask.interrupted asking).journal.transcript = sh.ask.journal.transcript ++
        asking.flatMap (fun a => Utf8.encode (onInterrupt sh.session.settings.prompt a)) ∧
      ∃ trace' last', Loop m source ({ sh.ask.interrupted asking with world := w }.receive raw) trace' last' ∧
        Alike m trace trace' last last' := by
  obtain ⟨journal, hsh, hheld, htranscript⟩ := interrupted_eq asking sh.ask
  have hask : sh.ask.journal.held = [] := by
    unfold ask
    dsimp only
    split <;> rfl
  have hsame : ({ sh.ask.interrupted asking with world := w }.receive raw).quiet id =
      ({ sh.ask with world := w }.receive raw).quiet id := by
    rw [quiet_receive, quiet_receive]
    exact congrArg (fun sh : Shell ω => { sh with world := w }.receive raw) (quiet_interrupted asking sh.ask)
  rw [hsh] at hsame ⊢
  have hpath : ∀ r ∈ trace, (id : Bool → Bool) = id ∨ r.shell.HasPath := fun _ _ => .inl rfl
  obtain ⟨trace', last', hloop, htrace, hlast⟩ := h.exists_quiet_eq hpath hask (hheld.trans hask) hsame
  exact ⟨rfl, rfl, htranscript, trace', last', hloop, .of_quiet_eq htrace hlast hpath⟩

end Shell

end LineShell
