import LineShell.Proofs.Shell.Ending
import LineShell.Proofs.Shell.Order
import LineShell.Proofs.Shell.Unasked
import LineShell.Proofs.Shell.Unread

/-!
# Prompts

* `Told prompt log` : how a journal tells of asking. A prompt stands directly in front of each read and nowhere else,
  and a new line behind the read that finds the end;
* `Loop.told` : the journal of a loop tells of it in this way if someone is asked;
* `Loop.readings` : what a loop reads;
* `Prompted` : what is written for the one who is asked, all in all.

`run_prompts` : the prompts of a run, and that they are all that is different about it.
-/

namespace LineShell

variable {ω : Type}

/-- A prompt, in the octets that are written. -/
def Event.prompt (bytes : Bytes) : Event := .wrote ⟨.prompt, bytes⟩

/-- The new line for someone who was asked in vain. -/
def Event.farewell : Event := .wrote ⟨.farewell, Utf8.encode ['\n']⟩

/-- A journal that tells of asking with a prompt. -/
inductive Told (prompt : Bytes) : List Event → Prop
  | nil : Told prompt []
  | other {e : Event} {log : List Event} (hasks : e.asks = false) (hread : e.reading? = none)
      (rest : Told prompt log) : Told prompt (e :: log)
  | read {reading : Reading} {log : List Event} (hreading : reading ≠ .ended) (rest : Told prompt log) :
      Told prompt (.prompt prompt :: .read reading :: log)
  | ended {log : List Event} (rest : Told prompt log) :
      Told prompt (.prompt prompt :: .read .ended :: .farewell :: log)

/-- Where an event may stand. A prompt stands directly in front of a read, a read directly behind a prompt, and the
new line directly behind the read that finds the end. -/
inductive Event.Placed (bytes : Bytes) (front behind : List Event) : Event → Prop
  | other {e : Event} (hasks : e.asks = false) (hread : e.reading? = none) : e.Placed bytes front behind
  | prompt {reading : Reading} (h : [.read reading] <+: behind) : (prompt bytes).Placed bytes front behind
  | read {reading : Reading} (h : [.prompt bytes] <:+ front) : (read reading).Placed bytes front behind
  | farewell (h : [.read .ended] <:+ front) : farewell.Placed bytes front behind

theorem Event.Placed.of_suffix {bytes : Bytes} {front front' behind : List Event} {e : Event}
    (h : e.Placed bytes front behind) (hfront : front <:+ front') : e.Placed bytes front' behind := by
  cases h with
  | other hasks hread => exact .other hasks hread
  | prompt h => exact .prompt h
  | read h => exact .read (h.trans hfront)
  | farewell h => exact .farewell (h.trans hfront)

/-- What is written around a read for the one who is asked. -/
def asking (prompt : Bytes) : Reading → List Event
  | .ended => [.prompt prompt, .farewell]
  | _ => [.prompt prompt]

namespace Told

variable {prompt : Bytes} {log log' front behind : List Event}

theorem append (h : Told prompt log) (h' : Told prompt log') : Told prompt (log ++ log') := by
  induction h with
  | nil => exact h'
  | other hasks hread _ ih => exact .other hasks hread ih
  | read hreading _ ih => exact .read hreading ih
  | ended _ ih => exact .ended ih

theorem of_forall (h : ∀ e ∈ log, e.asks = false ∧ e.reading? = none) : Told prompt log := by
  induction log with
  | nil => exact .nil
  | cons e log ih =>
    obtain ⟨⟨hasks, hread⟩, hlog⟩ := List.forall_mem_cons.1 h
    exact .other hasks hread (ih hlog)

theorem placed (h : Told prompt log) {e : Event} (hlog : log = front ++ e :: behind) :
    e.Placed prompt front behind := by
  -- an event that is not among the first ones of `log` has its place in the rest
  induction h generalizing front with
  | nil => simp at hlog
  | other hasks hread _ ih =>
    rcases front with _ | ⟨a, front⟩
    · obtain ⟨rfl, -⟩ := List.cons.inj hlog
      exact .other hasks hread
    · exact (ih (List.cons.inj hlog).2).of_suffix (List.suffix_cons ..)
  | read _ _ ih =>
    rcases front with _ | ⟨a, _ | ⟨b, front⟩⟩
    · obtain ⟨rfl, rfl⟩ := List.cons.inj hlog
      exact .prompt ⟨_, rfl⟩
    · obtain ⟨rfl, htail⟩ := List.cons.inj hlog
      obtain ⟨rfl, -⟩ := List.cons.inj htail
      exact .read List.suffix_rfl
    · have hrest := (List.cons.inj (List.cons.inj hlog).2).2
      exact (ih hrest).of_suffix (List.suffix_append [a, b] front)
  | ended _ ih =>
    rcases front with _ | ⟨a, _ | ⟨b, _ | ⟨c, front⟩⟩⟩
    · obtain ⟨rfl, rfl⟩ := List.cons.inj hlog
      exact .prompt ⟨_, rfl⟩
    · obtain ⟨rfl, htail⟩ := List.cons.inj hlog
      obtain ⟨rfl, -⟩ := List.cons.inj htail
      exact .read List.suffix_rfl
    · obtain ⟨rfl, htail⟩ := List.cons.inj hlog
      obtain ⟨rfl, hlast⟩ := List.cons.inj htail
      obtain ⟨rfl, -⟩ := List.cons.inj hlast
      exact .farewell (List.suffix_cons ..)
    · have hrest := (List.cons.inj (List.cons.inj (List.cons.inj hlog).2).2).2
      exact (ih hrest).of_suffix (List.suffix_append [a, b, c] front)

/-- The prompts, and the new line at the end, are those of what was read. -/
theorem filter_asks (h : Told prompt log) :
    log.filter Event.asks = (log.filterMap Event.reading?).flatMap (asking prompt) := by
  induction h with
  | nil => rfl
  | other hasks hread _ ih => rw [List.filter_cons_of_neg (by rw [hasks]; decide), List.filterMap_cons_none hread, ih]
  | @read reading log hreading _ ih =>
    have hasking : asking prompt reading = [.prompt prompt] := by
      cases reading <;> first | rfl | exact absurd rfl hreading
    show [Event.prompt prompt] ++ log.filter Event.asks = (reading :: log.filterMap Event.reading?).flatMap (asking prompt)
    rw [ih, List.flatMap_cons, hasking]
  | ended _ ih => exact congrArg (.prompt prompt :: .farewell :: ·) ih

end Told

namespace Shell

/-! ## What a loop tells of asking -/

theorem asks_commandOutput (m : Machine ω) (name : Text) (argv : List Text) (sh : Shell ω) :
    ∀ c ∈ commandOutput m name argv sh, c.asks = false := by
  unfold commandOutput
  cases Builtin.named? name with
  | some b => exact List.forall_mem_singleton.2 rfl
  | none =>
    dsimp only
    split
    · exact List.forall_mem_nil _
    · intro c hc
      obtain ⟨_, -, rfl⟩ := List.mem_map.1 hc
      rfl

theorem Ran.asks_output (m : Machine ω) (r : Ran ω) : ∀ c ∈ r.output m, c.asks = false := by
  unfold output
  cases r.words m with
  | nil => exact List.forall_mem_nil _
  | cons name args =>
    intro c hc
    obtain hc | hc := List.mem_append.1 hc
    · exact asks_commandOutput m _ _ _ c hc
    · obtain ⟨_, -, rfl⟩ := List.mem_map.1 hc
      rfl

/-- No one is asked by a segment that is run. -/
theorem Ran.asks_events (m : Machine ω) (r : Ran ω) :
    ∀ e ∈ Event.ran r.segment (r.words m) :: (r.output m).map .wrote, e.asks = false ∧ e.reading? = none := by
  refine List.forall_mem_cons.2 ⟨⟨rfl, rfl⟩, fun e he => ?_⟩
  obtain ⟨c, hc, rfl⟩ := List.mem_map.1 he
  exact ⟨r.asks_output m c hc, rfl⟩

/-- Where someone is asked each turn tells of it. -/
theorem Turn.told (m : Machine ω) {k : Manner} {prompt : Text} (hk : k.prompt? = some prompt) (t : Turn ω) :
    Told (Utf8.encode prompt) (t.events m k) := by
  cases t with
  | ran r => exact .of_forall (r.asks_events m)
  | read reading =>
    unfold events Manner.ahead Manner.behind
    rw [hk]
    cases reading with
    | line raw => exact .read (by simp) .nil
    | ended => exact .ended .nil
    | failed e => exact .read (by simp) (.other rfl rfl .nil)

theorem Turn.asks_events (m : Machine ω) {k : Manner} (hk : k.prompt? = none) (t : Turn ω) :
    ∀ e ∈ t.events m k, e.asks = false := by
  cases t with
  | ran r => exact fun e he => (r.asks_events m e he).1
  | read reading =>
    unfold events Manner.ahead Manner.behind
    rw [hk]
    cases reading <;> simp [Event.asks, Chunk.asks]

variable {m : Machine ω} {source : Source} {sh last : Shell ω} {trace : List (Ran ω)}

/-- Where someone is asked the journal of a loop tells of it. -/
theorem Loop.told (h : Loop m source sh trace last) (hheld : sh.journal.held = []) {prompt : Text}
    (hprompt : sh.session.manner.prompt? = some prompt) (hlog : Told (Utf8.encode prompt) sh.journal.log) :
    Told (Utf8.encode prompt) last.journal.log := by
  obtain ⟨turns, -, hturns⟩ := h.turns hheld
  have htold : Told (Utf8.encode prompt) (turns.flatMap (Turn.events m sh.session.manner)) := by
    clear hturns
    induction turns with
    | nil => exact .nil
    | cons t turns ih => exact (t.told m hprompt).append ih
  rw [hturns]
  exact hlog.append htold

theorem Loop.asks_log (h : Loop m source sh trace last) (hheld : sh.journal.held = [])
    (hprompt : sh.session.manner.prompt? = none) (hlog : ∀ e ∈ sh.journal.log, e.asks = false) :
    ∀ e ∈ last.journal.log, e.asks = false := by
  obtain ⟨turns, -, hturns⟩ := h.turns hheld
  rw [hturns]
  intro e he
  obtain he | he := List.mem_append.1 he
  · exact hlog e he
  · obtain ⟨t, -, ht⟩ := List.mem_flatMap.1 he
    exact t.asks_events m hprompt e ht

/-- Closing has nothing to do with asking. -/
theorem exists_log_close (m : Machine ω) (hheld : sh.journal.held = []) :
    ∃ closing, (close m sh).journal.log = sh.journal.log ++ closing ∧
      ∀ e ∈ closing, e.asks = false ∧ e.reading? = none := by
  rw [log_close m hheld, List.append_assoc]
  refine ⟨_, rfl, fun e he => ?_⟩
  obtain he | he := List.mem_append.1 he
  · obtain ⟨p, -, rfl⟩ := Option.map_eq_some_iff.1 (Option.mem_toList.1 he)
    exact ⟨rfl, rfl⟩
  · obtain rfl := List.mem_singleton.1 he
    exact ⟨rfl, rfl⟩

theorem raws_line (raw : Text) (sh : Shell ω) (w : ω) :
    ({ sh.ask with world := w }.receive raw).journal.raws = sh.journal.raws ++ [raw] :=
  (raws_receive raw _).trans (congrArg (· ++ _) (raws_ask sh))

theorem raws_stopped (failure : Option SysError) (sh : Shell ω) (w : ω) :
    ({ sh.ask with world := w }.endInput failure).journal.raws = sh.journal.raws :=
  (raws_endInput failure _).trans (raws_ask sh)

/-- A loop reads lines, and at last finds that there are no more, unless it is left. -/
theorem Loop.readings (h : Loop m source sh trace last) : ∃ (raws : List Text) (stop? : Option (Option SysError)),
    last.journal.readings = sh.journal.readings ++ raws.map .line ++ (stop?.map lastReading).toList ∧
      last.journal.raws = sh.journal.raws ++ raws ∧ (stop? = none ↔ last.isLeaving = true) := by
  induction h using Loop.rec_turns with
  | left _ _ hl => exact ⟨[], none, by simp, by simp, by simp [hl]⟩
  | ran _ sh _ segment _ _ _ _ ih =>
    have hreadings := readings_execute m segment sh.asked
    have hraws := raws_execute m segment sh.asked
    rw [hreadings, hraws] at ih
    exact ih
  | line _ _ sh _ raw w _ _ _ _ _ ih =>
    rw [readings_line, raws_line] at ih
    obtain ⟨raws, stop?, hread, hraw, hstop⟩ := ih
    exact ⟨raw :: raws, stop?, by simpa [asked] using hread, by simpa [asked] using hraw, hstop⟩
  | stopped _ _ sh failure w hl _ _ =>
    have hstays : ({ sh.asked.ask with world := w }.endInput failure).isLeaving = false := by
      unfold isLeaving
      rw [session_endInput]
      exact hl
    refine ⟨[], some failure, ?_, ?_, by simp [hstays]⟩
    · rw [readings_stopped]
      simp [asked]
    · rw [raws_stopped]
      simp [asked]

/-! ## The prompts of a run -/

/-- What is expected of a closed loop where someone is asked. Every event has its place, so that a prompt stands in
front of each read and nowhere else. There is one prompt for each line, and one more if the input ended or could not
be read; a new line comes behind them if it ended. Nothing is asked or read behind an `exit` that succeeds. -/
structure Prompted (m : Machine ω) (prompt : Text) (trace : List (Ran ω)) (last : Shell ω) : Prop where
  placed : ∀ front e behind, (close m last).journal.log = front ++ e :: behind →
    e.Placed (Utf8.encode prompt) front behind
  asked : ∃ stop? : Option (Option SysError),
    (close m last).journal.readings =
      (close m last).journal.raws.map .line ++ (stop?.map lastReading).toList ∧
    (stop? = none ↔ last.isLeaving = true) ∧
    (close m last).journal.log.filter Event.asks =
      List.replicate ((close m last).journal.raws.length + stop?.toList.length) (.prompt (Utf8.encode prompt)) ++
        if stop? = some none then [.farewell] else []
  left : ∀ r ∈ trace, (r.leaves? m).isSome → ∃ behind,
    (close m last).journal.log = r.shell.journal.log ++ behind ∧
      ∀ e ∈ behind, e.asks = false ∧ e.reading? = none

theorem flatMap_asking (prompt : Bytes) (raws : List Text) (stop? : Option (Option SysError)) :
    (raws.map Reading.line ++ (stop?.map lastReading).toList).flatMap (asking prompt) =
      List.replicate (raws.length + stop?.toList.length) (.prompt prompt) ++
        if stop? = some none then [.farewell] else [] := by
  have hlines : (raws.map Reading.line).flatMap (asking prompt) = List.replicate raws.length (.prompt prompt) := by
    induction raws with
    | nil => rfl
    | cons raw raws ih => exact congrArg (Event.prompt prompt :: ·) ih
  rw [List.flatMap_append, hlines]
  rcases stop? with _ | _ | e
  · rfl
  · simp [lastReading, asking, List.replicate_succ']
  · simp [lastReading, asking, List.replicate_succ']

/-- Behind an `exit` that succeeds there is only what it puts out itself, and closing. -/
theorem Loop.log_of_leaves (h : Loop m source sh trace last) (hheld : sh.journal.held = []) :
    ∀ r ∈ trace, (r.leaves? m).isSome → ∃ behind,
      (close m last).journal.log = r.shell.journal.log ++ behind ∧
        ∀ e ∈ behind, e.asks = false ∧ e.reading? = none := by
  intro r hr hleaves
  obtain ⟨hhelds, hlast⟩ := h.forall_ran (held_invariant m) hheld
  have hl : sh.isLeaving = false := by
    refine Bool.eq_false_iff.2 fun hleaving => ?_
    obtain ⟨rfl, -⟩ := h.unique (.left hleaving)
    cases hr
  -- only the last segment can have left, and so `r` is that one
  obtain ⟨front, q, code, rfl, rfl, -, hfront⟩ | ⟨hnone, -⟩ := h.cases_end hl
  · have hrq : r = q := by
      obtain hmem | hmem := List.mem_append.1 hr
      · rw [hfront r hmem] at hleaves
        cases hleaves
      · exact List.mem_singleton.1 hmem
    subst hrq
    obtain ⟨closing, hclose, hplain⟩ := exists_log_close m hlast
    rw [Ran.log_after m (hhelds r hr), List.append_assoc] at hclose
    refine ⟨_, hclose, fun e he => ?_⟩
    obtain he | he := List.mem_append.1 he
    · exact r.asks_events m e he
    · exact hplain e he
  · rw [hnone r hr] at hleaves
    cases hleaves

theorem Loop.prompted (h : Loop m source sh trace last) (hlog : sh.journal = .empty) {prompt : Text}
    (hprompt : sh.session.manner.prompt? = some prompt) : Prompted m prompt trace last := by
  have hheld : sh.journal.held = [] := by rw [hlog]; rfl
  obtain ⟨closing, hclose, hplain⟩ := exists_log_close m (h.forall_ran (held_invariant m) hheld).2
  have htold : Told (Utf8.encode prompt) (close m last).journal.log := by
    rw [hclose]
    exact (h.told hheld hprompt (by rw [hlog]; exact .nil)).append (.of_forall hplain)
  obtain ⟨raws, stop?, hread, hraw, hstop⟩ := h.readings
  rw [hlog] at hread hraw
  have hraws : (close m last).journal.raws = raws := (raws_close m last).trans hraw
  have hreadings : (close m last).journal.readings = raws.map .line ++ (stop?.map lastReading).toList :=
    (readings_close m last).trans hread
  refine ⟨fun front e behind => htold.placed, ⟨stop?, by rw [hraws, hreadings], hstop, ?_⟩, h.log_of_leaves hheld⟩
  rw [htold.filter_asks, hraws, ← flatMap_asking, ← hreadings]
  rfl

/-- Where someone is asked for lines, a prompt is written directly in front of each read and nowhere else, a new line
behind the last one exactly if the input ended, and neither behind an `exit` that succeeds. Where no one is asked
neither is written. And if a search path is set in front of each segment, the same session runs the same segments
with the same results with or without asking, and writes the same but for this. A run is such a loop, unless it reads
as many lines as it may. -/
theorem run_prompts (m : Machine ω) (s : Session) (w : ω) :
    (∀ source trace last, Loop m source (remember m (start s w)) trace last →
      (s.interactive = true → Prompted m s.settings.prompt trace last) ∧
      (s.interactive = false → ∀ e ∈ (close m last).journal.log, e.asks = false) ∧
      ((∀ r ∈ trace, r.shell.HasPath) → ∀ interactive, ∃ trace' last',
        Loop m source (remember m (start { s with interactive } w)) trace' last' ∧
          Alike m trace trace' last last')) ∧
    (∀ source, (∃ trace last, Loop m source (remember m (start s w)) trace last ∧
        run m source (start s w) = close m last) ∨
      ∃ raws : List Text, raws.length = source.reads ∧
        (run m source (start s w)).journal.readings = raws.map .line) ∧
    ∀ bs, ∃ trace last, Loop m (.ofBytes bs) (remember m (start s w)) trace last ∧
      run m (.ofBytes bs) (start s w) = close m last := by
  have hmanner : (remember m (start s w)).session.manner = s.manner := by
    obtain ⟨_, _, hr⟩ := session_remember m (start s w)
    rw [hr]
    rfl
  refine ⟨fun source trace last hloop => ⟨fun hi => ?_, fun hi => ?_, hloop.exists_alike⟩,
    fun source => exists_loop_run_or_lines m source (start s w), fun bs => exists_loop_run m bs (start s w)⟩
  · have hprompt : s.manner.prompt? = some s.settings.prompt := if_pos hi
    exact hloop.prompted rfl (hmanner ▸ hprompt)
  · have hprompt : s.manner.prompt? = none := if_neg (Bool.eq_false_iff.1 hi)
    obtain ⟨closing, hclose, hplain⟩ := exists_log_close m (hloop.forall_ran (held_invariant m) rfl).2
    rw [hclose]
    intro e he
    obtain he | he := List.mem_append.1 he
    · exact hloop.asks_log rfl (hmanner ▸ hprompt) (List.forall_mem_nil _) e he
    · exact (hplain e he).1

/-- Someone is asked for four lines, two of which have no command, and once more at the end of the input. -/
theorem run_prompts_of_five_reads :
    let m := Bench.machine
    let s := { Session.start "sh".toList {} (.ofPairs [("PATH".toList, "/bin".toList)]) with interactive := true }
    let source := Source.ofBytes (Utf8.encode "help; ; nope || true\n\n# c\nsetenv && help".toList)
    let r := run m source (start s Bench.plain)
    let s' := { s with interactive := false }
    let r' := run m source (start s' Bench.plain)
    r.journal.transcript = Utf8.encode ("$ This function has not been implemented yet.\n".toList ++
      "sh: 2: nope: command not found\n$ $ $ ".toList ++
      "sh: 3: setenv: Number of arguments provided is not correct\n$ \n".toList) ∧
    ∃ trace last, Loop m source (remember m (start s Bench.plain)) trace last ∧ r = close m last ∧
      Prompted m "$ ".toList trace last ∧ (∀ r ∈ trace, r.shell.HasPath) ∧
      ∃ trace' last', Loop m source (remember m (start s' Bench.plain)) trace' last' ∧ r' = close m last' ∧
        Alike m trace trace' last last' ∧ ∀ e ∈ r'.journal.log, e.asks = false := by
  intro m s source r s' r'
  obtain ⟨hall, -, hoctets⟩ := run_prompts m s Bench.plain
  obtain ⟨hall', -, hoctets'⟩ := run_prompts m s' Bench.plain
  obtain ⟨trace, last, hloop, hr⟩ := hoctets _
  obtain ⟨trace', last', hloop', hr'⟩ := hoctets' _
  obtain ⟨hprompted, -, halike⟩ := hall _ _ _ hloop
  obtain ⟨-, hunasked, -⟩ := hall' _ _ _ hloop'
  -- the shells of the trace are those of the course of the lines, which can be worked out
  have hcourse : ∀ r ∈ (Course.lines m (Bytes.textLines source.ahead) (remember m (start s Bench.plain))).ran,
      r.shell.HasPath := by decide +kernel
  have hcursor : (remember m (start s Bench.plain)).session.cursor = .exhausted := cursor_remember m _
  have hpath : ∀ r ∈ trace, r.shell.HasPath := by
    intro r hr
    exact hcourse r.idle (hloop.map_idle hcursor ▸ List.mem_map_of_mem hr)
  obtain ⟨trace'', last'', hloop'', hsame⟩ := halike hpath false
  obtain ⟨rfl, rfl⟩ := hloop''.unique hloop'
  refine ⟨by decide +kernel, trace, last, hloop, hr, hprompted rfl, hpath, trace', last', hloop', hr', hsame, ?_⟩
  rw [show r' = close m last' from hr']
  exact hunasked rfl

end Shell

end LineShell
