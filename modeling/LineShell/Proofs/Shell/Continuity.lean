import LineShell.Proofs.Shell.Persistence
import LineShell.Proofs.Shell.Trace

/-!
# The history from one run to the next

* `Shell.AtHome` : a run from a new session whose home directory is the same at its ends, where the
  history can be read, or is missing, and can be written;
* `content_run` : what the file holds after such a run;
* `raws_run` : of the lines of some octets those up to the one that leaves are read.

`run_continues` : the history of such a run, and of another one behind it.
-/

namespace LineShell

variable {ω : Type}

/-- The lines of a file that holds these octets; none if it is missing. -/
def heldLines (held : Option Bytes) : List Text := (held.map Bytes.textLines).getD []

namespace Shell

/-- A run from a new session in a home directory that is the same in the end. The history file at `path`
can be read or is missing when the run starts, and the history can be written to it when it ends. -/
structure AtHome (m : Machine ω) (source : Source) (s : Session) (w : ω) (path : Text) : Prop where
  isNew : s.IsNew
  home : ∃ home, home ≠ [] ∧ path = Path.join home s.settings.historyFile ∧
    s.env.get? Session.home = some home ∧
    (work isLeaving m source (start s w)).session.env.get? Session.home = some home
  found : (∃ bs w', m.readFile w path = .ok (⟨bs, none⟩, w')) ∨ m.readFile w path = .error .notFound
  writable : ∃ w', m.writeFile (work isLeaving m source (start s w)).world path
    (work isLeaving m source (start s w)).session.history.fileBytes = .ok w'

/-! ## One run -/

theorem historyPath_eq {s : Session} {home : Text} (hne : home ≠ [])
    (hhome : s.env.get? Session.home = some home) :
    s.historyPath = some (Path.join home s.settings.historyFile) := by
  unfold Session.historyPath History.path?
  rw [hhome]
  cases home with
  | nil => exact absurd rfl hne
  | cons c home => rfl

theorem historyPath_eq_none {s : Session} (h : (s.env.get? Session.home).getD [] = []) : s.historyPath = none := by
  unfold Session.historyPath History.path?
  cases hhome : s.env.get? Session.home with
  | none => rfl
  | some home =>
    rw [hhome] at h
    rw [show home = [] from h]

theorem content_close {m : Machine ω} {sh : Shell ω} {path : Text} {content : ω → Option Bytes} {w : ω}
    (ht : Tracks m path content w sh) (hp : sh.session.historyPath = some path)
    (hwritable : sh.session.historyWritable = true)
    (hw : ∃ w', m.writeFile sh.world path sh.session.history.fileBytes = .ok w') :
    content (close m sh).world = some sh.session.history.fileBytes := by
  obtain ⟨w', hw⟩ := hw
  have hclose : (close m sh).world = w' := by
    unfold close Session.saveHistory
    rw [hp]
    dsimp only
    rw [if_pos hwritable, hw]
  rw [hclose]
  exact ht.write w' hw

/-- The last lines of the file are there from the start, and it may be written. -/
theorem history_remember {m : Machine ω} {s : Session} (hs : s.IsNew) {w : ω} {path : Text}
    {content : ω → Option Bytes} {e : Shell ω} (ht : Tracks m path content w e)
    (hp : s.historyPath = some path)
    (hfound : (∃ bs w', m.readFile w path = .ok (⟨bs, none⟩, w')) ∨
      m.readFile w path = .error .notFound) :
    (remember m (start s w)).session.history.texts = (heldLines (content w)).rtake s.settings.maxHistory ∧
      (remember m (start s w)).session.historyWritable = true := by
  have hstart : (start s w).session.historyPath = some path := hp
  obtain ⟨hh, hw⟩ := remember_of_some m hstart
  rw [hh, hw]
  dsimp only [start]
  rw [hs.history, hs.historyWritable]
  unfold heldLines
  obtain ⟨bs, w', hr⟩ | hr := hfound
  · rw [hr, ht.read _ _ hr]
    exact ⟨History.texts_replace .., rfl⟩
  · rw [hr, ht.missing hr]
    exact ⟨(List.rtake_nil _).symm, rfl⟩

theorem remembers_remember_of_isNew (m : Machine ω) {s : Session} (hs : s.IsNew) (w : ω) :
    Remembers (remember m (start s w)).session.history.texts s.settings.maxHistory
      (remember m (start s w)).session.historyWritable (remember m (start s w)) := by
  have hcap : s.history.cap = s.settings.maxHistory := by rw [hs.history]; rfl
  have hsound : s.history.Sound := by rw [hs.history]; exact History.sound_empty _
  exact hcap ▸ remembers_remember m hsound w

theorem raws_close (m : Machine ω) (sh : Shell ω) : (close m sh).journal.raws = sh.journal.raws :=
  view_close (fun _ => rfl) (fun _ _ => rfl) rfl m sh

theorem content_run {m : Machine ω} {source : Source} {s : Session} {w : ω} {path : Text}
    {content : ω → Option Bytes} (ht : Tracks m path content w (work isLeaving m source (start s w)))
    (h : AtHome m source s w path) :
    let kept := (heldLines (content w) ++ accepted (run m source (start s w)).journal.raws).rtake
      s.settings.maxHistory
    content (run m source (start s w)).world = some (Bytes.ofLines kept) ∧
      Bytes.textLines (Bytes.ofLines kept) = kept := by
  obtain ⟨home, hne, hpath, hstart, hend⟩ := h.home
  have hp : s.historyPath = some path := hpath ▸ historyPath_eq hne hstart
  obtain ⟨htexts, hwritable⟩ := history_remember h.isNew ht hp h.found
  have hwork := @Invariant.work ω m _ isLeaving (remembers_invariant m _ _ _) source _
    (remembers_remember_of_isNew m h.isNew w)
  have hnamed : (work isLeaving m source (start s w)).session.program = s.program ∧
      (work isLeaving m source (start s w)).session.settings = s.settings := by
    refine (named_invariant m s.program s.settings).work source ?_
    obtain ⟨_, _, hr⟩ := session_remember m (start s w)
    rw [hr]
    exact ⟨rfl, rfl⟩
  have hwrite := h.writable
  unfold run
  rw [raws_close]
  generalize work isLeaving m source (start s w) = e at *
  have hpend := historyPath_eq hne hend
  rw [hnamed.2, ← hpath] at hpend
  have hkept : e.session.history.texts =
      (heldLines (content w) ++ accepted e.journal.raws).rtake s.settings.maxHistory := by
    rw [hwork.texts, htexts, rtake_append_rtake]
  have hback := hwork.sound.textLines_fileBytes
  unfold History.fileBytes at hback
  rw [hkept] at hback
  refine ⟨?_, hback⟩
  rw [content_close ht hpend (hwork.writable.trans hwritable) hwrite, History.fileBytes, hkept]

/-! ## The lines that are read -/

theorem raws_drain (m : Machine ω) (fuel : Nat) (sh : Shell ω) :
    (drain isLeaving m fuel sh).journal.raws = sh.journal.raws :=
  view_drain (fun _ => rfl) (fun _ _ => rfl) isLeaving m fuel sh

/-- Lines are read until one has left: if some are not, the last that was did, and no other. -/
theorem raws_feedLines (m : Machine ω) (ls : List Text) (sh : Shell ω) :
    ∃ read rest, ls = read ++ rest ∧
      (feedLines isLeaving m ls sh).journal.raws = sh.journal.raws ++ read ∧
      (rest ≠ [] → (feedLines isLeaving m ls sh).isLeaving = true) ∧
      ∀ front raw, read = front ++ [raw] → (feedLines isLeaving m front sh).isLeaving = false := by
  induction ls generalizing sh with
  | nil =>
    refine ⟨[], [], rfl, ?_, fun h => absurd rfl h, fun front raw h => by simp at h⟩
    rw [feedLines, List.append_nil]
    split
    · rfl
    · exact (raws_endInput none sh.ask).trans (raws_ask sh)
  | cons raw rest ih =>
    by_cases hl : sh.isLeaving = true
    · refine ⟨[], raw :: rest, rfl, ?_, fun _ => ?_, fun front raw h => by simp at h⟩
      · rw [feedLines, if_pos hl, List.append_nil]
      · rw [feedLines, if_pos hl, hl]
    · obtain ⟨read, rest', rfl, hraws, hrest, hfront⟩ := ih (finishLine isLeaving m (sh.ask.receive raw))
      refine ⟨raw :: read, rest', rfl, ?_, ?_, ?_⟩
      · rw [feedLines, if_neg hl, hraws, finishLine, raws_drain, raws_receive, raws_ask,
          List.append_assoc]
        rfl
      · rw [feedLines, if_neg hl]
        exact hrest
      · intro front last h
        cases front with
        | nil =>
          rw [feedLines, if_neg hl]
          show (sh.ask.endInput none).session.stage.isLeaving = false
          rw [session_endInput]
          exact Bool.eq_false_iff.2 hl
        | cons first front =>
          obtain ⟨rfl, hread⟩ := List.cons.inj h
          rw [feedLines, if_neg hl]
          exact hfront front last hread

theorem raws_run (m : Machine ω) (bs : Bytes) {s : Session} (hs : s.IsNew) (w : ω) :
    let r := run m (.ofBytes bs) (start s w)
    ∃ rest, Bytes.textLines bs = r.journal.raws ++ rest ∧ (rest ≠ [] → r.isLeaving = true) ∧
      ∀ front raw, r.journal.raws = front ++ [raw] →
        (run m (.ofBytes (Bytes.ofLines front)) (start s w)).isLeaving = false := by
  have hrun : ∀ bs, run m (.ofBytes bs) (start s w) =
      close m (feedLines isLeaving m (Bytes.textLines bs) (remember m (start s w))) := by
    intro bs
    rw [run, work_ofBytes, finishLine_of_exhausted m ((cursor_remember m _).trans hs.cursor)]
  obtain ⟨read, rest, hlines, hraws, hrest, hfront⟩ :=
    raws_feedLines m (Bytes.textLines bs) (remember m (start s w))
  have hread : (close m (feedLines isLeaving m (Bytes.textLines bs)
      (remember m (start s w)))).journal.raws = read := (raws_close ..).trans hraws
  rw [hrun]
  refine ⟨rest, by rw [hread]; exact hlines, hrest, fun front raw h => ?_⟩
  rw [hread] at h
  have hno : ∀ t ∈ front, '\n' ∉ t := by
    intro t ht
    have hline : t ∈ Bytes.textLines bs := by
      rw [hlines, h]
      simp [ht]
    exact Bytes.not_mem_textLines hline
  rw [hrun, Bytes.textLines_ofLines hno]
  exact hfront front raw h

/-- After such a run the file holds the last of its lines and the accepted ones, and nothing else. Of a
source of octets the lines up to the one that leaves are read. After another such run behind it, on
whatever machine, the file holds the last of the lines from before both and of those that each accepted;
in between it may be cut to more lines than in the end. -/
theorem run_continues (m : Machine ω) (source : Source) (s : Session) (w : ω) (path : Text)
    (content : ω → Option Bytes) (ht : Tracks m path content w (work isLeaving m source (start s w)))
    (h : AtHome m source s w path) :
    let r := run m source (start s w)
    let known := heldLines (content w)
    let added := accepted r.journal.raws
    content r.world = some (Bytes.ofLines ((known ++ added).rtake s.settings.maxHistory)) ∧
    (∀ bs, source = .ofBytes bs → ∃ rest, Bytes.textLines bs = r.journal.raws ++ rest ∧
      (rest ≠ [] → r.isLeaving = true) ∧
      ∀ front raw, r.journal.raws = front ++ [raw] →
        (run m (.ofBytes (Bytes.ofLines front)) (start s w)).isLeaving = false) ∧
    ∀ (m' : Machine ω) (content' : ω → Option Bytes) (source' : Source) (s' : Session) (w' : ω),
      Tracks m' path content' w' (work isLeaving m' source' (start s' w')) →
      AtHome m' source' s' w' path → s'.settings.maxHistory ≤ s.settings.maxHistory →
      content' w' = content r.world →
      let r' := run m' source' (start s' w')
      content' r'.world = some (Bytes.ofLines
        ((known ++ added ++ accepted r'.journal.raws).rtake s'.settings.maxHistory)) := by
  intro r known added
  obtain ⟨hcontent, hback⟩ := content_run ht h
  refine ⟨hcontent, ?_, fun m' content' source' s' w' ht' h' hcap hsame => ?_⟩
  · rintro bs rfl
    exact raws_run m bs h.isNew w
  · have hlines : heldLines (content' w') = (known ++ added).rtake s.settings.maxHistory := by
      rw [hsame, hcontent]
      exact hback
    have hcontent' := (content_run ht' h').1
    rw [hlines, rtake_rtake_append hcap] at hcontent'
    exact hcontent'

/-- Two runs in which three lines are kept; the second one leaves. -/
theorem run_continues_over_two_runs :
    let m := Bench.machine
    let path := "/a/.simple_shell_history".toList
    let held := (m.contents? · path)
    let s := Session.start "sh".toList { maxHistory := 3 } (.ofPairs [("HOME".toList, "/a".toList)])
    let w : Bench := { Bench.plain with files := [(path, Utf8.encode "one\ntwo\n".toList)] }
    let source := Source.ofBytes (Utf8.encode "x # y\n\nfalse && z\n".toList)
    let r := run m source (start s w)
    let source' := Source.ofBytes (Utf8.encode "exit 3; q\nnever\n".toList)
    let r' := run m source' (start s r.world)
    AtHome m source s w path ∧ AtHome m source' s r.world path ∧
      Tracks m path held w (work isLeaving m source (start s w)) ∧
      Tracks m path held r.world (work isLeaving m source' (start s r.world)) ∧
      held r.world = some (Utf8.encode "two\nx \nfalse && z\n".toList) ∧
      held r'.world = some (Utf8.encode "x \nfalse && z\nexit 3; q\n".toList) ∧
      held r'.world = some (Bytes.ofLines
        ((heldLines (held w) ++ accepted r.journal.raws ++ accepted r'.journal.raws).rtake 3)) := by
  intro m path held s w source r source' r'
  have hfound : ∀ b : Bench, (∃ bs b', m.readFile b path = .ok (⟨bs, none⟩, b')) ∨
      m.readFile b path = .error .notFound := by
    intro b
    rw [Bench.readFile_eq]
    cases b.content path with
    | some bs => exact .inl ⟨bs, b, rfl⟩
    | none => exact .inr rfl
  have htracks : ∀ (b : Bench) (e : Shell Bench), Tracks m path held b e :=
    fun b _ => tracks_contents? (Bench.rereads _ _ _) b
  have hhome : s.env.get? Session.home = some "/a".toList := by decide
  have hpath : path = Path.join "/a".toList s.settings.historyFile := by decide
  have h : AtHome m source s w path :=
    ⟨Session.isNew_start .., ⟨_, by decide, hpath, hhome, by decide +kernel⟩, hfound w, ⟨_, rfl⟩⟩
  have h' : AtHome m source' s r.world path :=
    ⟨Session.isNew_start .., ⟨_, by decide, hpath, hhome, by decide +kernel⟩, hfound r.world, ⟨_, rfl⟩⟩
  obtain ⟨-, -, hsecond⟩ := run_continues m source s w path held (htracks ..) h
  have hboth := hsecond m held source' s r.world (htracks ..) h' (Nat.le_refl _) rfl
  exact ⟨h, h', htracks .., htracks .., by decide +kernel, by decide +kernel, hboth⟩

end Shell

end LineShell
