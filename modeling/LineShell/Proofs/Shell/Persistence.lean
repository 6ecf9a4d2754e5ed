import LineShell.Proofs.History
import LineShell.Proofs.Line.Comment
import LineShell.Proofs.Machine
import LineShell.Proofs.Shell.Events
import LineShell.Proofs.Shell.Invariant

/-!
# The history on disk

* `accepted` : the lines that are recorded of those that are read;
* `Remembers known cap writable sh` : the history of `sh` is the last of the lines `known` and the
  accepted ones; every step keeps this (`remembers_invariant`);
* `remember_of_some`, `close_cases`, `Remembers.close` : what loading and saving do;
* `Tracks` : what a file holds, as far as a run reads and writes it; by `tracks_contents?` what can be read is
  that, if the one write is read back;
* `Carries` : a file is untouched, or holds its old lines and the accepted ones.

`run_carries_iff` : when the file that a run saves to carries its lines on.
-/

namespace LineShell

variable {ω : Type}

namespace Shell

/-- The lines that are recorded of those that are read: without comments, and none that is blank. -/
def accepted (raws : List Text) : List Text := (raws.map Line.stripComment).filter (!Text.isBlank ·)

/-- `content` is what the file at `path` holds, as far as this is told by one read of it, in the state `w` that a run
starts in, and by one write, of the history of the shell `e` that the run ends in. -/
structure Tracks (m : Machine ω) (path : Text) (content : ω → Option Bytes) (w : ω) (e : Shell ω) : Prop where
  read : ∀ bs w', m.readFile w path = .ok (⟨bs, none⟩, w') → content w = some bs
  missing : m.readFile w path = .error .notFound → content w = none
  write : ∀ w', m.writeFile e.world path e.session.history.fileBytes = .ok w' →
    content w' = some e.session.history.fileBytes

/-- On any machine what can be read is what the file holds, if the one write is read back. -/
theorem tracks_contents? {m : Machine ω} {path : Text} {e : Shell ω}
    (h : m.Rereads path e.world e.session.history.fileBytes) (w : ω) : Tracks m path (m.contents? · path) w e where
  read _ _ := Machine.contents?_of_readFile
  missing := Machine.contents?_of_missing
  write := h

/-- A file that held `old` still does, or holds the last of its old lines and these. -/
def Carries (held : Option Bytes) (old : Bytes) (lines : List Text) (cap : Nat) : Prop :=
  held = some old ∨
    ∃ bs, held = some bs ∧ Bytes.textLines bs = (Bytes.textLines old ++ lines).rtake cap

theorem carries_iff {held : Option Bytes} {old : Bytes} {known added : List Text} {cap : Nat}
    (h : held = some old ∨ ∃ bs, held = some bs ∧ Bytes.textLines bs = (known ++ added).rtake cap) :
    Carries held old added cap ↔ held = some old ∨
      (known ++ added).rtake cap = (Bytes.textLines old ++ added).rtake cap := by
  obtain h | ⟨bs, hbs, hlines⟩ := h
  · exact iff_of_true (.inl h) (.inl h)
  · refine or_congr_right ⟨?_, fun hk => ⟨bs, hbs, hlines.trans hk⟩⟩
    rintro ⟨bs', hbs', hlines'⟩
    obtain rfl : bs = bs' := Option.some.inj (hbs.symm.trans hbs')
    exact hlines.symm.trans hlines'

theorem not_carries {old new : Bytes} {added : List Text} {cap : Nat} (hne : new ≠ old)
    (hlines : Bytes.textLines new ≠ (Bytes.textLines old ++ added).rtake cap) :
    ¬ Carries (some new) old added cap := by
  rintro (h | ⟨bs, hbs, h⟩)
  · exact hne (Option.some.inj h)
  · obtain rfl := Option.some.inj hbs
    exact hlines h

/-! ## During a run -/

/-- The history is the last of some lines and of the accepted ones, and may be written or not. -/
structure Remembers (known : List Text) (cap : Nat) (writable : Bool) (sh : Shell ω) : Prop where
  texts : sh.session.history.texts = (known ++ accepted sh.journal.raws).rtake cap
  cap : sh.session.history.cap = cap
  sound : sh.session.history.Sound
  writable : sh.session.historyWritable = writable

/-- A step that reads no line and does not touch the history. -/
theorem Remembers.of_eq {known : List Text} {cap : Nat} {writable : Bool} {sh sh' : Shell ω}
    (h : Remembers known cap writable sh) (hh : sh'.session.history = sh.session.history)
    (hw : sh'.session.historyWritable = sh.session.historyWritable)
    (hj : sh'.journal.raws = sh.journal.raws) : Remembers known cap writable sh' := by
  refine ⟨?_, ?_, ?_, ?_⟩
  · rw [hh, hj, h.texts]
  · rw [hh, h.cap]
  · rw [hh]
    exact h.sound
  · rw [hw, h.writable]

theorem raws_execute (m : Machine ω) (segment : Text) (sh : Shell ω) :
    (execute m segment sh).journal.raws = sh.journal.raws :=
  (view_execute (fun _ => rfl) m segment sh).trans (List.append_nil _)

theorem raws_ask (sh : Shell ω) : sh.ask.journal.raws = sh.journal.raws := view_ask (fun _ => rfl) sh

theorem raws_receive (raw : Text) (sh : Shell ω) :
    (sh.receive raw).journal.raws = sh.journal.raws ++ [raw] := view_receive raw sh

theorem raws_endInput (failure : Option SysError) (sh : Shell ω) :
    (sh.endInput failure).journal.raws = sh.journal.raws := by
  refine (view_endInput (fun _ => rfl) failure sh).trans ?_
  cases failure <;> exact List.append_nil _

theorem history_receive (raw : Text) (sh : Shell ω) :
    (sh.receive raw).session.history =
      if Text.isBlank (Line.stripComment raw) then sh.session.history
      else sh.session.history.add (Line.stripComment raw) := rfl

theorem Remembers.receive {known : List Text} {cap : Nat} {writable : Bool} {sh : Shell ω}
    (h : Remembers known cap writable sh) {raw : Text} (hraw : '\n' ∉ raw) :
    Remembers known cap writable (sh.receive raw) := by
  have hline : '\n' ∉ Line.stripComment raw := fun hm =>
    hraw ((Line.isPrefix_stripComment raw).subset hm)
  by_cases hb : Text.isBlank (Line.stripComment raw) = true
  · have hh : (sh.receive raw).session.history = sh.session.history := by
      rw [history_receive, if_pos hb]
    have ha : accepted (sh.journal.raws ++ [raw]) = accepted sh.journal.raws := by
      simp [accepted, hb]
    refine ⟨?_, ?_, ?_, h.writable⟩
    · rw [hh, raws_receive, ha, h.texts]
    · rw [hh, h.cap]
    · rw [hh]
      exact h.sound
  · have hh : (sh.receive raw).session.history =
        sh.session.history.add (Line.stripComment raw) := by rw [history_receive, if_neg hb]
    have ha : accepted (sh.journal.raws ++ [raw]) =
        accepted sh.journal.raws ++ [Line.stripComment raw] := by
      simp [accepted, hb]
    refine ⟨?_, ?_, ?_, h.writable⟩
    · rw [hh, raws_receive, ha, History.texts_add_eq_rtake, h.texts, h.cap, rtake_append_rtake,
        List.append_assoc]
    · rw [hh, History.cap_add, h.cap]
    · rw [hh]
      exact h.sound.add hline

theorem remembers_invariant (m : Machine ω) (known : List Text) (cap : Nat) (writable : Bool) :
    Invariant m (Remembers known cap writable) where
  withCursor _ _ h := h.of_eq rfl rfl rfl
  execute segment sh h := by
    obtain ⟨_, _, _, _, _, _, _, hs⟩ := session_execute m segment sh
    exact h.of_eq (by rw [hs]) (by rw [hs]) (raws_execute m segment sh)
  ask sh h := h.of_eq rfl rfl (raws_ask sh)
  next _ _ h := h.of_eq rfl rfl rfl
  receive _ _ hraw h := h.receive hraw
  endInput failure sh h := by
    have hs : (sh.endInput failure).session = sh.session := by cases failure <;> rfl
    exact h.of_eq (by rw [hs]) (by rw [hs]) (raws_endInput failure sh)

/-! ## At its ends -/

theorem remember_of_none (m : Machine ω) {sh : Shell ω} (h : sh.session.historyPath = none) :
    (remember m sh).session = sh.session := by
  unfold remember Session.loadHistory
  rw [h]

/-- What the file gives is the history from then on, which may no longer be written if that failed. -/
theorem remember_of_some (m : Machine ω) {sh : Shell ω} {path : Text}
    (h : sh.session.historyPath = some path) :
    let loaded := sh.session.history.load ((m.readFile sh.world path).map (·.1))
    (remember m sh).session.history = loaded.2 ∧
      (remember m sh).session.historyWritable = (sh.session.historyWritable && loaded.1.isOk) := by
  unfold remember Session.loadHistory
  rw [h]
  dsimp only
  cases sh.session.history.load ((m.readFile sh.world path).map (·.1)) with
  | mk result history => cases result <;> simp [Except.isOk, Except.toBool]

theorem remembers_remember (m : Machine ω) {s : Session} (hs : s.history.Sound) (w : ω) :
    Remembers (remember m (start s w)).session.history.texts s.history.cap
      (remember m (start s w)).session.historyWritable (remember m (start s w)) := by
  obtain ⟨hcap, hsound⟩ : (remember m (start s w)).session.history.cap = s.history.cap ∧
      (remember m (start s w)).session.history.Sound := by
    cases hp : (start s w).session.historyPath with
    | none =>
      rw [remember_of_none m hp]
      exact ⟨rfl, hs⟩
    | some path =>
      rw [(remember_of_some m hp).1]
      exact ⟨History.cap_load .., hs.load _⟩
  refine ⟨?_, hcap, hsound, rfl⟩
  have hraws : accepted (remember m (start s w)).journal.raws = [] := rfl
  rw [hraws, List.append_nil, rtake_of_length_le]
  rw [← hcap]
  exact hsound.length_le

theorem close_cases (m : Machine ω) {sh : Shell ω} {path : Text}
    (hp : sh.session.historyPath = some path) :
    (close m sh).world = sh.world ∨
    (sh.session.historyWritable = true ∧
      m.writeFile sh.world path sh.session.history.fileBytes = .ok (close m sh).world) := by
  unfold close Session.saveHistory
  rw [hp]
  dsimp only
  cases hw : sh.session.historyWritable with
  | false => exact .inl rfl
  | true =>
    rw [if_pos rfl]
    cases hf : m.writeFile sh.world path sh.session.history.fileBytes with
    | error e => exact .inl rfl
    | ok w => exact .inr ⟨rfl, rfl⟩

/-- Closing leaves the machine as it is, or it may write, and the file comes to hold what is remembered. -/
theorem Remembers.close {m : Machine ω} {known : List Text} {cap : Nat} {writable : Bool} {e : Shell ω}
    (h : Remembers known cap writable e) {path : Text} (hp : e.session.historyPath = some path)
    {content : ω → Option Bytes} {w : ω} (ht : Tracks m path content w e) :
    (close m e).world = e.world ∨
    (writable = true ∧ ∃ bs, content (close m e).world = some bs ∧
      Bytes.textLines bs = (known ++ accepted e.journal.raws).rtake cap) := by
  obtain hsame | ⟨hwritable, hwrite⟩ := close_cases m hp
  · exact .inl hsame
  · refine .inr ⟨h.writable.symm.trans hwritable, _, ht.write _ hwrite, ?_⟩
    rw [h.sound.textLines_fileBytes, h.texts]

/-- A history that may not be written is not. -/
theorem world_close_of_not_writable (m : Machine ω) {e : Shell ω} (h : e.session.historyWritable = false) :
    (close m e).world = e.world := by
  unfold Shell.close Session.saveHistory
  dsimp only
  rw [h]
  cases e.session.historyPath <;> rfl

/-! ## The whole run -/

theorem remembers_work (m : Machine ω) (source : Source) {s : Session} (hs : s.history.Sound) (w : ω) :
    Remembers (remember m (start s w)).session.history.texts s.history.cap
      (remember m (start s w)).session.historyWritable (work isLeaving m source (start s w)) :=
  (remembers_invariant m _ _ _).work source (remembers_remember m hs w)

/-- A file that was there to be loaded has been loaded, if the history may still be written. -/
theorem texts_remember_of_content {m : Machine ω} {s : Session} {w : ω} {path : Text}
    {content : ω → Option Bytes} {e : Shell ω} (ht : Tracks m path content w e) {old : Bytes}
    (hpath : s.historyPath = some path) (hold : content w = some old)
    (hwritable : (remember m (start s w)).session.historyWritable = true) :
    (remember m (start s w)).session.history.texts = (Bytes.textLines old).rtake s.history.cap := by
  have hstart : (start s w).session.historyPath = some path := hpath
  obtain ⟨hh, hw⟩ := remember_of_some m hstart
  rw [hw, Bool.and_eq_true] at hwritable
  have hok := hwritable.2
  rw [hh]
  change (s.history.load ((m.readFile w path).map (·.1))).1.isOk = true at hok
  show (s.history.load ((m.readFile w path).map (·.1))).2.texts = _
  cases hr : m.readFile w path with
  | error e =>
    have hne : e ≠ .notFound := by
      rintro rfl
      rw [ht.missing hr] at hold
      simp at hold
    obtain ⟨⟨e', he⟩, -⟩ | ⟨hmissing, -⟩ | ⟨bs, n, hbs, -⟩ :=
      History.load_cases s.history (.error e)
    · rw [hr, show (Except.error e : Except SysError (ByteStream × ω)).map (·.1) = .error e from rfl,
        he] at hok
      simp [Except.isOk, Except.toBool] at hok
    · exact absurd (Except.error.inj hmissing) hne
    · simp at hbs
  | ok found =>
    obtain ⟨⟨bs, _ | e⟩, w'⟩ := found
    · obtain rfl : old = bs := by simpa [hold] using ht.read _ _ hr
      exact History.texts_replace ..
    · rw [hr] at hok
      simp [Except.map, History.load, Except.isOk, Except.toBool] at hok

/-- A history that could not be loaded may not be written. -/
theorem historyWritable_of_load_error (m : Machine ω) {s : Session} {w : ω} {path : Text} {e : SysError}
    (hp : s.historyPath = some path) (he : (s.history.load ((m.readFile w path).map (·.1))).1 = .error e) :
    (remember m (start s w)).session.historyWritable = false := by
  have hstart : (start s w).session.historyPath = some path := hp
  rw [(remember_of_some m hstart).2]
  show (_ && (s.history.load ((m.readFile w path).map (·.1))).1.isOk) = false
  rw [he]
  exact Bool.and_false _

/-- A run from `s` saves its history to a file, which held `old` until then. The file is left alone or
comes to hold the last of the lines that were loaded and accepted; so it carries its own lines on exactly
if it is left alone or those are the last lines of both. A history that could not be loaded is never
saved, and a file that was there to be loaded from the same path carries its lines on. -/
theorem run_carries_iff (m : Machine ω) (source : Source) (s : Session) (hs : s.history.Sound) (w : ω)
    (path : Text) (content : ω → Option Bytes) (old : Bytes)
    (hp : (work isLeaving m source (start s w)).session.historyPath = some path)
    (ht : Tracks m path content w (work isLeaving m source (start s w)))
    (hold : content (work isLeaving m source (start s w)).world = some old) :
    let e := work isLeaving m source (start s w)
    let r := run m source (start s w)
    let known := (remember m (start s w)).session.history.texts
    let added := accepted e.journal.raws
    let cap := s.history.cap
    (r.world = e.world ∨ ∃ bs, content r.world = some bs ∧
      Bytes.textLines bs = (known ++ added).rtake cap) ∧
    (Carries (content r.world) old added cap ↔ content r.world = some old ∨
      (known ++ added).rtake cap = (Bytes.textLines old ++ added).rtake cap) ∧
    (∀ path' error, s.historyPath = some path' →
      (s.history.load ((m.readFile w path').map (·.1))).1 = .error error → r.world = e.world) ∧
    (s.historyPath = some path → content w = some old → Carries (content r.world) old added cap) := by
  have hwork := remembers_work m source hs w
  have hcases := hwork.close hp ht
  have hkept : (close m (work isLeaving m source (start s w))).world =
      (work isLeaving m source (start s w)).world →
      content (close m (work isLeaving m source (start s w))).world = some old :=
    fun hsame => (congrArg content hsame).trans hold
  have hiff := carries_iff (hcases.imp hkept And.right)
  refine ⟨hcases.imp_right And.right, hiff, fun path' error hp' he => ?_, fun hpath hstart => hiff.2 ?_⟩
  · refine world_close_of_not_writable m (hwork.writable.trans ?_)
    exact historyWritable_of_load_error m hp' he
  · obtain hsame | ⟨hwritable, -⟩ := hcases
    · exact .inl (hkept hsame)
    · right
      rw [texts_remember_of_content ht hpath hstart hwritable, rtake_append_rtake]

/-- The home directory stays the same, and the file in it goes on. -/
theorem run_carries_same_home :
    let m := Bench.machine
    let path := "/a/.simple_shell_history".toList
    let s := Session.start "sh".toList {} (.ofPairs [("HOME".toList, "/a".toList)])
    let old := Utf8.encode "one\ntwo\n".toList
    let w : Bench := { Bench.plain with files := [(path, old)] }
    let source := Source.ofBytes (Utf8.encode "x # y\n\n".toList)
    let e := work isLeaving m source (start s w)
    let r := run m source (start s w)
    Tracks m path (m.contents? · path) w e ∧ m.contents? e.world path = some old ∧
      Carries (m.contents? r.world path) old ["x ".toList] 4096 ∧
      m.contents? r.world path = some (Utf8.encode "one\ntwo\nx \n".toList) := by
  intro m path s old w source e r
  have hp : e.session.historyPath = some path := by decide +kernel
  have ht : Tracks m path (m.contents? · path) w e := tracks_contents? (Bench.rereads _ _ _) w
  have hold : m.contents? e.world path = some old := by decide +kernel
  have hadded : accepted e.journal.raws = ["x ".toList] := by decide +kernel
  obtain ⟨-, -, -, hsame⟩ := run_carries_iff m source s (History.sound_empty _) w path _ old hp ht hold
  rw [show accepted (work isLeaving m source (start s w)).journal.raws = _ from hadded] at hsame
  exact ⟨ht, hold, hsame (by decide) (by decide +kernel), by decide +kernel⟩

/-- The home directory is changed to one with a history of its own, which is lost. -/
theorem run_loses_other_home :
    let m := Bench.machine
    let path := "/b/.simple_shell_history".toList
    let s := Session.start "sh".toList {} (.ofPairs [("HOME".toList, "/a".toList)])
    let old := Utf8.encode "old\n".toList
    let w : Bench := { Bench.plain with
      files := [("/a/.simple_shell_history".toList, Utf8.encode "new\n".toList), (path, old)] }
    let source := Source.ofBytes (Utf8.encode "setenv HOME /b\n".toList)
    let r := run m source (start s w)
    r.session.historyPath = some path ∧
      Tracks m path (m.contents? · path) w (work isLeaving m source (start s w)) ∧
      m.contents? w path = some old ∧
      m.contents? r.world path = some (Utf8.encode "new\nsetenv HOME /b\n".toList) ∧
      ¬ Carries (m.contents? r.world path) old ["setenv HOME /b".toList] 4096 := by
  intro m path s old w source r
  have hnow : m.contents? r.world path = some (Utf8.encode "new\nsetenv HOME /b\n".toList) := by
    decide +kernel
  refine ⟨by decide +kernel, tracks_contents? (Bench.rereads _ _ _) w, by decide +kernel, hnow, ?_⟩
  rw [hnow]
  exact not_carries (by decide +kernel) (by decide +kernel)

end Shell

end LineShell
