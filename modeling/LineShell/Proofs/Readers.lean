import LineShell.Host.Basic
import LineShell.Proofs.History.File
import LineShell.Proofs.Source
import LineShell.Proofs.Text.Pieces

/-!
# Two readers of one file

* `Machine.Steady` : what is read from a handle is gone, and nothing else is; a `Host` is steady;
* `Source.Holds m w s bs` : `s` goes on with `bs` and then ends;
* `Source.Gives m w s ts` : `ts` are all lines that `s` gives, one read after another;
* `Source.Holds.gives_iff` : they are the lines of what it holds, however they lie in the blocks.

`readers_agree` : a script is read as the lines that a history is loaded with from the same file.
-/

namespace LineShell

variable {ω : Type}

/-! ## Steady machines -/

/-- Behind the octets that are read the others are still there, and the failure that they may end in. -/
def Machine.Steady (m : Machine ω) : Prop :=
  ∀ w handle n, n ≤ (m.readable w handle).bytes.length →
    m.readable (m.advance w handle n).2 (m.advance w handle n).1 =
      ⟨(m.readable w handle).bytes.drop n, (m.readable w handle).failure⟩

theorem Bench.steady : Bench.machine.Steady := by
  rintro b (_ | ⟨id, offset⟩) n -
  · show ByteStream.mk [] none = ⟨[].drop n, none⟩
    rw [List.drop_nil]
  · show ByteStream.mk _ none = ⟨List.drop n (List.drop offset _), none⟩
    rw [List.drop_drop]
    rfl

namespace Script

theorem Pipe.bytes_drop (p : Pipe) (n : Nat) : (p.drop n).bytes = p.bytes.drop n := by
  simp [Pipe.drop, Pipe.bytes]

/-- What is read from a pipe or a file is gone, what cannot be read still cannot. -/
theorem System.readable_advance (s : System) (id n : Nat) :
    (s.advance id n).readable id = (s.readable id).map (·.drop n) := by
  unfold System.readable System.advance
  cases ho : s.opened[id]? with
  | none => simp [ho, Except.map]
  | some o =>
    obtain ⟨hlt, -⟩ := Array.getElem?_eq_some_iff.1 ho
    cases ht : o.target with
    | stream _ => cases hr : o.reads <;> simp [System.setOpened, ht, hr, hlt, Except.map]
    | pipe k =>
      simp only [System.changePipe, ho, ht, Array.getElem?_modify, if_pos]
      cases hr : o.reads
      · simp [Except.map]
      · cases s.pipes[k]? <;> simp [Except.map, Pipe.bytes_drop]
    | node i =>
      simp only [System.setOpened, ht, hlt, Array.getElem?_setIfInBounds_self_of_lt]
      cases hr : o.reads
      · simp [Except.map]
      · simp only [Bool.not_true, Bool.false_eq_true, if_false]
        split <;> simp [Except.map, List.drop_drop]

end Script

theorem Host.steady : Host.machine.Steady := by
  rintro h (_ | ⟨id, offset⟩) n -
  · show ByteStream.mk (((h.system.advance 0 n).readable 0).toOption.getD []) none =
      ⟨((h.system.readable 0).toOption.getD []).drop n, none⟩
    rw [Script.System.readable_advance]
    cases h.system.readable 0 <;> simp [Except.map, Except.toOption]
  · show h.readable (.file id (offset + n)) =
      ⟨(h.readable (.file id offset)).bytes.drop n, (h.readable (.file id offset)).failure⟩
    unfold Host.readable
    dsimp only
    split
    · rw [List.drop_nil]
    · rw [List.drop_drop]

namespace Source

variable {m : Machine ω} {w : ω} {s : Source} {bs : Bytes}

theorem le_readTo (n : Nat) : n ≤ readTo n := by
  have := Nat.div_add_mod (n + blockSize - 1) blockSize
  have hmod := Nat.mod_lt (n + blockSize - 1) (show 0 < blockSize by decide)
  unfold readTo
  rw [Nat.mul_comm]
  omega

/-- The blocks that are read for the first `n` octets hold them, and perhaps some of those behind. -/
theorem drop_block {bs : Bytes} {n : Nat} (hn : n ≤ bs.length) :
    (bs.take (readTo n)).drop n ++ bs.drop (bs.take (readTo n)).length = bs.drop n := by
  have hlen : n ≤ (bs.take (readTo n)).length := by
    have := le_readTo n
    rw [List.length_take]
    omega
  have hall : bs.take (readTo n) ++ bs.drop (bs.take (readTo n)).length = bs :=
    List.prefix_iff_eq_append.1 (List.take_prefix ..)
  rw [← List.drop_append_of_le_length hlen, hall]

/-- The source goes on with these octets and then ends. -/
inductive Holds (m : Machine ω) (w : ω) : Source → Bytes → Prop where
  | ahead (bs : Bytes) : Holds m w (ofBytes bs) bs
  | opened (hm : m.Steady) (ahead : Bytes) {handle : Handle} {bs : Bytes}
      (hread : m.readable w handle = ⟨bs, none⟩) : Holds m w ⟨ahead, some handle⟩ (ahead ++ bs)

/-- The lines that a source gives until it ends. -/
inductive Gives (m : Machine ω) : ω → Source → List Text → Prop where
  | ended {w : ω} {s : Source} {r : Source × ω} (h : s.next m w = (.ended, r)) : Gives m w s []
  | line {w : ω} {s : Source} {raw : Text} {r : Source × ω} {ts : List Text}
      (h : s.next m w = (.line raw, r)) (behind : Gives m r.2 r.1 ts) : Gives m w s (raw :: ts)

theorem Gives.unique {ts ts' : List Text} (h : Gives m w s ts) (h' : Gives m w s ts') : ts = ts' := by
  induction h generalizing ts' with
  | ended h =>
    cases h' with
    | ended => rfl
    | line h' => simp [h] at h'
  | line h behind ih =>
    cases h' with
    | ended h' => simp [h] at h'
    | line h' behind' =>
      obtain ⟨hraw, rfl⟩ := Prod.mk.inj (h.symm.trans h')
      rw [Reading.line.inj hraw, ih behind']

/-! ## One read -/

theorem Holds.next_of_not_mem (h : Holds m w s bs) (hbs : Bytes.newline ∉ bs) :
    ∃ r, s.next m w = (last bs, r) ∧ Holds m r.2 r.1 [] := by
  cases h with
  | ahead =>
    refine ⟨(ofBytes [], w), ?_, .ahead []⟩
    simp only [next, ofBytes, Bytes.firstLine?_eq_none_iff.2 hbs]
  | @opened hm ahead handle bs hread =>
    obtain ⟨hahead, hbs⟩ : Bytes.newline ∉ ahead ∧ Bytes.newline ∉ bs := by simpa using hbs
    have hrest := hm w handle bs.length (by rw [hread])
    rw [hread, List.drop_length] at hrest
    refine ⟨(⟨[], some (m.advance w handle bs.length).1⟩, (m.advance w handle bs.length).2), ?_,
      .opened hm [] hrest⟩
    simp only [next, Bytes.firstLine?_eq_none_iff.2 hahead, hread, Bytes.firstLine?_eq_none_iff.2 hbs]

/-- The line may lie in what was read ahead, or go on into the blocks that are read for it. -/
theorem Holds.next_of_firstLine? {line rest : Bytes} (h : Holds m w s bs)
    (hbs : Bytes.firstLine? bs = some (line, rest)) :
    ∃ r, s.next m w = (.line (Utf8.decode line), r) ∧ Holds m r.2 r.1 rest := by
  cases h with
  | ahead =>
    refine ⟨(ofBytes rest, w), ?_, .ahead rest⟩
    simp only [next, ofBytes, hbs]
  | @opened hm ahead handle bs hread =>
    cases hahead : Bytes.firstLine? ahead with
    | some found =>
      obtain ⟨front, behind⟩ := found
      obtain ⟨rfl, hfront⟩ := Bytes.firstLine?_eq_some_iff.1 hahead
      have hfirst : Bytes.firstLine? (front ++ Bytes.newline :: behind ++ bs) = some (front, behind ++ bs) :=
        Bytes.firstLine?_eq_some_iff.2 ⟨by simp, hfront⟩
      obtain ⟨rfl, rfl⟩ := Prod.mk.inj (Option.some.inj (hfirst.symm.trans hbs))
      refine ⟨(⟨behind, some handle⟩, w), ?_, .opened hm behind hread⟩
      simp only [next, hahead]
    | none =>
      have hnot := Bytes.firstLine?_eq_none_iff.1 hahead
      obtain ⟨front, behind, rfl, hfront⟩ : ∃ front behind, bs = front ++ Bytes.newline :: behind ∧
          Bytes.newline ∉ front := by
        have hmem : Bytes.newline ∈ ahead ++ bs := by simp [(Bytes.firstLine?_eq_some_iff.1 hbs).1]
        exact List.eq_append_cons_of_mem ((List.mem_append.1 hmem).resolve_left hnot)
      have hfirst : Bytes.firstLine? (ahead ++ (front ++ Bytes.newline :: behind)) =
          some (ahead ++ front, behind) :=
        Bytes.firstLine?_eq_some_iff.2 ⟨by simp, by simp [hnot, hfront]⟩
      obtain ⟨rfl, rfl⟩ := Prod.mk.inj (Option.some.inj (hfirst.symm.trans hbs))
      let block := (front ++ Bytes.newline :: behind).take (readTo (front.length + 1))
      have hrest := hm w handle block.length (by rw [hread]; exact List.length_take_le' ..)
      rw [hread] at hrest
      have hbehind : block.drop (front.length + 1) ++ (front ++ Bytes.newline :: behind).drop block.length =
          behind := by
        rw [drop_block (by simp), List.drop_append]
        simp
      refine ⟨(⟨block.drop (front.length + 1), some (m.advance w handle block.length).1⟩,
        (m.advance w handle block.length).2), ?_, hbehind ▸ .opened hm _ hrest⟩
      simp only [next, hahead, hread, Bytes.firstLine?_eq_some_iff.2 ⟨rfl, hfront⟩]
      rfl

/-! ## All reads -/

theorem Holds.gives {w : ω} {s : Source} {bs : Bytes} (h : Holds m w s bs) : Gives m w s (Bytes.textLines bs) := by
  unfold Bytes.textLines
  obtain ⟨rfl, hl⟩ | ⟨hne, hm, hl⟩ | ⟨line, rest, hbs, hm, hl⟩ := Bytes.lines_cases bs
  · obtain ⟨r, hr, -⟩ := h.next_of_not_mem (by simp)
    exact .ended hr
  · obtain ⟨r, hr, hends⟩ := h.next_of_not_mem hm
    obtain ⟨r', hr', -⟩ := hends.next_of_not_mem (by simp)
    have hlast : last bs = .line (Utf8.decode bs) := by simp [last, hne]
    rw [hl]
    exact .line (hr.trans (by rw [hlast])) (.ended hr')
  · obtain ⟨r, hr, hrest⟩ := h.next_of_firstLine? (Bytes.firstLine?_eq_some_iff.2 ⟨hbs, hm⟩)
    rw [hl]
    exact .line hr hrest.gives
termination_by bs.length
decreasing_by simp [*]; omega

theorem Holds.gives_iff (h : Holds m w s bs) {ts : List Text} : Gives m w s ts ↔ ts = Bytes.textLines bs := by
  constructor
  · exact fun hts => hts.unique h.gives
  · rintro rfl
    exact h.gives

theorem holds_script {path : Text} {w' : ω} (hm : m.Steady) (hfile : m.readFile w path = .ok (⟨bs, none⟩, w')) :
    ∃ s, script (m.openFile w path) path = .ok s ∧ Holds m w s bs := by
  unfold Machine.readFile at hfile
  cases ho : m.openFile w path with
  | error e => simp [ho, Except.map] at hfile
  | ok handle =>
    rw [ho] at hfile
    obtain ⟨hread, -⟩ := Prod.mk.inj (Except.ok.inj hfile)
    exact ⟨⟨[], some handle⟩, rfl, .opened hm [] hread⟩

end Source

/-! ## Both readers -/

/-- With room for all of its lines a history is loaded with the lines of the file. -/
theorem History.load_of_length_le {h : History} {bs : Bytes} (hcap : (Bytes.textLines bs).length ≤ h.cap) :
    h.load (.ok ⟨bs, none⟩) = (.ok (Bytes.textLines bs).length, ⟨.ofTexts (Bytes.textLines bs), h.cap⟩) := by
  have hload := h.load_ok bs
  dsimp only at hload
  rwa [rtake_of_length_le hcap] at hload

/-- A source gives the lines of the octets that it holds, all of them and no others, and a history with room for
them is loaded with the same lines from a file that holds these octets; a script in that file is such a source.
The lines are those of the text that the octets are read as, and no matter if each is decoded by itself. None holds
a newline, and joined by newlines they are a text again, up to one newline at its end. -/
theorem readers_agree (m : Machine ω) (bs : Bytes) :
    let lines := Text.lines (Utf8.decode bs)
    (∀ (w : ω) (s : Source), s.Holds m w bs → ∀ ts, s.Gives m w ts ↔ ts = lines) ∧
    (∀ (w w' : ω) (path : Text), m.readFile w path = .ok (⟨bs, none⟩, w') →
      (m.Steady → ∃ s, Source.script (m.openFile w path) path = .ok s ∧ s.Gives m w lines) ∧
      ∀ h : History, lines.length ≤ h.cap →
        h.load ((m.readFile w path).map (·.1)) = (.ok lines.length, ⟨.ofTexts lines, h.cap⟩)) ∧
    lines = (Bytes.lines bs).map Utf8.decode ∧ (∀ t ∈ lines, '\n' ∉ t) ∧
    ∀ t, Utf8.encode t = bs →
      Utf8.encode (['\n'].intercalate lines) ++ ending Bytes.newline bs = bs := by
  intro lines
  have hlines : Bytes.textLines bs = lines := Bytes.textLines_eq bs
  refine ⟨fun w s hs ts => ?_, fun w w' path hfile => ⟨fun hm => ?_, fun h hcap => ?_⟩, hlines.symm, ?_,
    fun t ht => ?_⟩
  · rw [← hlines]
    exact hs.gives_iff
  · obtain ⟨s, hscript, hs⟩ := Source.holds_script hm hfile
    exact ⟨s, hscript, hlines ▸ hs.gives⟩
  · rw [hfile, ← hlines]
    exact History.load_of_length_le (hlines ▸ hcap)
  · intro t ht
    exact Bytes.not_mem_textLines (hlines ▸ ht)
  · rw [← hlines]
    exact Bytes.encode_textLines ht

/-- Characters that break off at a newline and at the end, an octet that is none, and an empty line; and a text that
ends in two newlines. -/
theorem readers_agree_on_broken_characters :
    let m := Bench.machine
    let path := "/s".toList
    let bs : Bytes := [97, 0xE2, 0x82, 10, 0xFF, 10, 10, 0xC3]
    let b : Bench := Bench.plain.write path bs
    let lines := ["a\uFFFD".toList, "\uFFFD".toList, [], "\uFFFD".toList]
    m.Steady ∧ m.readFile b path = .ok (⟨bs, none⟩, b) ∧
      (∃ s, Source.script (m.openFile b path) path = .ok s ∧ s.Gives m b lines) ∧
      (Source.ofBytes bs).Gives m b lines ∧
      (History.empty 4).load ((m.readFile b path).map (·.1)) = (.ok 4, ⟨.ofTexts lines, 4⟩) ∧
      Utf8.encode (['\n'].intercalate ["é".toList, []]) ++ [Bytes.newline] = Utf8.encode "é\n\n".toList := by
  intro m path bs b lines
  have hfile : m.readFile b path = .ok (⟨bs, none⟩, b) := rfl
  have hlines : Text.lines (Utf8.decode bs) = lines := by decide +kernel
  obtain ⟨hgives, hread, -⟩ := readers_agree m bs
  obtain ⟨hscript, hload⟩ := hread b b path hfile
  rw [hlines] at hgives hscript hload
  obtain ⟨-, -, -, -, hjoin⟩ := readers_agree m (Utf8.encode "é\n\n".toList)
  have hjoined : Text.lines (Utf8.decode (Utf8.encode "é\n\n".toList)) = ["é".toList, []] := by
    decide +kernel
  have hending : ending Bytes.newline (Utf8.encode "é\n\n".toList) = [Bytes.newline] := by decide +kernel
  exact ⟨Bench.steady, hfile, hscript Bench.steady, (hgives b _ (.ahead bs) _).2 rfl,
    hload (.empty 4) (by decide), hending ▸ hjoined ▸ hjoin _ rfl⟩

end LineShell
