import LineShell.Proofs.Journal
import LineShell.Shell

/-!
# What each step tells the journal

`pick` is a view that does not see output.

* `view_execute` : running a segment adds that it was run, as its words; `view_drain` : a line adds nothing
  but such events;
* `view_receive`, `view_endInput` : reading adds what was read;
* `view_ask`, `view_close` : asking adds nothing, closing adds what was saved and the end.
-/

namespace LineShell.Shell

variable {ω α : Type} {pick : Event → Option α}

theorem view_settle (hp : ∀ c, pick (.wrote c) = none) (name : Text) (result : Except Fault Status)
    (sh : Shell ω) : (sh.settle name result).journal.view pick = sh.journal.view pick := by
  cases result with
  | ok status => rfl
  | error fault => exact Journal.view_report hp ..

theorem view_command (hp : ∀ c, pick (.wrote c) = none) (m : Machine ω) (name : Text)
    (argv : List Text) (sh : Shell ω) :
    (sh.command m name argv).journal.view pick = sh.journal.view pick := by
  unfold command
  simp only [view_settle hp]
  cases Builtin.named? name with
  | some b => exact Journal.view_scope hp ..
  | none =>
    simp only [runProgram]
    split
    · rfl
    · exact Journal.view_relay hp ..

/-- A segment that is run is told of once, with its words. -/
theorem view_execute (hp : ∀ c, pick (.wrote c) = none) (m : Machine ω) (segment : Text)
    (sh : Shell ω) :
    (execute m segment sh).journal.view pick =
      sh.journal.view pick ++ (pick (.ran segment (sh.session.wordsOf m.pid segment))).toList := by
  unfold execute
  dsimp only
  cases sh.session.wordsOf m.pid segment with
  | nil => exact Journal.view_note ..
  | cons name args => exact (view_command hp ..).trans (Journal.view_note ..)

/-- What is seen apart from segments does not change on the way through a line. -/
theorem view_drain (hp : ∀ c, pick (.wrote c) = none) (hr : ∀ segment words, pick (.ran segment words) = none)
    (isOver : Shell ω → Bool) (m : Machine ω) (fuel : Nat) (sh : Shell ω) :
    (drain isOver m fuel sh).journal.view pick = sh.journal.view pick := by
  induction fuel generalizing sh with
  | zero => rfl
  | succ fuel ih =>
    rw [drain]
    split
    · rfl
    · split
      · rfl
      · rw [ih, view_execute hp, hr]
        exact List.append_nil _

theorem view_ask (hp : ∀ c, pick (.wrote c) = none) (sh : Shell ω) :
    sh.ask.journal.view pick = sh.journal.view pick := by
  unfold ask
  dsimp only
  split
  · exact Journal.view_scope hp ..
  · exact Journal.view_flush hp ..

theorem view_receive (raw : Text) (sh : Shell ω) :
    (sh.receive raw).journal.view pick = sh.journal.view pick ++ (pick (.read (.line raw))).toList :=
  Journal.view_note ..

/-- The reading that ends an input. -/
def lastReading : Option SysError → Reading
  | none => .ended
  | some e => .failed e

theorem view_endInput (hp : ∀ c, pick (.wrote c) = none) (failure : Option SysError) (sh : Shell ω) :
    (sh.endInput failure).journal.view pick =
      sh.journal.view pick ++ (pick (.read (lastReading failure))).toList := by
  cases failure with
  | none =>
    unfold endInput
    dsimp only
    split
    · exact (Journal.view_scope hp ..).trans (Journal.view_note ..)
    · exact Journal.view_note ..
  | some e => exact (Journal.view_report hp ..).trans (Journal.view_note ..)

theorem view_close (hp : ∀ c, pick (.wrote c) = none) (hs : ∀ path bytes, pick (.saved path bytes) = none)
    (hc : pick .closed = none) (m : Machine ω) (sh : Shell ω) :
    (sh.close m).journal.view pick = sh.journal.view pick := by
  unfold close
  dsimp only
  rw [Journal.view_note, hc, Journal.view_flush hp, Option.toList_none, List.append_nil]
  split
  · rw [Journal.view_note, hs, Option.toList_none, List.append_nil]
  · rfl

end LineShell.Shell
