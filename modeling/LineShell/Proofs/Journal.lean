import LineShell.Journal

/-!
# What a journal tells of

A journal is read by picking out the events of one kind; output never counts among them.

* `Journal.commands` : the segments that were run and the words that they were run as;
* `Journal.readings`, `Journal.raws` : what was read, and which of it were lines.
-/

namespace LineShell

/-- The segment that an event tells of, and its words. -/
def Event.command? : Event → Option (Text × List Text)
  | .ran segment words => some (segment, words)
  | _ => none

/-- What was read, or that nothing more could be. -/
def Event.reading? : Event → Option Reading
  | .read reading => some reading
  | _ => none

/-- The line that an event tells of. -/
def Event.raw? : Event → Option Text
  | .read (.line raw) => some raw
  | _ => none

namespace Journal

/-- The events that a view `pick` sees, first one first. -/
def view {α : Type} (pick : Event → Option α) (j : Journal) : List α := j.log.filterMap pick

def commands (j : Journal) : List (Text × List Text) := j.view Event.command?

def readings (j : Journal) : List Reading := j.view Event.reading?

def raws (j : Journal) : List Text := j.view Event.raw?

/-- What a child wrote comes behind everything that was held back. -/
theorem relay_flush (j : Journal) (written : List (Stream × Bytes)) :
    (j.relay written).log = j.flush.log ++ written.map (fun p => .wrote ⟨.child p.1, p.2⟩) ∧
      (j.relay written).held = [] := by
  have h : ∀ j : Journal, j.held = [] →
      (written.foldl (fun j (p : Stream × Bytes) => j.note (.wrote ⟨.child p.1, p.2⟩)) j).log =
        j.log ++ written.map (fun p => .wrote ⟨.child p.1, p.2⟩) ∧
      (written.foldl (fun j (p : Stream × Bytes) => j.note (.wrote ⟨.child p.1, p.2⟩)) j).held = [] := by
    induction written with
    | nil => exact fun j hj => ⟨(List.append_nil _).symm, hj⟩
    | cons p rest ih =>
      intro j hj
      obtain ⟨hlog, hheld⟩ := ih (j.note (.wrote ⟨.child p.1, p.2⟩)) hj
      refine ⟨?_, hheld⟩
      rw [List.foldl_cons, hlog, log_note, List.append_assoc]
      rfl
  exact h j.flush rfl

section View

variable {α : Type} {pick : Event → Option α}

theorem view_note (j : Journal) (e : Event) : (j.note e).view pick = j.view pick ++ (pick e).toList := by
  unfold view
  rw [log_note, List.filterMap_append]
  cases h : pick e <;> simp [h]

/-- A view that does not see output. -/
theorem view_flush (hp : ∀ c, pick (.wrote c) = none) (j : Journal) : j.flush.view pick = j.view pick := by
  have hheld : (j.held.reverse.map Event.wrote).filterMap pick = [] := by
    rw [List.filterMap_eq_nil_iff]
    intro e he
    obtain ⟨c, -, rfl⟩ := List.mem_map.1 he
    exact hp c
  unfold view
  rw [log_flush, List.filterMap_append, hheld, List.append_nil]

theorem view_scope (hp : ∀ c, pick (.wrote c) = none) (j : Journal) (o : Origin) (bs : Bytes) :
    (j.scope o bs).view pick = j.view pick := by
  unfold scope
  rw [view_flush hp]
  rfl

theorem view_report (hp : ∀ c, pick (.wrote c) = none) (j : Journal) (message : Text) :
    (j.report message).view pick = j.view pick := by
  unfold report
  rw [view_note, hp, view_flush hp]
  simp

/-- A view that does not see what children write. -/
theorem view_relay_flush (hp : ∀ s bs, pick (.wrote ⟨.child s, bs⟩) = none) (j : Journal)
    (written : List (Stream × Bytes)) : (j.relay written).view pick = j.flush.view pick := by
  have hwritten : (written.map fun p => Event.wrote ⟨.child p.1, p.2⟩).filterMap pick = [] := by
    rw [List.filterMap_map]
    exact List.filterMap_eq_nil_iff.2 fun _ _ => hp _ _
  unfold view
  rw [(relay_flush j written).1, List.filterMap_append, hwritten, List.append_nil]

theorem view_relay (hp : ∀ c, pick (.wrote c) = none) (j : Journal) (written : List (Stream × Bytes)) :
    (j.relay written).view pick = j.view pick :=
  (view_relay_flush (fun _ _ => hp _) j written).trans (view_flush hp j)

end View

end Journal

end LineShell
