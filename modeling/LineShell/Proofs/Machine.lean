import LineShell.Machine

/-!
# What is read, and a small machine

* `Machine.contents?` : what can be read at a path; `Machine.Rereads` : that what is written is what is read, for
  one write;
* `Bench` : a few files, directories and programs, and the working directory;
* `Bench.machine` : the machine with these states; `Bench.rereads` : it reads whatever is written;
* `Bench.plain` : a state to start from.
-/

namespace LineShell

namespace Machine

variable {ω : Type} {m : Machine ω} {w w' : ω} {path : Text} {bs : Bytes}

/-- What can be read at a path, from the beginning to the end. -/
def contents? (m : Machine ω) (w : ω) (path : Text) : Option Bytes :=
  match m.readFile w path with
  | .ok (⟨bs, none⟩, _) => some bs
  | _ => none

/-- If these octets can be written to `path` in the state `w`, they are what is read there from then on. -/
def Rereads (m : Machine ω) (path : Text) (w : ω) (bs : Bytes) : Prop :=
  ∀ w', m.writeFile w path bs = .ok w' → m.contents? w' path = some bs

theorem contents?_of_readFile (h : m.readFile w path = .ok (⟨bs, none⟩, w')) :
    m.contents? w path = some bs := by
  unfold contents?
  rw [h]

theorem contents?_of_missing {e : SysError} (h : m.readFile w path = .error e) : m.contents? w path = none := by
  unfold contents?
  rw [h]

theorem exists_readFile_of_contents? (h : m.contents? w path = some bs) :
    ∃ w', m.readFile w path = .ok (⟨bs, none⟩, w') := by
  unfold contents? at h
  split at h
  · next w' hr =>
    obtain rfl := Option.some.inj h
    exact ⟨w', hr⟩
  · cases h

end Machine

/-- A few files by their paths, directories, programs with the codes they end with, and the working
directory; none if that has been removed. -/
structure Bench where
  files : List (Text × Bytes)
  directories : List Text
  programs : List (Text × Nat)
  here : Option Text
  deriving DecidableEq, Repr

namespace Bench

def readable (b : Bench) : Handle → ByteStream
  | .input => ⟨[], none⟩
  | .file id offset => ⟨((b.files[id]?.map (·.2)).getD []).drop offset, none⟩

def write (b : Bench) (path : Text) (bs : Bytes) : Bench :=
  { b with files := (path, bs) :: b.files.filter (·.1 ≠ path) }

/-- The working directory can always be entered again, also when it has been removed. -/
def enter (b : Bench) (path : Text) : Except SysError Bench :=
  if path = ".".toList then .ok b
  else if path ∈ b.directories then .ok { b with here := some path }
  else .error .notFound

def launch (b : Bench) (l : Launch) : Except SysError (ChildReport × Bench) :=
  match b.programs.find? (·.1 = l.path) with
  | some (_, code) => .ok (⟨[], .exited code⟩, b)
  | none => .error .notFound

/-- The machine whose states these are. -/
def machine : Machine Bench where
  pid := 4711
  isFile b path := b.files.any (·.1 = path) || b.programs.any (·.1 = path)
  openFile b path :=
    match b.files.findIdx? (·.1 = path) with
    | some id => .ok (.file id 0)
    | none => .error .notFound
  readable := readable
  advance b handle n :=
    match handle with
    | .input => (.input, b)
    | .file id offset => (.file id (offset + n), b)
  writeFile b path bs := .ok (b.write path bs)
  enter := enter
  workingDirectory b :=
    match b.here with
    | some path => .ok path
    | none => .error .notFound
  launch := launch
  killer? _ := none

/-- What the first file at a path holds. -/
def content (b : Bench) (path : Text) : Option Bytes := (b.files.find? (·.1 = path)).map (·.2)

theorem readFile_eq (b : Bench) (path : Text) :
    machine.readFile b path =
      match b.content path with
      | some bs => .ok (⟨bs, none⟩, b)
      | none => .error .notFound := by
  unfold Machine.readFile content
  dsimp only [machine]
  cases hi : b.files.findIdx? (·.1 = path) with
  | none =>
    have hf : b.files.find? (·.1 = path) = none := by
      refine List.find?_eq_none.2 fun f hf => ?_
      simpa using List.findIdx?_eq_none_iff.1 hi f hf
    rw [hf]
    rfl
  | some i =>
    obtain ⟨hlt, hpath, hfirst⟩ := List.findIdx?_eq_some_iff_getElem.1 hi
    have hf : b.files.find? (·.1 = path) = some b.files[i] :=
      List.find?_eq_some_iff_getElem.2 ⟨hpath, i, hlt, rfl, fun j hj => by simpa using hfirst j hj⟩
    have hr : b.readable (.file i 0) = ⟨b.files[i].2, none⟩ := by
      simp [readable, List.getElem?_eq_getElem hlt]
    rw [hf]
    show Except.ok (b.readable (.file i 0), b) = _
    rw [hr]
    rfl

/-- Whatever is written is read. -/
theorem rereads (b : Bench) (path : Text) (bs : Bytes) : machine.Rereads path b bs := by
  intro b' h
  obtain rfl : b.write path bs = b' := by simpa [machine] using h
  have hread : machine.readFile (b.write path bs) path = .ok (⟨bs, none⟩, b.write path bs) := by
    rw [readFile_eq, show (b.write path bs).content path = some bs by simp [content, write]]
  exact Machine.contents?_of_readFile hread

/-- A root directory without files, `true` and `false`. -/
def plain : Bench where
  files := []
  directories := ["/".toList]
  programs := [("/bin/true".toList, 0), ("/bin/false".toList, 1)]
  here := some "/".toList

end Bench

end LineShell
