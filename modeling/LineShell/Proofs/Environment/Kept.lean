import LineShell.Proofs.Environment.OrderedMap

/-!
# The list that is kept for programs

* `Entry.handed?` : the pair that programs are given for an entry; `Environment.pairs_eq_filterMap`;
* `Environment.Coherent` : the kept list is that of the entries, unless it is to be made up again;
* `Environment.Call` : a variable is set or removed, or the list is asked for. Calls keep `Coherent`, and
  what they do to the entries does not depend on the kept list (`Call.vars_foldl_congr`).

`Environment.snapshot_ofCalls` : programs are always given what the entries say now.
-/

namespace LineShell

/-- What programs are given for an entry: what it binds, if that has a name. -/
def Entry.handed? (e : Entry) : Option (Text × Text) := e.binding?.filter (·.1 ≠ [])

theorem Entry.handed?_eq_some_iff {e : Entry} {name value : Text} :
    e.handed? = some (name, value) ↔ e.text = name ++ '=' :: value ∧ '=' ∉ name ∧ name ≠ [] := by
  rw [handed?, Option.filter_eq_some_iff, binding?_eq_some_iff, and_assoc]
  simp

namespace Environment

theorem pairs_eq_filterMap (env : Environment) :
    env.pairs = env.vars.entries.filterMap Entry.handed? := by
  rw [pairs_eq, Table.bindings, List.filter_filterMap]
  refine List.filterMap_congr fun e _ => ?_
  unfold Entry.handed?
  congr 1
  funext p
  cases p.1 <;> rfl

/-- The kept list is up to date, or known not to be. -/
def Coherent (env : Environment) : Prop := env.stale = false → env.kept = env.pairs

namespace Coherent

variable {env : Environment}

theorem of_stale (h : env.stale = true) : env.Coherent := fun hfresh => by simp [h] at hfresh

theorem snapshot (h : env.Coherent) : env.snapshot = env.pairs := by
  unfold Environment.snapshot Environment.refresh
  cases hs : env.stale with
  | false => exact h hs
  | true => rfl

theorem unset (h : env.Coherent) (name : Text) : (env.unset name).Coherent := by
  rw [unset_eq_ite]
  split
  · exact of_stale rfl
  · exact h

theorem refresh (h : env.Coherent) : env.refresh.Coherent := by
  unfold Environment.refresh
  split
  · exact fun _ => rfl
  · exact h

end Coherent

theorem stale_ofInherited (ps : List (Bytes × Bytes)) : (ofInherited ps).stale = true := by
  have hfold : ∀ (ts : List Text) (env : Environment), env.stale = true →
      (ts.foldl (fun env t => { env with vars := env.vars.push 0 t }) env).stale = true := by
    intro ts
    induction ts with
    | nil => exact fun _ h => h
    | cons t ts ih => exact fun _ h => ih _ h
  exact hfold _ empty rfl

/-- Removing changes no entry exactly if none has the name. -/
theorem entries_unset_eq_iff (env : Environment) (name : Text) :
    (env.unset name).vars.entries = env.vars.entries ↔ env.has name = false := by
  rw [unset_eq_ite]
  cases hh : env.has name with
  | false => simp
  | true =>
    refine iff_of_false (fun hsame => ?_) (by simp)
    obtain ⟨e, he, hname⟩ := List.any_eq_true.1 hh
    have hkept := List.filter_eq_self.1 hsame e he
    simp [hname] at hkept

/-! ## Calls -/

/-- A change, or the list that programs are given. -/
inductive Call where
  | change (c : Change)
  | snapshot
  deriving DecidableEq, Repr

namespace Call

def act (env : Environment) : Call → Environment
  | change c => c.act env
  | snapshot => env.refresh

theorem coherent_act {env : Environment} (h : env.Coherent) (call : Call) : (call.act env).Coherent := by
  cases call with
  | change c =>
    cases c with
    | set name value => exact .of_stale rfl
    | unset name => exact h.unset name
  | snapshot => exact h.refresh

theorem coherent_foldl {env : Environment} (h : env.Coherent) (calls : List Call) :
    (calls.foldl act env).Coherent := by
  induction calls generalizing env with
  | nil => exact h
  | cons call calls ih => exact ih (coherent_act h call)

theorem vars_act_congr {env env' : Environment} (h : env.vars = env'.vars) (call : Call) :
    (call.act env).vars = (call.act env').vars := by
  cases call with
  | change c =>
    cases c with
    | set name value =>
      show (env.set name value).vars = (env'.set name value).vars
      unfold Environment.set
      rw [h]
    | unset name =>
      show (env.unset name).vars = (env'.unset name).vars
      rw [unset_eq_ite, unset_eq_ite, has, has, h]
      split
      · rfl
      · exact h
  | snapshot => rwa [act, act, vars_refresh, vars_refresh]

theorem vars_foldl_congr {env env' : Environment} (h : env.vars = env'.vars) (calls : List Call) :
    (calls.foldl act env).vars = (calls.foldl act env').vars := by
  induction calls generalizing env env' with
  | nil => exact h
  | cons call calls ih => exact ih (vars_act_congr h call)

end Call

/-- Whatever is done to new or inherited variables, programs are given what the entries say, and a list
that is kept and not stale says the same. What changes no entry, such as asking for the list or removing a
name that is not there, makes no difference to any later list. -/
theorem snapshot_ofCalls (start : Environment) (hstart : start = empty ∨ ∃ ps, start = ofInherited ps)
    (calls : List Call) :
    let env := calls.foldl Call.act start
    let now := env.vars.entries.filterMap Entry.handed?
    env.snapshot = now ∧ (env.stale = false → env.kept = now) ∧
    (∀ (e : Entry) name value, e.handed? = some (name, value) ↔
      e.text = name ++ '=' :: value ∧ '=' ∉ name ∧ name ≠ []) ∧
    (Call.snapshot.act env).vars.entries = env.vars.entries ∧
    (∀ name, (env.unset name).vars.entries = env.vars.entries ↔ env.has name = false) ∧
    ∀ call : Call, (call.act env).vars.entries = env.vars.entries → ∀ later : List Call,
      (later.foldl Call.act (call.act env)).snapshot = (later.foldl Call.act env).snapshot := by
  intro env now
  have hcoherent : env.Coherent := by
    refine Call.coherent_foldl ?_ calls
    obtain rfl | ⟨ps, rfl⟩ := hstart
    · exact .of_stale rfl
    · exact .of_stale (stale_ofInherited ps)
  have hnow : env.pairs = now := pairs_eq_filterMap env
  refine ⟨hcoherent.snapshot.trans hnow, fun hfresh => (hcoherent hfresh).trans hnow,
    fun _ _ _ => Entry.handed?_eq_some_iff, congrArg Table.entries (vars_refresh env),
    entries_unset_eq_iff env, fun call hsame later => ?_⟩
  have hvars : (call.act env).vars = env.vars := congrArg Table.mk hsame
  rw [(Call.coherent_foldl (Call.coherent_act hcoherent call) later).snapshot,
    (Call.coherent_foldl hcoherent later).snapshot, pairs_eq_filterMap, pairs_eq_filterMap,
    Call.vars_foldl_congr hvars later]

/-- Inherited variables, one without a name, and one whose name holds a `=`; the list is asked for, made
stale and asked for again. -/
theorem snapshot_ofCalls_inherited :
    let strings := ["A=1".toList, "=C=d".toList].map Utf8.encode
    let start := ofInherited (strings.filterMap splitInherited)
    let calls : List Call := [.snapshot, .change (.set "A".toList "2=3".toList),
      .change (.set "B=".toList "x".toList), .snapshot, .change (.unset "C".toList)]
    let env := calls.foldl Call.act start
    (start = empty ∨ ∃ ps, start = ofInherited ps) ∧ env.stale = false ∧
      env.vars.texts = ["A=2=3".toList, "=C=d".toList, "B==x".toList] ∧
      env.snapshot = [("A".toList, "2=3".toList), ("B".toList, "=x".toList)] := by
  intro strings start calls env
  have hstart : start = empty ∨ ∃ ps, start = ofInherited ps := .inr ⟨_, rfl⟩
  obtain ⟨hsnapshot, -⟩ := snapshot_ofCalls start hstart calls
  exact ⟨hstart, by decide +kernel, by decide +kernel, hsnapshot.trans (by decide +kernel)⟩

end Environment

end LineShell
