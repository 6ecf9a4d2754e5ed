import LineShell.Script.Eval

/-!
# Leaving

The commands that leave the process, a function or a loop.
-/

namespace LineShell.Script.Intrinsic

open Eval

/-- `exit [N]`, where what is done at a signal or at the end does not count for the status. -/
def exit (args : List Text) : Eval Unit := do
  match args, (← get).statusBefore with
  | t :: _, _ => setStatus ((← number t) % 256)
  | [], some n => setStatus n
  | [], none => pure ()
  throw .exit

/-- `return [N]` -/
def giveUp (args : List Text) : Eval Unit := do
  if let t :: _ := args then setStatus (← number t)
  throw (.return !args.isEmpty)

/-- `break [N]` and `continue [N]` -/
def leave (goesOn : Bool) (args : List Text) : Eval Unit := do
  let n ← match args with
    | t :: _ => do
      let n ← number t
      if n = 0 then failNumber t
      pure n
    | [] => pure 1
  let n := min n (← get).loops
  setStatus 0
  if 0 < n then throw (.leave n goesOn)

end LineShell.Script.Intrinsic
