import LineShell.Script.System

/-!
# Processes in turn

One process goes on at a time. It goes on until it has ended, waits for something, starts another one
or has had its turn; what it does from there on is a function of the system as others have left it.

* `Task` : a process from some point on;
* `Waiting`, `Waiting.isReady` : a process that is not going on, and what it waits for;
* `Task.advance` : lets processes go on in turn until something is the case;
* `Task.settle` : lets processes go on that nobody waits for.
-/

namespace LineShell.Script

/-- What a process does up to where another one may go on. -/
inductive Task where
  | ended (s : System)
  /-- It goes on when something is the case. -/
  | paused (s : System) (isReady : System → Bool) (rest : System → Task)
  /-- It has started another process, and goes on. -/
  | forked (s : System) (child rest : System → Task)

/-- A process that does not go on yet. -/
structure Waiting where
  /-- Whether it can go on. -/
  isReady : System → Bool
  rest : System → Task

/-- A process that waits for nothing but its turn. -/
def Waiting.idle (rest : System → Task) : Waiting := ⟨fun _ => true, rest⟩

namespace Task

/-- Lets processes go on in turn until something is the case, or none of them can go on. Of two that
can, the first one in the list has its turn first; one that has just started has it last. -/
def advance (isOver : System → Bool) : Nat → System → List Waiting → System × List Waiting
  | 0, s, ws => (s, ws)
  | n + 1, s, ws =>
    if isOver s then (s, ws)
    else match ws.span fun w => !w.isReady s with
      | (_, []) => (s, ws)
      | (before, w :: after) =>
        let others := before ++ after
        match w.rest s with
        | .ended s => advance isOver n s others
        | .paused s isReady rest => advance isOver n s (others ++ [⟨isReady, rest⟩])
        | .forked s child rest =>
          advance isOver n s (.idle rest :: others ++ [.idle child])

/-- How many turns processes may have that somebody waits for. -/
def maxTurns : Nat := 1000000000000

/-- How many turns processes have that nobody waits for. -/
def spareTurns : Nat := 200

/-- Lets processes go on for some more turns. -/
def settle (s : System) (ws : List Waiting) : System × List Waiting :=
  advance (fun _ => false) spareTurns s ws

end Task

end LineShell.Script
