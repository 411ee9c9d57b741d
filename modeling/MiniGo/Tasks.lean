import MiniGo.Run
/-!
Cooperative scheduling. A task runs until it waits; whenever the computation in front waits, every
task whose own wait is over runs on for a while.
-/

namespace MiniGo

structure Task (β : Type) where
  id : Nat
  wait : Wait
  resume : World → Outcome β

structure Tasks (β : Type) where
  waiting : List (Task β) := []
  finished : List (Nat × Except RuntimeError β) := []
  /-- Number of tasks so far. -/
  count : Nat := 0

inductive Scheduled (α β : Type)
  | finished (result : Except RuntimeError α) (world : World) (tasks : Tasks β)
  /-- Nobody can go on. -/
  | stuck (world : World) (tasks : Tasks β)
  | broken (reason : Broken)

namespace Tasks

variable {α β : Type}

def add (tasks : Tasks β) (run : Run β) : Tasks β :=
  { tasks with
    waiting := tasks.waiting ++ [⟨tasks.count, .turn, run⟩], count := tasks.count + 1 }

def enlist (start : Spawn → Run β) (tasks : Tasks β) (world : World) : Tasks β × World :=
  (world.pending.foldl (fun tasks spawn => tasks.add (start spawn)) tasks,
    { world with pending := [] })

structure Turn (β : Type) where
  world : World
  waiting : List (Task β) := []
  finished : List (Nat × Except RuntimeError β) := []
  /-- Some task went on. -/
  progress : Bool := false

/-- Gives each task its turn, unless one of them is broken off. -/
def runAll (world : World) : List (Task β) → Except Broken (Turn β)
  | [] => .ok { world }
  | task :: rest =>
    if task.wait.isOver world.exchange then
      match task.resume world with
      | .done value world =>
        (runAll world rest).map fun turn =>
          { turn with progress := true, finished := (task.id, .ok value) :: turn.finished }
      | .fail error world =>
        (runAll world rest).map fun turn =>
          { turn with progress := true, finished := (task.id, .error error) :: turn.finished }
      | .await wait world resume =>
        (runAll world rest).map fun turn =>
          { turn with progress := true, waiting := ⟨task.id, wait, resume⟩ :: turn.waiting }
      | .broken reason => .error reason
    else
      (runAll world rest).map fun turn => { turn with waiting := task :: turn.waiting }

/-- One turn for each task, including those started meanwhile. -/
def turn (start : Spawn → Run β) (tasks : Tasks β) (world : World) :
    Except Broken (Tasks β × World × Bool) :=
  let (tasks, world) := tasks.enlist start world
  (runAll world tasks.waiting).map fun turn =>
    let (tasks, world) :=
      { tasks with waiting := turn.waiting, finished := tasks.finished ++ turn.finished }.enlist start
        turn.world
    (tasks, world, turn.progress)

/-- Runs a computation to its end, and the tasks whenever it waits. -/
def drive (start : Spawn → Run β) : Nat → Tasks β → Outcome α → Scheduled α β
  | _, tasks, .done value world => .finished (.ok value) world tasks
  | _, tasks, .fail error world => .finished (.error error) world tasks
  | _, _, .broken reason => .broken reason
  | 0, _, .await .. => .broken .exhausted
  | fuel + 1, tasks, .await wait world resume =>
    match tasks.turn start world with
    | .error reason => .broken reason
    | .ok (tasks, world, progress) =>
      if wait.isOver world.exchange then drive start fuel tasks (resume world)
      else if progress then drive start fuel tasks (.await wait world resume)
      else .stuck world tasks

def join (start : Spawn → Run β) (goal : Tasks β → Bool) : Nat → Tasks β → World → Scheduled Unit β
  | 0, _, _ => .broken .exhausted
  | fuel + 1, tasks, world =>
    let (tasks, world) := tasks.enlist start world
    if goal tasks then .finished (.ok ()) world tasks
    else
      match tasks.turn start world with
      | .error reason => .broken reason
      | .ok (tasks, world, true) => join start goal fuel tasks world
      | .ok (tasks, world, false) => .stuck world tasks

def isIdle (tasks : Tasks β) : Bool := tasks.waiting.isEmpty

def result? (tasks : Tasks β) (id : Nat) : Option (Except RuntimeError β) :=
  tasks.finished.lookup id

end Tasks

end MiniGo
