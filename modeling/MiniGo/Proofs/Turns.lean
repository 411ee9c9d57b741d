import MiniGo.Proofs.Joining
import MiniGo.Proofs.Reuse
/-!
The tasks of an interpreter and what is counted of them. Between two waits a computation starts tasks
and leaves the failures alone; a task that fails counts itself. So each task that was ever started is
waiting, or has left its result, exactly once, and the failures counted are those among the results.

Together with the runs of `Runner`, where parties interleave between any two steps, this gives the main
statement: whoever has waited for all tasks finds that they have ended, and each failure counted once.
-/

namespace MiniGo

variable {α β : Type}

namespace World

def ledger (world : World) : Nat × Nat × List Spawn := (world.spawned, world.failed, world.pending)

variable {world : World}

theorem ledger_dropWithin (ref : EnvRef) (depth : Nat) :
    (dropWithin ref world depth).ledger = world.ledger := by
  induction depth generalizing world ref with
  | zero => rfl
  | succ depth ih =>
    unfold dropWithin
    cases world.env? ref with
    | none => rfl
    | some env =>
      dsimp only
      cases env.outer with
      | none => rfl
      | some outer =>
        dsimp only
        split
        · exact ih outer
        · rfl

theorem ledger_recycle (thread : ThreadRef) (ref : EnvRef) :
    (world.recycle thread ref).ledger = world.ledger := by
  unfold recycle
  cases world.env? ref with
  | none => rfl
  | some env =>
    refine (ledger_dropWithin ref _).trans ?_
    split <;> rfl

theorem ledger_releaseTo (ref outer : EnvRef) : (world.releaseTo ref outer).ledger = world.ledger :=
  ledger_recycle _ _

theorem ledger_leave (ref : EnvRef) (hops : Nat) : (world.leave ref hops).2.ledger = world.ledger := by
  induction hops generalizing world ref with
  | zero => rfl
  | succ hops ih =>
    unfold leave
    cases world.outer? ref with
    | none => rfl
    | some outer => exact (ih outer).trans (ledger_releaseTo ref outer)

theorem ledger_unwindWithin (root ref : EnvRef) (depth : Nat) :
    (unwindWithin root ref world depth).2.ledger = world.ledger := by
  induction depth generalizing world ref with
  | zero => rfl
  | succ depth ih =>
    unfold unwindWithin
    split
    · rfl
    · cases world.outer? ref with
      | none => rfl
      | some outer => exact (ih outer).trans (ledger_releaseTo ref outer)

theorem ledger_acquire (thread : ThreadRef) (outer : Option EnvRef) (program : Program)
    (ip objects words : Nat) :
    (world.acquire thread outer program ip objects words).2.ledger = world.ledger := by
  cases outer <;> rfl

theorem ledger_push (ref : EnvRef) (objects words : Nat) :
    (world.push ref objects words).2.ledger = world.ledger := by
  unfold push
  cases world.env? ref with
  | none => rfl
  | some env => exact ledger_acquire _ _ _ _ _ _

theorem ledger_pop (ref : EnvRef) : (world.pop ref).2.ledger = world.ledger := by
  unfold pop
  cases world.outer? ref with
  | none => rfl
  | some outer => exact ledger_releaseTo ref outer

theorem ledger_write (text : String) : (world.write text).ledger = world.ledger := by
  unfold write
  split <;> rfl

def Starts (before after : World) : Prop :=
  ∃ more, after.ledger =
    (before.spawned + more.length, before.failed, before.pending ++ more)

theorem Starts.refl (world : World) : world.Starts world := ⟨[], by simp [ledger]⟩

theorem Starts.trans {first second third : World} (starts : first.Starts second)
    (further : second.Starts third) : first.Starts third := by
  obtain ⟨more, same⟩ := starts
  obtain ⟨rest, again⟩ := further
  simp only [ledger, Prod.mk.injEq] at same again
  obtain ⟨spawned, failed, pending⟩ := same
  refine ⟨more ++ rest, ?_⟩
  simp only [ledger, again, spawned, failed, pending, List.length_append, List.append_assoc,
    Nat.add_assoc]

theorem Starts.same {first second third : World} (starts : first.Starts second)
    (same : third.ledger = second.ledger) : first.Starts third :=
  starts.imp fun _ eq => same.trans eq

theorem Starts.spawn {first second : World} (starts : first.Starts second) (spawn : Spawn) :
    first.Starts
      { second with spawned := second.spawned + 1, pending := second.pending ++ [spawn] } :=
  starts.trans ⟨[spawn], rfl⟩

end World

/-- One run, known not to touch what is counted of tasks other than by starting some. -/
def Comparison.starting : Comparison where
  State := World
  goes before after := after = before
  waits _ _ := True
  holds start left right := left = right ∧ start.Starts left
  refl _ := rfl
  trans first second := second.trans first

namespace Comparison

theorem starting_reads (view : World → α) : starting.Reads view := by
  rintro _ left _ ⟨rfl, -⟩
  rfl

theorem starting_keeps {change : World → World} (same : ∀ world, (change world).ledger = world.ledger) :
    starting.Keeps change := by
  rintro start left _ ⟨rfl, starts⟩
  exact ⟨rfl, starts.same (same left)⟩

end Comparison

open Comparison in
def Lockstep.starting : Lockstep where
  toComparison := .starting
  poised _ _ := True
  poised_goes _ _ := trivial
  poised_waits _ _ := trivial
  heap := starting_reads _
  exchange := starting_reads _
  up _ _ := starting_reads _
  load _ _ := starting_reads _
  threadOf _ := starting_reads _
  setHeap _ := starting_keeps fun _ => rfl
  setExchange _ := starting_keeps fun _ => rfl
  write text := starting_keeps fun _ => World.ledger_write text
  store _ _ _ := starting_keeps fun _ => rfl
  retain _ := starting_keeps fun _ => rfl
  drop env := starting_keeps fun _ => World.ledger_dropWithin env _
  recycle thread env := starting_keeps fun _ => World.ledger_recycle thread env
  leave env hops := ⟨starting_reads _, starting_keeps fun _ => World.ledger_leave env hops⟩
  unwind root env := ⟨starting_reads _, starting_keeps fun _ => World.ledger_unwindWithin root env _⟩
  thread _ _ _ := starting_reads _
  updateThread _ _ _ := starting_keeps fun _ => rfl
  spawnThread _ := ⟨starting_reads _, starting_keeps fun _ => rfl⟩
  spawn spawn := by
    rintro start left _ ⟨rfl, starts⟩
    exact ⟨rfl, starts.spawn spawn⟩
  ip := by
    rintro start left _ env ⟨rfl, -⟩ -
    exact ⟨rfl, rfl⟩
  setIp := by
    rintro start left _ env position ⟨rfl, starts⟩
    exact ⟨start, rfl, ⟨rfl, starts⟩, trivial⟩
  acquire := by
    rintro start left _ thread outer program ip objects words ⟨rfl, starts⟩
    have same := @World.ledger_acquire left thread outer program ip objects words
    exact ⟨rfl, start, rfl, ⟨rfl, starts.same same⟩, trivial⟩
  push := by
    rintro start left _ env objects words ⟨rfl, starts⟩ -
    have same := @World.ledger_push left env objects words
    exact ⟨rfl, start, rfl, ⟨rfl, starts.same same⟩, trivial⟩
  pop := by
    rintro start left _ env ⟨rfl, starts⟩ -
    exact ⟨rfl, start, rfl, ⟨rfl, starts.same (@World.ledger_pop left env)⟩, trivial⟩

/-- An outcome that has started tasks since `start` and counted no failure. Where it waits, others may
change anything. -/
def Outcome.Starts (start : World) : Outcome α → Prop
  | .done _ world | .fail _ world => start.Starts world
  | .await _ world resume => start.Starts world ∧ ∀ later, (resume later).Starts later
  | .broken reason => reason = .exhausted

def Run.Starts (run : Run α) : Prop := ∀ world, (run world).Starts world

def Caller.Starts (call : Caller) : Prop := ∀ thread invocation, (call thread invocation).Starts

/-- A function of the host that leaves it to the calls it makes to start tasks. -/
def HostFunction.Starts (function : HostFunction) : Prop :=
  ∀ call : Caller, call.Starts → ∀ thread args, (function call thread args).Starts

theorem Outcome.Starts.of_agree {outcome other : Outcome α} {start : Comparison.starting.State}
    (agree : outcome.Agree .starting (fun _ result found => result = found) start other) :
    outcome.Starts start := by
  induction agree with
  | done goes holds | fail goes holds =>
    cases goes
    exact holds.2
  | await goes holds _ ih =>
    cases goes
    exact ⟨holds.2, fun later => ih later later later trivial ⟨rfl, .refl later⟩⟩
  | early may | late may => cases may
  | exhausted => rfl

theorem Outcome.Starts.agree {outcome : Outcome α} {start now : World} (starts : outcome.Starts now)
    (before : start.Starts now) :
    outcome.Agree .starting (fun _ result found => result = found) start outcome := by
  induction outcome generalizing start now with
  | done value world => exact .done rfl ⟨rfl, before.trans starts⟩ rfl
  | fail error world => exact .fail rfl ⟨rfl, before.trans starts⟩ rfl
  | await wait world resume ih =>
    refine .await rfl ⟨rfl, before.trans starts.1⟩ ?_
    rintro later left _ - ⟨rfl, meanwhile⟩
    exact ih left (starts.2 left) meanwhile
  | broken reason =>
    cases starts
    exact .exhausted

namespace Run.Starts

variable {run : Run α}

theorem of_alike (alike : Comparison.starting.Alike run run) : run.Starts :=
  fun world => .of_agree (alike world world world ⟨rfl, .refl world⟩)

theorem alike (starts : run.Starts) : Comparison.starting.Alike run run := by
  rintro start left _ ⟨rfl, before⟩
  exact (starts left).agree before

theorem bind {next : α → Run β} (starts : run.Starts) (goes : ∀ value, (next value).Starts) :
    (run >>= next).Starts :=
  .of_alike (starts.alike.bind fun value => (goes value).alike)

theorem attempt (starts : run.Starts) : (Run.attempt run).Starts := .of_alike starts.alike.attempt

theorem pure (value : α) : (Pure.pure value : Run α).Starts := fun world => .refl world

theorem fail (error : RuntimeError) : (Run.fail error : Run α).Starts := fun world => .refl world

theorem modify {change : World → World} (same : ∀ world, (change world).ledger = world.ledger) :
    (Run.modify change).Starts := fun world => (World.Starts.refl world).same (same world)

theorem update {change : World → α × World} (same : ∀ world, (change world).2.ledger = world.ledger) :
    (Run.update change).Starts := fun world => (World.Starts.refl world).same (same world)

theorem store (env : EnvRef) (slot : Slot) (value : Value) : (Run.store env slot value).Starts :=
  modify fun _ => rfl

end Run.Starts

namespace Machine

variable {host : Host}

theorem call_starts (natives : ∀ function ∈ host, HostFunction.Starts function) (fuel : Nat) :
    (call host fuel).Starts ∧ ∀ env, (exec host fuel env).Starts := by
  have alike := @Lockstep.call_alike .starting host (fun native member fuel other fuels calls => by
    obtain rfl : fuel = other := by
      simpa [Comparison.Fuels, Lockstep.starting, Comparison.starting] using fuels
    intro thread args
    refine (natives native member _ (fun thread invocation => ?_) thread args).alike
    exact .of_alike (calls thread invocation)) fuel fuel (.inl rfl)
  refine ⟨fun thread invocation => .of_alike (alike.1 thread invocation), fun env => .of_alike ?_⟩
  intro start left right holds
  exact Lockstep.execWith_at alike.1 alike.2 env start left right holds trivial

end Machine

def Outcome.Settles (start : World) : Outcome Unit → Prop
  | .done _ world => start.Starts world
  | .fail _ world => ∃ before, start.Starts before ∧
    world.ledger = (before.spawned, before.failed + 1, before.pending)
  | .await _ world resume => start.Starts world ∧ ∀ later, (resume later).Settles later
  | .broken _ => True

theorem Machine.runTask_settles {host : Host}
    (natives : ∀ function ∈ host, HostFunction.Starts function) (fuel : Nat) (spawn : Spawn)
    (world : World) : (runTask .never host fuel spawn world).Settles world := by
  show (Run.bind (Run.attempt (call host fuel spawn.thread spawn.invocation)) _ world).Settles world
  rw [Run.bind_apply, Run.attempt_apply]
  have starts := (call_starts natives fuel).1 spawn.thread spawn.invocation world
  generalize call host fuel spawn.thread spawn.invocation world = outcome at starts
  generalize world = start at starts ⊢
  induction outcome generalizing start with
  | done value world => exact starts
  | fail error world => exact ⟨world, starts, rfl⟩
  | await wait world resume ih => exact ⟨starts.1, fun later => ih later later (starts.2 later)⟩
  | broken reason => exact trivial

namespace Tasks

def hasFailed (ended : Nat × Except RuntimeError Unit) : Bool := !ended.2.isOk

/-- Every task that was started is still to begin, waits, or has left its result, and the failures
counted are those among the results. -/
structure Ledger (tasks : Tasks Unit) (world : World) : Prop where
  ids : (tasks.finished.map (·.1) ++ tasks.waiting.map (·.id)).Perm (List.range tasks.count)
  spawned : world.spawned = tasks.count + world.pending.length
  failed : world.failed = tasks.finished.countP hasFailed
  settles : ∀ task ∈ tasks.waiting, ∀ later, (task.resume later).Settles later

variable {start : Spawn → Run Unit} {tasks : Tasks Unit} {world later : World}

theorem Ledger.starts (ledger : tasks.Ledger world) (starts : world.Starts later) :
    tasks.Ledger later := by
  obtain ⟨more, same⟩ := starts
  simp only [World.ledger, Prod.mk.injEq] at same
  obtain ⟨spawned, failed, pending⟩ := same
  refine ⟨ledger.ids, ?_, failed.trans ledger.failed, ledger.settles⟩
  rw [spawned, pending, ledger.spawned, List.length_append, Nat.add_assoc]

theorem Ledger.enlist (settles : ∀ spawn world, (start spawn world).Settles world)
    (ledger : tasks.Ledger world) :
    (tasks.enlist start world).1.Ledger (tasks.enlist start world).2 := by
  have adds (spawns : List Spawn) {tasks : Tasks Unit} {world : World}
      (ledger : tasks.Ledger { world with pending := spawns }) :
      (spawns.foldl (fun tasks spawn => tasks.add (start spawn)) tasks).Ledger
        { world with pending := [] } := by
    induction spawns generalizing tasks with
    | nil => exact ledger
    | cons spawn rest ih =>
      refine ih ⟨?_, ?_, ledger.failed, ?_⟩
      · simp only [add, List.map_append, List.map_cons, List.map_nil, List.range_succ,
          ← List.append_assoc]
        exact ledger.ids.append_right _
      · rw [ledger.spawned]
        simp only [add, List.length_cons]
        omega
      · intro task member
        rcases List.mem_append.mp member with old | new
        · exact ledger.settles task old
        · obtain rfl := List.mem_singleton.mp new
          exact settles spawn
  exact adds world.pending ledger

structure Turn.Books (before : World) (tasks : List (Task Unit)) (turn : Turn Unit) : Prop where
  ids : (turn.finished.map (·.1) ++ turn.waiting.map (·.id)).Perm (tasks.map (·.id))
  ledger : ∃ more, turn.world.ledger = (before.spawned + more.length,
    before.failed + turn.finished.countP hasFailed, before.pending ++ more)
  settles : ∀ task ∈ turn.waiting, ∀ later, (task.resume later).Settles later

namespace Turn.Books

variable {before : World} {task : Task Unit} {rest : List (Task Unit)} {turn : Turn Unit}

theorem earlier (books : Books later rest turn) (starts : before.Starts later) :
    Books before rest turn := by
  obtain ⟨more, same⟩ := starts
  obtain ⟨further, again⟩ := books.ledger
  simp only [World.ledger, Prod.mk.injEq] at same again
  obtain ⟨spawned, failed, pending⟩ := same
  refine { books with ledger := ⟨more ++ further, ?_⟩ }
  simp only [World.ledger, again, spawned, failed, pending, List.length_append, List.append_assoc,
    Nat.add_assoc]

theorem waits {next : Task Unit} (books : Books before rest turn) (progress : Bool)
    (same : next.id = task.id) (settles : ∀ later, (next.resume later).Settles later) :
    Books before (task :: rest) { turn with progress, waiting := next :: turn.waiting } where
  ids := by
    rw [List.map_cons, List.map_cons, same]
    exact List.perm_middle.trans (books.ids.cons _)
  ledger := books.ledger
  settles other member := by
    rcases List.mem_cons.mp member with rfl | member
    · exact settles
    · exact books.settles other member

theorem succeeds (books : Books before rest turn) :
    Books before (task :: rest)
      { turn with progress := true, finished := (task.id, .ok ()) :: turn.finished } where
  ids := books.ids.cons _
  ledger := books.ledger
  settles := books.settles

theorem fails (books : Books later rest turn) (error : RuntimeError)
    (counted : later.ledger = (before.spawned, before.failed + 1, before.pending)) :
    Books before (task :: rest)
      { turn with progress := true, finished := (task.id, .error error) :: turn.finished } where
  ids := books.ids.cons _
  ledger := by
    obtain ⟨more, same⟩ := books.ledger
    simp only [World.ledger, Prod.mk.injEq] at counted same
    refine ⟨more, ?_⟩
    rw [List.countP_cons_of_pos rfl]
    simp only [World.ledger, same, counted, Prod.mk.injEq, true_and, and_true]
    omega
  settles := books.settles

end Turn.Books

theorem runAll_books {waiting : List (Task Unit)} {turn : Turn Unit}
    (settles : ∀ task ∈ waiting, ∀ later, (task.resume later).Settles later)
    (ran : runAll world waiting = .ok turn) : Turn.Books world waiting turn := by
  induction waiting generalizing world turn with
  | nil =>
    cases ran
    exact ⟨.refl _, ⟨[], by simp [World.ledger]⟩, nofun⟩
  | cons task rest ih =>
    have others := fun other member => settles other (List.mem_cons_of_mem _ member)
    have own := settles task (List.mem_cons_self ..)
    have map {world : World} {change : Turn Unit → Turn Unit}
        (ran : (runAll world rest).map change = .ok turn) :
        ∃ found, Turn.Books world rest found ∧ change found = turn := by
      cases found : runAll world rest with
      | error reason =>
        rw [found] at ran
        cases ran
      | ok after =>
        rw [found] at ran
        exact ⟨after, ih others found, Except.ok.inj ran⟩
    unfold runAll at ran
    split at ran
    · have settled := own world
      split at ran
      · next value later ended =>
        rw [ended] at settled
        obtain ⟨found, books, rfl⟩ := map ran
        exact (books.earlier settled).succeeds
      · next error later ended =>
        rw [ended] at settled
        obtain ⟨before, starts, counted⟩ := settled
        obtain ⟨found, books, rfl⟩ := map ran
        exact (books.fails error counted).earlier starts
      · next wait later resume ended =>
        rw [ended] at settled
        obtain ⟨found, books, rfl⟩ := map ran
        exact (books.earlier settled.1).waits true rfl settled.2
      · cases ran
    · obtain ⟨found, books, rfl⟩ := map ran
      exact books.waits found.progress rfl own

theorem Ledger.turn {final : Tasks Unit} {progress : Bool}
    (settles : ∀ spawn world, (start spawn world).Settles world) (ledger : tasks.Ledger world)
    (turned : tasks.turn start world = .ok (final, later, progress)) : final.Ledger later := by
  have enlisted := ledger.enlist settles
  unfold Tasks.turn at turned
  dsimp only at turned
  generalize tasks.enlist start world = begun at enlisted turned
  obtain ⟨begun, now⟩ := begun
  cases ran : runAll now begun.waiting with
  | error reason =>
    rw [ran] at turned
    cases turned
  | ok turn =>
    rw [ran] at turned
    obtain ⟨more, same⟩ := (runAll_books enlisted.settles ran).ledger
    have books := runAll_books enlisted.settles ran
    simp only [World.ledger, Prod.mk.injEq] at same
    obtain ⟨spawned, failed, pending⟩ := same
    have after : Ledger
        { begun with waiting := turn.waiting, finished := begun.finished ++ turn.finished }
          turn.world := by
      refine ⟨?_, ?_, ?_, books.settles⟩
      · rw [List.map_append, List.append_assoc]
        exact (books.ids.append_left _).trans enlisted.ids
      · rw [spawned, pending, enlisted.spawned, List.length_append, Nat.add_assoc]
      · rw [failed, enlisted.failed, List.countP_append]
    cases turned
    exact after.enlist settles

def Booked : Scheduled α Unit → Prop
  | .finished _ world tasks | .stuck world tasks => tasks.Ledger world
  | .broken _ => True

theorem drive_booked (settles : ∀ spawn world, (start spawn world).Settles world) (fuel : Nat)
    {outcome : Outcome α} (starts : outcome.Starts world) (ledger : tasks.Ledger world) :
    Booked (drive start fuel tasks outcome) := by
  induction fuel generalizing tasks world outcome with
  | zero =>
    cases outcome with
    | done value now | fail error now => exact ledger.starts starts
    | await wait now resume => trivial
    | broken reason => trivial
  | succ fuel ih =>
    cases outcome with
    | done value now | fail error now => exact ledger.starts starts
    | broken reason => trivial
    | await wait now resume =>
      unfold drive
      split
      · trivial
      · next final after progress turned =>
        have turn := (ledger.starts starts.1).turn settles turned
        split
        · exact ih (starts.2 after) turn
        · split
          · exact ih ⟨.refl after, starts.2⟩ turn
          · exact turn

theorem join_booked (settles : ∀ spawn world, (start spawn world).Settles world)
    (goal : Tasks Unit → Bool) (fuel : Nat) (ledger : tasks.Ledger world) :
    Booked (join start goal fuel tasks world) ∧
      ∀ result later final, join start goal fuel tasks world = .finished result later final →
        goal final = true ∧ later.pending = [] := by
  induction fuel generalizing tasks world with
  | zero => exact ⟨trivial, fun _ _ _ ended => by cases ended⟩
  | succ fuel ih =>
    have enlisted := ledger.enlist settles
    have none : (tasks.enlist start world).2.pending = [] := rfl
    unfold join
    dsimp only
    generalize tasks.enlist start world = begun at enlisted none
    obtain ⟨begun, now⟩ := begun
    dsimp only at enlisted none ⊢
    split
    · next reached =>
      refine ⟨enlisted, fun result later final ended => ?_⟩
      cases ended
      exact ⟨reached, none⟩
    · split
      · exact ⟨trivial, fun _ _ _ ended => by cases ended⟩
      · next final later turned => exact ih (enlisted.turn settles turned)
      · next final later turned =>
        exact ⟨enlisted.turn settles turned, fun _ _ _ ended => by cases ended⟩

end Tasks

namespace Interpreter

/-- The books of an interpreter are right, and nothing that it runs puts them wrong. -/
structure Ledger (interpreter : Interpreter) : Prop where
  tasks : interpreter.tasks.Ledger interpreter.world
  unwatched : interpreter.watch = .never
  natives : ∀ native ∈ interpreter.natives, native.function.Starts

variable {interpreter later : Interpreter}

namespace Ledger

theorem new (options : Options) : (Interpreter.new options).Ledger :=
  ⟨⟨.refl _, rfl, rfl, nofun⟩, rfl, nofun⟩

theorem host (ledger : interpreter.Ledger) :
    ∀ function ∈ interpreter.host, HostFunction.Starts function := by
  intro function member
  obtain ⟨native, isNative, rfl⟩ := List.mem_map.mp member
  exact ledger.natives native isNative

theorem settles (ledger : interpreter.Ledger) (fuel : Nat) (spawn : Spawn) (world : World) :
    (interpreter.runTask fuel spawn world).Settles world := by
  rw [Interpreter.runTask, ledger.unwatched]
  exact Machine.runTask_settles ledger.host fuel spawn world

theorem perform (ledger : interpreter.Ledger) (fuel : Nat) {run : Run α} (starts : run.Starts) :
    (interpreter.perform fuel run).2.Ledger := by
  have booked := Tasks.drive_booked (ledger.settles fuel) fuel (starts interpreter.world) ledger.tasks
  unfold Interpreter.perform
  generalize Tasks.drive (interpreter.runTask fuel) fuel interpreter.tasks (run interpreter.world) =
    ending at booked
  cases ending with
  | finished result world tasks => cases result <;> exact { ledger with tasks := booked }
  | stuck world tasks => exact { ledger with tasks := booked }
  | broken reason => exact ledger

theorem wait (ledger : interpreter.Ledger) (fuel : Nat) :
    (interpreter.wait fuel).2.Ledger ∧ ((interpreter.wait fuel).1 = .ok () →
      (interpreter.wait fuel).2.tasks.waiting = [] ∧ (interpreter.wait fuel).2.world.pending = []) := by
  obtain ⟨booked, ends⟩ := Tasks.join_booked (ledger.settles fuel) Tasks.isIdle fuel ledger.tasks
  unfold Interpreter.wait
  generalize Tasks.join (interpreter.runTask fuel) Tasks.isIdle fuel interpreter.tasks
    interpreter.world = ending at booked ends
  cases ending with
  | finished result world tasks =>
    obtain ⟨idle, none⟩ := ends result world tasks rfl
    exact ⟨{ ledger with tasks := booked }, fun _ => ⟨List.isEmpty_iff.mp idle, none⟩⟩
  | stuck world tasks => exact ⟨{ ledger with tasks := booked }, nofun⟩
  | broken reason => exact ⟨ledger, nofun⟩

theorem storeNatives_starts (env : EnvRef) (symbols : List (String × Slot))
    (natives : List (Native × Nat)) : (storeNatives env symbols natives).Starts := by
  induction natives with
  | nil => exact .pure _
  | cons entry rest ih =>
    unfold storeNatives
    split
    · exact (Run.Starts.store _ _ _).bind fun _ => ih
    · exact ih

theorem enterFile (ledger : interpreter.Ledger) (fuel : Nat) (file : CompiledFile) :
    (interpreter.enterFile fuel file).Starts := by
  have acquires : (Run.update fun world => world.acquire interpreter.thread none file.program 0
      file.objects file.words).Starts := .update fun _ => World.ledger_acquire _ _ _ _ _ _
  have bodies (env : EnvRef) :
      (Machine.watchedExec interpreter.watch interpreter.host fuel env).Starts := by
    rw [ledger.unwatched]
    exact (Machine.call_starts ledger.host fuel).2 env
  have sets (env : EnvRef) : (Run.modify (·.setFileEnv interpreter.thread env)).Starts :=
    .modify fun _ => rfl
  have drops (env : EnvRef) : (Run.modify (·.drop env)).Starts :=
    .modify fun _ => World.ledger_dropWithin env _
  refine acquires.bind fun env => (sets env).bind fun _ =>
    (storeNatives_starts env file.symbols _).bind fun _ => (bodies env).attempt.bind fun result => ?_
  cases result with
  | ok _ => exact .pure _
  | error error => exact (drops env).bind fun _ => .fail _

theorem load (ledger : interpreter.Ledger) (fuel : Nat) (source : SourceFile) :
    (interpreter.load fuel source).2.Ledger := by
  unfold Interpreter.load
  dsimp only
  split
  · exact ledger
  · next file compiled =>
    have performed := ledger.perform fuel (ledger.enterFile fuel file)
    generalize interpreter.perform fuel (interpreter.enterFile fuel file) = answer at performed
    obtain ⟨result, later⟩ := answer
    cases result with
    | error error => exact performed
    | ok env =>
      refine { performed with tasks := performed.tasks.starts ?_ }
      dsimp only
      cases later.fileEnv with
      | none => exact .refl _
      | some former => exact (World.Starts.refl _).same (World.ledger_dropWithin former _)

theorem call (ledger : interpreter.Ledger) (fuel : Nat) (name : String) (args : List Value) :
    (interpreter.call fuel name args).2.Ledger := by
  unfold Interpreter.call
  split
  · exact ledger
  · split
    · rw [ledger.unwatched]
      exact ledger.perform fuel ((Machine.call_starts ledger.host fuel).1 _ _)
    · exact ledger

theorem run (ledger : interpreter.Ledger) (fuel : Nat) : (interpreter.run fuel).2.Ledger := by
  have waited := ((ledger.call fuel "main" []).wait fuel).1
  unfold Interpreter.run
  dsimp only
  split <;> simp_all

theorem serve (ledger : interpreter.Ledger) (request : Request)
    (starts : ∀ native, request = .define native → native.function.Starts) :
    (interpreter.serve request).2.Ledger := by
  cases request with
  | define native =>
    refine { ledger with natives := fun other member => ?_ }
    rcases List.mem_append.mp member with old | new
    · exact ledger.natives other old
    · obtain rfl := List.mem_singleton.mp new
      exact starts other rfl
  | load fuel source => exact ledger.load fuel source
  | call fuel name args => exact ledger.call fuel name args
  | run fuel => exact ledger.run fuel
  | wait fuel => exact (ledger.wait fuel).1
  | output => exact { ledger with tasks := ledger.tasks.starts (World.Starts.refl _) }
  | global name => exact ledger
  | stats => exact ledger

end Ledger

/-- The states that the requests of a host lead to. Of its functions, only the calls they make start
tasks. -/
inductive Served : Interpreter → Prop
  | new (options : Options) : Served (.new options)
  | serve {interpreter : Interpreter} (served : Served interpreter) (request : Request)
    (starts : ∀ native, request = .define native → native.function.Starts) :
    Served (interpreter.serve request).2

theorem Served.ledger (served : interpreter.Served) : interpreter.Ledger := by
  induction served with
  | new options => exact .new options
  | serve _ request starts ih => exact ih.serve request starts

end Interpreter

/-- Whoever has waited for all tasks finds that they have ended. In every interleaving of the steps of a
caller and of any tasks, which may start further ones until they end, it holds when the caller returns
that all tasks have ended, that no handle is left, and that the failures counted are the tasks that ended
in an error or were aborted. In particular this holds of an interpreter whose host has made any requests:
each of its tasks has left one result, and the failures counted are those among the results. -/
theorem all_tasks_awaited :
    (∀ {state : Runner.State}, Runner.Reachable state → state.phase none = .returned →
      (∀ task < state.spawned, ∃ ending, state.phase (some task) = .ended ending) ∧
      (∀ task, state.spawned ≤ task → state.phase (some task) = .absent) ∧
      state.handles = [] ∧ state.failed = state.tally Runner.Phase.hasFailed) ∧
    ∀ {interpreter : Interpreter}, interpreter.Served → ∀ fuel : Nat,
      (interpreter.wait fuel).1 = .ok () →
      ((interpreter.wait fuel).2.tasks.finished.map (·.1)).Perm
        (List.range (interpreter.wait fuel).2.world.spawned) ∧
      (interpreter.wait fuel).2.tasks.waiting = [] ∧ (interpreter.wait fuel).2.world.pending = [] ∧
      (interpreter.wait fuel).2.world.failed =
        (interpreter.wait fuel).2.tasks.finished.countP Tasks.hasFailed := by
  refine ⟨fun {state} reached returned => ?_, fun {interpreter} served fuel ended => ?_⟩
  · have none := reached.handles_eq_nil returned
    obtain ⟨ended, failed⟩ := reached.sound.of_returned returned none
    exact ⟨ended, reached.sound.unborn, none, failed⟩
  · obtain ⟨ledger, idle⟩ := served.ledger.wait fuel
    obtain ⟨waiting, pending⟩ := idle ended
    have ids := ledger.tasks.ids
    have spawned := ledger.tasks.spawned
    rw [waiting, List.map_nil, List.append_nil] at ids
    rw [pending, List.length_nil, Nat.add_zero] at spawned
    exact ⟨spawned ▸ ids, waiting, pending, ledger.tasks.failed⟩

/-- A caller starts a task and waits for it. Meanwhile the task starts one that fails and one that is
aborted, and puts the handle of the first into the list only when its own has been taken. -/
theorem Runner.exists_nested : ∃ state, Reachable state ∧ state.phase none = .returned ∧
    state.spawned = 3 ∧ state.failed = 2 := by
  have begun := ((Reachable.initial.step (.count none rfl)).step (.start none 0 rfl)).step
    (.push none 0 rfl)
  have nested := ((begun.step (.call rfl)).step (.count (some 0) rfl)).step (.start (some 0) 1 rfl)
  have taken := nested.step (.take rfl (by decide))
  have failed := ((taken.step (.err 1 rfl)).step (.report 1 rfl)).step (.finish 1 .error rfl)
  have second := ((failed.step (.push (some 0) 1 rfl)).step (.count (some 0) rfl)).step
    (.start (some 0) 2 rfl)
  have aborted := (second.step (.abort 2 rfl)).step (.push (some 0) 2 rfl)
  have ended := (aborted.step (.succeed 0 rfl)).step (.finish 0 .ok rfl)
  have joined := (ended.step (.join 0 [] .ok rfl rfl (by decide))).step (.take rfl (by decide))
  have noted := ((joined.step (.join 1 [2] .error rfl rfl (by decide))).step
    (.joinAborted 2 [] rfl rfl)).step (.note [] rfl)
  exact ⟨_, noted.step (.finished rfl rfl), rfl, rfl, rfl⟩

def nestedTask : SourceFile :=
  let call (name : String) (args : List Expr) : Expr := .call (.ident ⟨name, {}⟩) args false {}
  let function (name : String) (body : Stmt) : Decl := .func ⟨name, {}⟩ {} (.mk [body] {}) {}
  [function "main" (.go (call "outer" []) {}), function "outer" (.go (call "inner" []) {}),
    function "inner" (.expr (call "panic" [.string "stop" {}]))]

def nestedTaskCalled : Interpreter :=
  ((((Interpreter.new {}).serve (.load 50 nestedTask)).2).serve (.call 50 "main" [])).2

theorem all_tasks_awaited_nested :
    (∃ state, Runner.Reachable state ∧ state.phase none = .returned ∧ state.spawned = 3 ∧
      state.handles = [] ∧ state.tally Runner.Phase.hasFailed = 2) ∧
    nestedTaskCalled.Served ∧ (nestedTaskCalled.wait 50).2.world.spawned = 2 ∧
      (nestedTaskCalled.wait 50).2.tasks.waiting = [] ∧
      (nestedTaskCalled.wait 50).2.tasks.finished.countP Tasks.hasFailed = 1 := by
  obtain ⟨state, reached, returned, spawned, failed⟩ := Runner.exists_nested
  obtain ⟨-, -, none, tally⟩ := all_tasks_awaited.1 reached returned
  have loaded := (Interpreter.Served.new {}).serve (.load 50 nestedTask) nofun
  have served : nestedTaskCalled.Served := loaded.serve (.call 50 "main" []) nofun
  have ended : (nestedTaskCalled.wait 50).1 = .ok () := by
    have isOk : (nestedTaskCalled.wait 50).1.isOk = true := by decide +kernel
    cases result : (nestedTaskCalled.wait 50).1 with
    | ok _ => rfl
    | error error => simp [result, Except.isOk, Except.toBool] at isOk
  obtain ⟨-, waiting, -, counted⟩ := all_tasks_awaited.2 served 50 ended
  exact ⟨⟨state, reached, returned, spawned, none, tally.symm.trans failed⟩, served, by decide +kernel,
    waiting, counted.symm.trans (by decide +kernel)⟩

end MiniGo
