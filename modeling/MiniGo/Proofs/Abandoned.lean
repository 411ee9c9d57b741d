import MiniGo.Proofs.Isolation
import MiniGo.Proofs.Sessions
/-!
Abandoned files. Whatever the code of a file does until it fails, it keeps to what it has made itself,
and so do the tasks that it leaves behind. So the interpreter stays on the file loaded before.
-/

namespace MiniGo

variable {before world : World} {α β : Type}

namespace Tasks

variable {start : Spawn → Run β} {tasks : Tasks β}

def Confined (before : World) (tasks : Tasks β) : Prop :=
  ∀ task ∈ tasks.waiting, Run.Confined before (fun _ => True) task.resume

def StartConfined (before : World) (start : Spawn → Run β) : Prop :=
  ∀ spawn : Spawn, spawn.New before → (start spawn).Confined before fun _ => True

def Parted (before : World) (post : α → Prop) : Scheduled α β → Prop
  | .finished result world tasks =>
    world.Preserves before ∧ tasks.Confined before ∧ ∀ value, result = .ok value → post value
  | .stuck world tasks => world.Preserves before ∧ tasks.Confined before
  | .broken _ => True

theorem Confined.enlist (confined : tasks.Confined before) (starts : StartConfined before start)
    (preserves : world.Preserves before) :
    (tasks.enlist start world).1.Confined before ∧
      (tasks.enlist start world).2.Preserves before := by
  refine ⟨?_, { preserves with pending := by simp [Tasks.enlist] }⟩
  have pending := preserves.pending
  unfold Tasks.enlist
  dsimp only
  generalize world.pending = spawns at pending
  induction spawns generalizing tasks with
  | nil => exact confined
  | cons spawn spawns ih =>
    obtain ⟨first, rest⟩ := List.forall_mem_cons.mp pending
    have added : (tasks.add (start spawn)).Confined before := by
      intro task member
      rcases List.mem_append.mp member with old | new
      · exact confined task old
      · exact List.mem_singleton.mp new ▸ starts spawn first
    exact ih added rest

theorem runAll_confined {waiting : List (Task β)} {turn : Turn β}
    (confined : ∀ task ∈ waiting, Run.Confined before (fun _ => True) task.resume)
    (preserves : world.Preserves before) (ran : runAll world waiting = .ok turn) :
    turn.world.Preserves before ∧
      ∀ task ∈ turn.waiting, Run.Confined before (fun _ => True) task.resume := by
  induction waiting generalizing world turn with
  | nil =>
    cases ran
    exact ⟨preserves, nofun⟩
  | cons task rest ih =>
    obtain ⟨own, others⟩ := List.forall_mem_cons.mp confined
    have map {world : World} {change : Turn β → Turn β} (preserves : world.Preserves before)
        (ran : (runAll world rest).map change = .ok turn) :
        ∃ found, change found = turn ∧ found.world.Preserves before ∧
          ∀ task ∈ found.waiting, Run.Confined before (fun _ => True) task.resume := by
      cases found : runAll world rest with
      | error reason =>
        rw [found] at ran
        cases ran
      | ok after =>
        rw [found] at ran
        exact ⟨after, Except.ok.inj ran, ih others preserves found⟩
    unfold runAll at ran
    split at ran
    · have ends := own world preserves
      split at ran
      · next value later ended =>
        rw [ended] at ends
        obtain ⟨found, rfl, kept, rests⟩ := map ends.1 ran
        exact ⟨kept, rests⟩
      · next error later ended =>
        rw [ended] at ends
        obtain ⟨found, rfl, kept, rests⟩ := map ends ran
        exact ⟨kept, rests⟩
      · next wait later resume ended =>
        rw [ended] at ends
        obtain ⟨found, rfl, kept, rests⟩ := map ends.1 ran
        exact ⟨kept, List.forall_mem_cons.mpr ⟨ends.2, rests⟩⟩
      · cases ran
    · obtain ⟨found, rfl, kept, rests⟩ := map preserves ran
      exact ⟨kept, List.forall_mem_cons.mpr ⟨own, rests⟩⟩

theorem Confined.turn (confined : tasks.Confined before) (starts : StartConfined before start)
    (preserves : world.Preserves before) {after : Tasks β} {later : World} {progress : Bool}
    (turned : tasks.turn start world = .ok (after, later, progress)) :
    after.Confined before ∧ later.Preserves before := by
  obtain ⟨enlisted, kept⟩ := confined.enlist starts preserves
  unfold Tasks.turn at turned
  dsimp only at turned
  cases ran : runAll (tasks.enlist start world).2 (tasks.enlist start world).1.waiting with
  | error reason =>
    rw [ran] at turned
    cases turned
  | ok turn =>
    rw [ran] at turned
    obtain ⟨turnKept, rests⟩ := runAll_confined enlisted kept ran
    cases turned
    exact Confined.enlist rests starts turnKept

theorem drive_confined {post : α → Prop} (starts : StartConfined before start) (fuel : Nat)
    {outcome : Outcome α} (keeps : outcome.Confined before post) (confined : tasks.Confined before) :
    Parted before post (drive start fuel tasks outcome) := by
  induction fuel generalizing tasks outcome with
  | zero =>
    cases outcome with
    | done value world => exact ⟨keeps.1, confined, fun _ same => Except.ok.inj same ▸ keeps.2⟩
    | fail error world => exact ⟨keeps, confined, nofun⟩
    | await wait world resume => trivial
    | broken reason => trivial
  | succ fuel ih =>
    cases outcome with
    | done value world => exact ⟨keeps.1, confined, fun _ same => Except.ok.inj same ▸ keeps.2⟩
    | fail error world => exact ⟨keeps, confined, nofun⟩
    | broken reason => trivial
    | await wait world resume =>
      unfold drive
      split
      · trivial
      · next final after progress turned =>
        obtain ⟨rests, kept⟩ := confined.turn starts keeps.1 turned
        split
        · exact ih (keeps.2 _ kept) rests
        · split
          · exact ih ⟨kept, keeps.2⟩ rests
          · exact ⟨kept, rests⟩

theorem join_confined (starts : StartConfined before start) (goal : Tasks β → Bool) (fuel : Nat)
    (confined : tasks.Confined before) (preserves : world.Preserves before) :
    Parted before (fun _ => True) (join start goal fuel tasks world) := by
  induction fuel generalizing tasks world with
  | zero => trivial
  | succ fuel ih =>
    obtain ⟨enlisted, kept⟩ := confined.enlist starts preserves
    unfold join
    dsimp only
    split
    · exact ⟨kept, enlisted, fun _ _ => trivial⟩
    · split
      · trivial
      · next final later turned =>
        obtain ⟨rests, kept⟩ := enlisted.turn starts kept turned
        exact ih rests kept
      · next final later turned =>
        obtain ⟨rests, kept⟩ := enlisted.turn starts kept turned
        exact ⟨kept, rests⟩

end Tasks

namespace Interpreter

variable {interpreter later : Interpreter} {fuel : Nat}

/-- Nothing that was there has changed, and no task is about to change it. -/
structure Spares (interpreter : Interpreter) (before : World) : Prop where
  world : interpreter.world.Preserves before
  tasks : interpreter.tasks.Confined before
  host : interpreter.host.Confined before

namespace Spares

theorem starts (spares : interpreter.Spares before) (fuel : Nat) :
    Tasks.StartConfined before (interpreter.runTask fuel) :=
  fun _ new => Machine.runTask_confined _ spares.host fuel new

theorem perform (spares : interpreter.Spares before) (fuel : Nat) {run : Run α} {post : α → Prop}
    (confined : run.Confined before post) :
    (interpreter.perform fuel run).2.Spares before := by
  have parted := Tasks.drive_confined (spares.starts fuel) fuel (confined _ spares.world)
    spares.tasks
  unfold Interpreter.perform
  generalize Tasks.drive (interpreter.runTask fuel) fuel interpreter.tasks (run interpreter.world) =
    ending at parted
  cases ending with
  | finished result world tasks =>
    cases result <;> exact ⟨parted.1, parted.2.1, spares.host⟩
  | stuck world tasks => exact ⟨parted.1, parted.2, spares.host⟩
  | broken reason => exact spares

theorem wait (spares : interpreter.Spares before) (fuel : Nat) :
    (interpreter.wait fuel).2.Spares before := by
  have parted := Tasks.join_confined (spares.starts fuel) Tasks.isIdle fuel spares.tasks spares.world
  unfold Interpreter.wait
  generalize Tasks.join (interpreter.runTask fuel) Tasks.isIdle fuel interpreter.tasks
    interpreter.world = ending at parted
  cases ending with
  | finished result world tasks => exact ⟨parted.1, parted.2.1, spares.host⟩
  | stuck world tasks => exact ⟨parted.1, parted.2, spares.host⟩
  | broken reason => exact spares

end Spares

def callee (interpreter : Interpreter) (name : String) : Except HostError Func :=
  if interpreter.fileEnv.isNone then .error .notLoaded
  else
    match interpreter.global? name with
    | some (.func function) => .ok function
    | _ => .error (.undefinedFunction name)

theorem call_eq (interpreter : Interpreter) (fuel : Nat) (name : String) (args : List Value) :
    interpreter.call fuel name args =
      match interpreter.callee name with
      | .error error => (.error error, interpreter)
      | .ok function => interpreter.perform fuel (Machine.watchedCall interpreter.watch
          interpreter.host fuel interpreter.thread ⟨.func function, args, false⟩) := by
  unfold call callee
  split
  · rfl
  · cases interpreter.global? name with
    | none => rfl
    | some value => cases value <;> rfl

structure SameFile (interpreter later : Interpreter) : Prop where
  fileEnv : later.fileEnv = interpreter.fileEnv
  symbols : later.symbols = interpreter.symbols
  natives : later.natives = interpreter.natives
  thread : later.thread = interpreter.thread
  watch : later.watch = interpreter.watch

theorem SameFile.refl (interpreter : Interpreter) : interpreter.SameFile interpreter :=
  ⟨rfl, rfl, rfl, rfl, rfl⟩

theorem perform_sameFile (interpreter : Interpreter) (fuel : Nat) (run : Run α) :
    interpreter.SameFile (interpreter.perform fuel run).2 := by
  unfold perform
  split <;> exact ⟨rfl, rfl, rfl, rfl, rfl⟩

theorem wait_sameFile (interpreter : Interpreter) (fuel : Nat) :
    interpreter.SameFile (interpreter.wait fuel).2 := by
  unfold wait
  split <;> exact ⟨rfl, rfl, rfl, rfl, rfl⟩

theorem call_sameFile (interpreter : Interpreter) (fuel : Nat) (name : String) (args : List Value) :
    interpreter.SameFile (interpreter.call fuel name args).2 := by
  rw [call_eq]
  split
  · exact .refl _
  · exact perform_sameFile _ _ _

theorem load_thread (interpreter : Interpreter) (fuel : Nat) (source : SourceFile) :
    (interpreter.load fuel source).2.thread = interpreter.thread := by
  unfold load
  dsimp only
  split
  · rfl
  · next file _ =>
    have same := (perform_sameFile interpreter fuel (interpreter.enterFile fuel file)).thread
    split
    · next performed => rwa [performed] at same
    · next performed => rwa [performed] at same

section Reached

variable [Natives] {held : List Value}

theorem Session.thread (session : interpreter.Session held) : interpreter.thread = ⟨0⟩ := by
  induction session with
  | new options => rfl
  | define _ _ ih | watch _ _ ih | global _ _ ih | takeOutput _ ih => exact ih
  | load _ _ ih => exact (load_thread _ _ _).trans ih
  | call _ _ _ ih => exact (call_sameFile _ _ _ _).thread.trans ih
  | work _ _ _ _ ih => exact (perform_sameFile _ _ _).thread.trans ih
  | wait _ _ ih => exact (wait_sameFile _ _).thread.trans ih

theorem Session.free (session : interpreter.Session held) :
    interpreter.thread.Free interpreter.world := by
  obtain ⟨now, refs, sound, -⟩ := session.sound
  have left := sound.quiet.left interpreter.thread (.inl rfl)
  rw [ThreadRef.Free, sound.world]
  exact (Prod.mk.inj (Prod.mk.inj left).2).1

end Reached

end Interpreter

end MiniGo
