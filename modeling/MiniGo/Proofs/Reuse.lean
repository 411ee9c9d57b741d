import MiniGo.Proofs.Pools
import MiniGo.Proofs.Updates
/-!
What a host can see of the reuse of slots, which is nothing. Instructions, calls, tasks and requests do
the same in a program without pools, and so two programs that differ in the size of their pools only
give the same answers.
-/

namespace MiniGo

variable {α β : Type}

/-- A function of the host that does the same without pools, if the calls it makes do. -/
def HostFunction.Blind (function : HostFunction) : Prop :=
  ∀ (call : Caller), call.Blind → ∀ (thread : ThreadRef) (args : List Value),
    (function call thread args).Blind

namespace HostFunction

theorem echo_blind : echo.Blind := fun _ _ _ _ => .pure _

theorem values_blind (results : List Value) : (values results).Blind := fun _ _ _ _ => .pure _

theorem failing_blind (error : RuntimeError) : (failing error).Blind := fun _ _ _ _ => .fail _

theorem double_blind : double.Blind := by
  intro call blind thread args
  cases args with
  | nil => exact .pure _
  | cons value rest => exact (Run.Blind.ofExcept _).bind fun _ => .pure _

theorem log_blind : log.Blind := by
  intro call blind thread args
  have writes (world : World) : args.foldl
      (fun world value => world.write ("<" ++ world.text value ++ ">")) world.bare =
      (args.foldl (fun world value => world.write ("<" ++ world.text value ++ ">")) world).bare := by
    induction args generalizing world with
    | nil => rfl
    | cons value rest ih =>
      have same : world.bare.text value = world.text value := rfl
      simp only [List.foldl_cons, same, World.write_bare]
      exact ih _
  exact (Run.Blind.modify writes).bind fun _ => .pure _

theorem callFirst_blind (spread : Bool) : (callFirst spread).Blind :=
  fun _ blind thread _ => blind thread _

end HostFunction

namespace Machine

variable {host : Host}

theorem call_blind (natives : ∀ function ∈ host, HostFunction.Blind function) (fuel : Nat) :
    (call host fuel).Blind ∧ ∀ env, (exec host fuel env).Blind := by
  have alike := @Lockstep.call_alike .unpooled host (fun native member fuel other fuels calls => by
    obtain rfl : fuel = other := by simpa [Comparison.Fuels, Lockstep.unpooled] using fuels
    intro thread args
    refine (natives native member _ (fun thread invocation => ?_) thread args).alike
    exact .of_alike (calls thread invocation)) fuel fuel (.inl rfl)
  refine ⟨fun thread invocation => .of_alike (alike.1 thread invocation), fun env => .of_alike ?_⟩
  exact fun state world _ same =>
    Lockstep.execWith_at alike.1 alike.2 env state world _ same trivial

theorem runTask_blind (natives : ∀ function ∈ host, HostFunction.Blind function) (fuel : Nat)
    (spawn : Spawn) : (runTask .never host fuel spawn).Blind := by
  refine ((call_blind natives fuel).1 spawn.thread spawn.invocation).attempt.bind fun result => ?_
  cases result with
  | ok results => exact .pure _
  | error error =>
    have counts : (Run.modify fun world => { world with failed := world.failed + 1 }).Blind :=
      .modify fun _ => rfl
    exact counts.bind fun _ => .fail _

end Machine

/-- Two tasks that go on in the same way, the second one without pools. -/
structure Task.Mirrors (task fresh : Task β) : Prop where
  id : fresh.id = task.id
  wait : fresh.wait = task.wait
  resume : ∀ later, (task.resume later).Mirrors (fresh.resume later.bare)

structure Tasks.Mirrors (tasks fresh : Tasks β) : Prop where
  waiting : List.Forall₂ Task.Mirrors tasks.waiting fresh.waiting
  finished : fresh.finished = tasks.finished
  count : fresh.count = tasks.count

/-- How a computation in front of its tasks ends, and how it ends without pools. -/
inductive Scheduled.Mirrors : Scheduled α β → Scheduled α β → Prop
  | finished {result : Except RuntimeError α} {world : World} {tasks fresh : Tasks β} :
    tasks.Mirrors fresh → Mirrors (.finished result world tasks) (.finished result world.bare fresh)
  | stuck {world : World} {tasks fresh : Tasks β} : tasks.Mirrors fresh →
    Mirrors (.stuck world tasks) (.stuck world.bare fresh)
  | exhausted : Mirrors (.broken .exhausted) (.broken .exhausted)

namespace Tasks

/-- The state after every task has had its turn, and without pools. -/
inductive Turn.Mirrors : Except Broken (Turn β) → Except Broken (Turn β) → Prop
  | ok {world : World} {waiting fresh : List (Task β)}
      {finished : List (Nat × Except RuntimeError β)} {progress : Bool} :
    List.Forall₂ Task.Mirrors waiting fresh →
    Mirrors (.ok ⟨world, waiting, finished, progress⟩) (.ok ⟨world.bare, fresh, finished, progress⟩)
  | exhausted : Mirrors (.error .exhausted) (.error .exhausted)

variable {start : Spawn → Run β} {tasks fresh : Tasks β} {world : World}

theorem Mirrors.enlist (mirrors : tasks.Mirrors fresh) (blind : ∀ spawn, (start spawn).Blind)
    (world : World) : (tasks.enlist start world).1.Mirrors (fresh.enlist start world.bare).1 := by
  have adds (spawns : List Spawn) {tasks fresh : Tasks β} (mirrors : tasks.Mirrors fresh) :
      (spawns.foldl (fun tasks spawn => tasks.add (start spawn)) tasks).Mirrors
        (spawns.foldl (fun tasks spawn => tasks.add (start spawn)) fresh) := by
    induction spawns generalizing tasks fresh with
    | nil => exact mirrors
    | cons spawn rest ih =>
      refine ih ⟨?_, mirrors.finished, congrArg (· + 1) mirrors.count⟩
      exact List.rel_append mirrors.waiting (.cons ⟨mirrors.count, rfl, blind spawn⟩ .nil)
  exact adds world.pending mirrors

theorem Turn.Mirrors.map {turn freshTurn : Except Broken (Turn β)} {change freshChange : Turn β → Turn β}
    (mirrors : Turn.Mirrors turn freshTurn)
    (goes : ∀ world waiting fresh finished progress, List.Forall₂ Task.Mirrors waiting fresh →
      Turn.Mirrors (.ok (change ⟨world, waiting, finished, progress⟩))
        (.ok (freshChange ⟨world.bare, fresh, finished, progress⟩))) :
    Turn.Mirrors (turn.map change) (freshTurn.map freshChange) := by
  cases mirrors with
  | ok waiting => exact goes _ _ _ _ _ waiting
  | exhausted => exact .exhausted

theorem runAll_mirrors {waiting freshWaiting : List (Task β)}
    (mirrors : List.Forall₂ Task.Mirrors waiting freshWaiting) (world : World) :
    Turn.Mirrors (runAll world waiting) (runAll world.bare freshWaiting) := by
  induction mirrors generalizing world with
  | nil => exact .ok .nil
  | @cons task fresh waiting freshWaiting same rest ih =>
    have exchange : world.bare.exchange = world.exchange := rfl
    simp only [runAll, same.wait, same.id, exchange]
    split
    · have resumes := same.resume world
      generalize task.resume world = outcome, fresh.resume world.bare = freshOutcome at resumes
      cases resumes with
      | done | fail => exact (ih _).map fun _ _ _ _ _ waiting => .ok waiting
      | await goes => exact (ih _).map fun _ _ _ _ _ waiting => .ok (.cons ⟨rfl, rfl, goes⟩ waiting)
      | exhausted => exact .exhausted
    · exact (ih _).map fun _ _ _ _ _ waiting => .ok (.cons same waiting)

inductive Turned : Except Broken (Tasks β × World × Bool) → Except Broken (Tasks β × World × Bool) → Prop
  | ok {tasks fresh : Tasks β} {world : World} {progress : Bool} : tasks.Mirrors fresh →
    Turned (.ok (tasks, world, progress)) (.ok (fresh, world.bare, progress))
  | exhausted : Turned (.error .exhausted) (.error .exhausted)

theorem Mirrors.turn (mirrors : tasks.Mirrors fresh) (blind : ∀ spawn, (start spawn).Blind)
    (world : World) : Turned (tasks.turn start world) (fresh.turn start world.bare) := by
  have enlisted := mirrors.enlist blind world
  have turned := runAll_mirrors enlisted.waiting (tasks.enlist start world).2
  have same : (fresh.enlist start world.bare).2 = (tasks.enlist start world).2.bare := rfl
  unfold Tasks.turn
  dsimp only
  rw [same]
  generalize runAll (tasks.enlist start world).2 (tasks.enlist start world).1.waiting = turn,
    runAll (tasks.enlist start world).2.bare (fresh.enlist start world.bare).1.waiting = freshTurn
    at turned
  cases turned with
  | @ok later waiting freshWaiting finished progress goes =>
    have after : Mirrors
        { (tasks.enlist start world).1 with
          waiting, finished := (tasks.enlist start world).1.finished ++ finished }
        { (fresh.enlist start world.bare).1 with
          waiting := freshWaiting
          finished := (fresh.enlist start world.bare).1.finished ++ finished } :=
      ⟨goes, by rw [enlisted.finished], enlisted.count⟩
    exact .ok (after.enlist blind later)
  | exhausted => exact .exhausted

theorem drive_mirrors (blind : ∀ spawn, (start spawn).Blind) (fuel : Nat) {outcome other : Outcome α}
    (outcomes : outcome.Mirrors other) (mirrors : tasks.Mirrors fresh) :
    (drive start fuel tasks outcome).Mirrors (drive start fuel fresh other) := by
  induction fuel generalizing tasks fresh outcome other with
  | zero =>
    cases outcomes with
    | done => exact .finished mirrors
    | fail => exact .finished mirrors
    | await => exact .exhausted
    | exhausted => exact .exhausted
  | succ fuel ih =>
    cases outcomes with
    | done => exact .finished mirrors
    | fail => exact .finished mirrors
    | exhausted => exact .exhausted
    | @await wait world resume freshResume goes =>
      have turned := mirrors.turn blind world
      unfold drive
      generalize tasks.turn start world = turn, fresh.turn start world.bare = freshTurn at turned
      cases turned with
      | exhausted => exact .exhausted
      | @ok tasks fresh later progress after =>
        have exchange : later.bare.exchange = later.exchange := rfl
        simp only [exchange]
        split
        · exact ih (goes later) after
        · split
          · exact ih (.await goes) after
          · exact .stuck after

theorem join_mirrors (blind : ∀ spawn, (start spawn).Blind) (fuel : Nat)
    (mirrors : tasks.Mirrors fresh) (world : World) :
    (join start isIdle fuel tasks world).Mirrors (join start isIdle fuel fresh world.bare) := by
  induction fuel generalizing tasks fresh world with
  | zero => exact .exhausted
  | succ fuel ih =>
    have enlisted := mirrors.enlist blind world
    have turned := enlisted.turn blind (tasks.enlist start world).2
    have idle : (fresh.enlist start world.bare).1.isIdle = (tasks.enlist start world).1.isIdle := by
      have waiting := enlisted.waiting
      unfold isIdle
      generalize (tasks.enlist start world).1.waiting = left,
        (fresh.enlist start world.bare).1.waiting = right at waiting
      cases waiting <;> rfl
    unfold join
    dsimp only
    rw [idle]
    split
    · exact .finished enlisted
    · have same : (fresh.enlist start world.bare).2 = (tasks.enlist start world).2.bare := rfl
      rw [same]
      generalize (tasks.enlist start world).1.turn start (tasks.enlist start world).2 = turn,
        (fresh.enlist start world.bare).1.turn start (tasks.enlist start world).2.bare = freshTurn
        at turned
      cases turned with
      | exhausted => exact .exhausted
      | @ok tasks fresh later progress after =>
        cases progress with
        | true => exact ih after later
        | false => exact .stuck after

end Tasks

namespace Interpreter

/-- The state of an interpreter, and of one without pools. -/
structure Mirrors (interpreter fresh : Interpreter) : Prop where
  world : fresh.world = interpreter.world.bare
  thread : fresh.thread = interpreter.thread
  natives : fresh.natives = interpreter.natives
  fileEnv : fresh.fileEnv = interpreter.fileEnv
  symbols : fresh.symbols = interpreter.symbols
  tasks : interpreter.tasks.Mirrors fresh.tasks
  unwatched : interpreter.watch = .never ∧ fresh.watch = .never
  blind : ∀ native ∈ interpreter.natives, native.function.Blind

inductive Request
  | define (native : Native)
  | load (fuel : Nat) (source : SourceFile)
  | call (fuel : Nat) (name : String) (args : List Value)
  | run (fuel : Nat)
  | wait (fuel : Nat)
  | global (name : String)
  | output
  | stats

inductive Answer
  | none
  | ended (result : Except HostError Unit)
  | results (result : Except HostError (List Value))
  | value (value : Option Value)
  | text (text : String)
  /-- Block environments entered and left, tasks started and failed. -/
  | counts (pushed popped spawned failed : Nat)

def serve (interpreter : Interpreter) : Request → Answer × Interpreter
  | .define native => (.none, interpreter.define native)
  | .load fuel source =>
    let (result, interpreter) := interpreter.load fuel source
    (.ended result, interpreter)
  | .call fuel name args =>
    let (result, interpreter) := interpreter.call fuel name args
    (.results result, interpreter)
  | .run fuel =>
    let (result, interpreter) := interpreter.run fuel
    (.ended result, interpreter)
  | .wait fuel =>
    let (result, interpreter) := interpreter.wait fuel
    (.ended result, interpreter)
  | .global name => (.value (interpreter.global? name), interpreter)
  | .output =>
    let (text, interpreter) := interpreter.takeOutput
    (.text text, interpreter)
  | .stats =>
    let world := interpreter.world
    (.counts world.pushed world.popped world.spawned world.failed, interpreter)

def serveAll (interpreter : Interpreter) : List Request → List Answer
  | [] => []
  | request :: rest =>
    let (answer, interpreter) := interpreter.serve request
    answer :: interpreter.serveAll rest

variable {interpreter fresh : Interpreter}

theorem Mirrors.host (mirrors : interpreter.Mirrors fresh) : fresh.host = interpreter.host := by
  rw [Interpreter.host, mirrors.natives]
  rfl

theorem Mirrors.natives_blind (mirrors : interpreter.Mirrors fresh) :
    ∀ function ∈ interpreter.host, HostFunction.Blind function := by
  intro function member
  obtain ⟨native, isNative, rfl⟩ := List.mem_map.mp member
  exact mirrors.blind native isNative

theorem Mirrors.runTask (mirrors : interpreter.Mirrors fresh) (fuel : Nat) :
    fresh.runTask fuel = interpreter.runTask fuel ∧ ∀ spawn, (interpreter.runTask fuel spawn).Blind := by
  simp only [Interpreter.runTask, mirrors.host, mirrors.unwatched.1, mirrors.unwatched.2, true_and]
  exact fun spawn => Machine.runTask_blind mirrors.natives_blind fuel spawn

def Agrees (answer fresh : α × Interpreter) : Prop := fresh.1 = answer.1 ∧ answer.2.Mirrors fresh.2

theorem Mirrors.perform (mirrors : interpreter.Mirrors fresh) (fuel : Nat) {run : Run α}
    (blind : run.Blind) : Agrees (interpreter.perform fuel run) (fresh.perform fuel run) := by
  obtain ⟨same, tasks⟩ := mirrors.runTask fuel
  have driven := Tasks.drive_mirrors tasks fuel (blind interpreter.world) mirrors.tasks
  unfold Interpreter.perform
  rw [same, mirrors.world]
  generalize
    Tasks.drive (interpreter.runTask fuel) fuel interpreter.tasks (run interpreter.world) = ending,
    Tasks.drive (interpreter.runTask fuel) fuel fresh.tasks (run interpreter.world.bare) = freshEnding
    at driven
  cases driven with
  | @finished result world tasks freshTasks after =>
    cases result <;> exact ⟨rfl, { mirrors with world := rfl, tasks := after }⟩
  | stuck after => exact ⟨rfl, { mirrors with world := rfl, tasks := after }⟩
  | exhausted => exact ⟨rfl, mirrors⟩

theorem Mirrors.wait (mirrors : interpreter.Mirrors fresh) (fuel : Nat) :
    Agrees (interpreter.wait fuel) (fresh.wait fuel) := by
  obtain ⟨same, tasks⟩ := mirrors.runTask fuel
  have joined := Tasks.join_mirrors tasks fuel mirrors.tasks interpreter.world
  unfold Interpreter.wait
  rw [same, mirrors.world]
  generalize Tasks.join (interpreter.runTask fuel) Tasks.isIdle fuel interpreter.tasks
      interpreter.world = ending,
    Tasks.join (interpreter.runTask fuel) Tasks.isIdle fuel fresh.tasks
      interpreter.world.bare = freshEnding at joined
  cases joined with
  | finished after => exact ⟨rfl, { mirrors with world := rfl, tasks := after }⟩
  | stuck after => exact ⟨rfl, { mirrors with world := rfl, tasks := after }⟩
  | exhausted => exact ⟨rfl, mirrors⟩

theorem storeNatives_blind (env : EnvRef) (symbols : List (String × Slot))
    (natives : List (Native × Nat)) : (storeNatives env symbols natives).Blind := by
  induction natives with
  | nil => exact .pure _
  | cons entry rest ih =>
    unfold storeNatives
    split
    · exact (Run.Blind.store _ _ _).bind fun _ => ih
    · exact ih

theorem Mirrors.enterFile (mirrors : interpreter.Mirrors fresh) (fuel : Nat) (file : CompiledFile) :
    fresh.enterFile fuel file = interpreter.enterFile fuel file ∧
      (interpreter.enterFile fuel file).Blind := by
  constructor
  · simp only [Interpreter.enterFile, mirrors.host, mirrors.thread, mirrors.natives,
      mirrors.unwatched.1, mirrors.unwatched.2]
  · have bodies := (Machine.call_blind mirrors.natives_blind fuel).2
    have acquires : (Run.update fun world => world.acquire interpreter.thread none file.program 0
        file.objects file.words).Blind := .update fun _ => World.acquire_bare _ _ _ _ _ _
    have sets (env : EnvRef) : (Run.modify (·.setFileEnv interpreter.thread env)).Blind :=
      .modify fun _ => World.updateThread_bare _ fun _ => rfl
    refine acquires.bind fun env => (sets env).bind fun _ =>
      (storeNatives_blind env file.symbols _).bind fun _ => Run.Blind.bind ?_ fun result => ?_
    · rw [mirrors.unwatched.1]
      exact (bodies env).attempt
    · cases result with
      | ok _ => exact .pure _
      | error error => exact (Run.Blind.drop _).bind fun _ => .fail _

theorem Mirrors.load (mirrors : interpreter.Mirrors fresh) (fuel : Nat) (source : SourceFile) :
    Agrees (interpreter.load fuel source) (fresh.load fuel source) := by
  unfold Interpreter.load
  dsimp only
  rw [mirrors.natives]
  split
  · exact ⟨rfl, mirrors⟩
  · next file compiled =>
    obtain ⟨same, blind⟩ := mirrors.enterFile fuel file
    have performed := mirrors.perform fuel blind
    rw [same]
    generalize interpreter.perform fuel (interpreter.enterFile fuel file) = answer,
      fresh.perform fuel (interpreter.enterFile fuel file) = freshAnswer at performed
    obtain ⟨result, later⟩ := answer
    obtain ⟨freshResult, freshLater⟩ := freshAnswer
    obtain ⟨rfl, after⟩ := performed
    cases freshResult with
    | error error => exact ⟨rfl, after⟩
    | ok env =>
      refine ⟨rfl, { after with world := ?_, fileEnv := rfl, symbols := rfl }⟩
      dsimp only
      rw [after.fileEnv, after.world]
      cases later.fileEnv with
      | none => rfl
      | some former => exact World.drop_bare former

theorem Mirrors.global? (mirrors : interpreter.Mirrors fresh) (name : String) :
    fresh.global? name = interpreter.global? name := by
  simp only [Interpreter.global?, mirrors.fileEnv, mirrors.symbols, mirrors.world]
  rfl

theorem Mirrors.call (mirrors : interpreter.Mirrors fresh) (fuel : Nat) (name : String)
    (args : List Value) : Agrees (interpreter.call fuel name args) (fresh.call fuel name args) := by
  unfold Interpreter.call
  rw [mirrors.fileEnv, mirrors.global?, mirrors.host, mirrors.thread, mirrors.unwatched.1,
    mirrors.unwatched.2]
  split
  · exact ⟨rfl, mirrors⟩
  · split
    · exact mirrors.perform fuel ((Machine.call_blind mirrors.natives_blind fuel).1 _ _)
    · exact ⟨rfl, mirrors⟩

theorem Mirrors.run (mirrors : interpreter.Mirrors fresh) (fuel : Nat) :
    Agrees (interpreter.run fuel) (fresh.run fuel) := by
  obtain ⟨sameResult, called⟩ := mirrors.call fuel "main" []
  obtain ⟨sameEnd, waited⟩ := called.wait fuel
  unfold Interpreter.run
  dsimp only
  generalize (interpreter.call fuel "main" []).2.wait fuel = answer,
    (fresh.call fuel "main" []).2.wait fuel = freshAnswer at sameEnd waited
  obtain ⟨result, later⟩ := answer
  obtain ⟨freshResult, freshLater⟩ := freshAnswer
  subst sameEnd
  cases freshResult with
  | ok _ => exact ⟨congrArg (Except.map fun _ => ()) sameResult, waited⟩
  | error error => exact ⟨rfl, waited⟩

theorem Mirrors.serve (mirrors : interpreter.Mirrors fresh) (request : Request)
    (blind : ∀ native, request = .define native → native.function.Blind) :
    Agrees (interpreter.serve request) (fresh.serve request) := by
  cases request with
  | define native =>
    refine ⟨rfl, { mirrors with natives := ?_, blind := fun other member => ?_ }⟩
    · exact congrArg (· ++ [native]) mirrors.natives
    · rcases List.mem_append.mp member with older | newer
      · exact mirrors.blind other older
      · exact List.mem_singleton.mp newer ▸ blind native rfl
  | load fuel source =>
    obtain ⟨same, after⟩ := mirrors.load fuel source
    exact ⟨congrArg Answer.ended same, after⟩
  | call fuel name args =>
    obtain ⟨same, after⟩ := mirrors.call fuel name args
    exact ⟨congrArg Answer.results same, after⟩
  | run fuel =>
    obtain ⟨same, after⟩ := mirrors.run fuel
    exact ⟨congrArg Answer.ended same, after⟩
  | wait fuel =>
    obtain ⟨same, after⟩ := mirrors.wait fuel
    exact ⟨congrArg Answer.ended same, after⟩
  | global name => exact ⟨congrArg Answer.value (mirrors.global? name), mirrors⟩
  | output =>
    refine ⟨?_, { mirrors with world := ?_ }⟩
    · simp only [Interpreter.serve, takeOutput, mirrors.world]
      rfl
    · simp only [Interpreter.serve, takeOutput, mirrors.world]
      rfl
  | stats =>
    refine ⟨?_, mirrors⟩
    simp only [Interpreter.serve, mirrors.world]
    rfl

theorem Mirrors.serveAll (mirrors : interpreter.Mirrors fresh) {requests : List Request}
    (blind : ∀ native, .define native ∈ requests → native.function.Blind) :
    fresh.serveAll requests = interpreter.serveAll requests := by
  induction requests generalizing interpreter fresh with
  | nil => rfl
  | cons request rest ih =>
    obtain ⟨same, after⟩ := mirrors.serve request fun native isDefine =>
      blind native (by simp [isDefine])
    have others := ih after fun native member => blind native (List.mem_cons_of_mem _ member)
    simp only [Interpreter.serveAll, same, others]

theorem new_mirrors (options : Options) :
    (Interpreter.new options).Mirrors (.new { options with trace := false, poolCapacity := 0 }) where
  world := by simp [Interpreter.new, World.newThread, World.bare, Thread.bare]
  thread := rfl
  natives := rfl
  fileEnv := rfl
  symbols := rfl
  tasks := ⟨.nil, rfl, rfl⟩
  unwatched := ⟨rfl, rfl⟩
  blind := by simp [Interpreter.new]

end Interpreter

namespace World

variable {world : World} {thread : ThreadRef} {ref : EnvRef}

theorem isAlive_released (other : EnvRef) (dead : world.isAlive ref = false) :
    (world.updateEnv other fun env => { env with holders := env.holders - 1 }).isAlive ref = false := by
  simp only [isAlive, env?_updateEnv] at dead ⊢
  split
  · cases found : world.env? ref with
    | none => rfl
    | some env =>
      simp only [found, Option.any_some, Option.map_some, decide_eq_false_iff_not] at dead ⊢
      omega
  · exact dead

theorem isAlive_dropWithin (other : EnvRef) (depth : Nat) (dead : world.isAlive ref = false) :
    (dropWithin other world depth).isAlive ref = false := by
  induction depth generalizing world other with
  | zero => exact dead
  | succ depth ih =>
    have released := isAlive_released other dead
    unfold dropWithin
    split
    · exact dead
    · dsimp only
      split
      · split
        · exact ih _ released
        · exact released
      · exact released

theorem threads_dropWithin (other : EnvRef) (depth : Nat) :
    (dropWithin other world depth).threads = world.threads := by
  induction depth generalizing world other with
  | zero => rfl
  | succ depth ih =>
    unfold dropWithin
    split
    · rfl
    · dsimp only
      split
      · split
        · exact ih _
        · rfl
      · rfl

theorem isAlive_drop {env : Env} (found : world.env? ref = some env) (last : env.holders ≤ 1) :
    (world.drop ref).isAlive ref = false := by
  have released : (world.updateEnv ref fun env => { env with holders := env.holders - 1 }).isAlive
      ref = false := by
    simp only [isAlive, env?_updateEnv, found, if_true, Option.map_some, Option.any_some,
      decide_eq_false_iff_not]
    omega
  unfold drop dropWithin
  simp only [found]
  split
  · split
    · exact isAlive_dropWithin _ _ released
    · exact released
  · exact released

theorem isAlive_of_kept (kept : world.pooled thread < (world.recycle thread ref).pooled thread) :
    (world.recycle thread ref).isAlive ref = false := by
  have dropped : (world.drop ref).pooled thread = world.pooled thread := by
    simp only [pooled, World.thread, drop, threads_dropWithin]
  unfold recycle at kept ⊢
  cases found : world.env? ref with
  | none => simp [found] at kept
  | some env =>
    simp only [found] at kept ⊢
    split
    · next keep =>
      simp only [Bool.and_eq_true, decide_eq_true_eq] at keep
      exact isAlive_drop found keep.1
    · next keep =>
      rw [if_neg keep, dropped] at kept
      exact absurd kept (Nat.lt_irrefl _)

theorem slots_acquire (thread : ThreadRef) (outer : Option EnvRef) (program : Program)
    (ip objects words : Nat) :
    let acquired := world.acquire thread outer program ip objects words
    (acquired.2.env? acquired.1).map (·.slots) = some (.fresh objects words) := by
  obtain ⟨middle, alike, same⟩ := world.acquire_spec thread outer program ip objects words
  simp [same, env?, ← alike.size]

end World

/-- The reuse of slots cannot be seen. A host that asks two interpreters for the same things gets the
same answers, and the same values, output and counts, if their settings differ at most in the size of
the pools and in tracing. A new environment has nothing in its slots, wherever these come from, and
slots go to a pool only from an environment that nobody holds any more. -/
theorem reuse_unseen {left right : Options} (capture : left.captureOutput = right.captureOutput)
    {requests : List Interpreter.Request}
    (blind : ∀ native, .define native ∈ requests → native.function.Blind) :
    (Interpreter.new left).serveAll requests = (Interpreter.new right).serveAll requests ∧
    (∀ (world : World) (thread : ThreadRef) (outer : Option EnvRef) (program : Program)
      (ip objects words : Nat),
      let acquired := world.acquire thread outer program ip objects words
      (acquired.2.env? acquired.1).map (·.slots) = some (.fresh objects words)) ∧
    ∀ (world : World) (thread : ThreadRef) (ref : EnvRef),
      world.pooled thread < (world.recycle thread ref).pooled thread →
      (world.recycle thread ref).isAlive ref = false := by
  have same : ({ left with trace := false, poolCapacity := 0 } : Options) =
      { right with trace := false, poolCapacity := 0 } := by rw [capture]
  have lefts := (Interpreter.new_mirrors left).serveAll blind
  have rights := (Interpreter.new_mirrors right).serveAll blind
  rw [same] at lefts
  exact ⟨lefts.symm.trans rights, fun world => World.slots_acquire, fun _ _ _ => World.isAlive_of_kept⟩

/-- A program with two blocks, one after the other, that calls a function of the host. -/
def twoBlocks : SourceFile :=
  let define (name : String) (value : Expr) : Stmt := .assign [.ident ⟨name, {}⟩] .define [value] {}
  let call (name : String) (arg : Expr) : Expr := .call (.ident ⟨name, {}⟩) [arg] false {}
  [.func ⟨"main", {}⟩ {} (.mk
    [.block (.mk [define "x" (.int 1 {}), .expr (call "println" (.ident ⟨"x", {}⟩))] {}),
      .block (.mk [define "y" (call "double" (.int 2 {})),
        .expr (call "println" (.ident ⟨"y", {}⟩))] {})] {}) {}]

def doubling : Native := ⟨"double", ⟨[.int], [.int], false⟩, .double⟩

def twoBlocksRequests : List Interpreter.Request :=
  [.define doubling, .load 60 twoBlocks, .run 60, .output, .stats]

def twoBlocksRan (options : Options) : Interpreter :=
  ((((Interpreter.new options).define doubling).load 60 twoBlocks).2.run 60).2

/-- The second block gets the slots of the first one, unless nothing is kept. -/
theorem reuse_unseen_blocks :
    (Interpreter.new { captureOutput := true }).serveAll twoBlocksRequests =
      (Interpreter.new { captureOutput := true, poolCapacity := 0, trace := true }).serveAll
        twoBlocksRequests ∧
    (twoBlocksRan { captureOutput := true }).world.output = "1\n4\n" ∧
    (twoBlocksRan { captureOutput := true }).world.pooled ⟨0⟩ = 2 ∧
    (twoBlocksRan { captureOutput := true, poolCapacity := 0 }).world.pooled ⟨0⟩ = 0 := by
  have blind (native : Native) (member : .define native ∈ twoBlocksRequests) :
      native.function.Blind := by
    simp only [twoBlocksRequests, List.mem_cons, Interpreter.Request.define.injEq, reduceCtorEq,
      List.not_mem_nil, or_false] at member
    exact member ▸ HostFunction.double_blind
  have same := @reuse_unseen { captureOutput := true }
    { captureOutput := true, poolCapacity := 0, trace := true } rfl twoBlocksRequests blind
  exact ⟨same.1, by decide +kernel, by decide +kernel, by decide +kernel⟩

end MiniGo
