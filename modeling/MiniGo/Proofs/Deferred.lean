import MiniGo.Interpreter
import MiniGo.Proofs.Idle
/-!
Deferred calls. The executor learns of a deferred call through a signal and a place with the thread
that holds one call. `Direct` describes the same activation without either: the body keeps the calls
that its own statements defer on a stack. The main statement is that an activation behaves as this
description says.
-/

namespace MiniGo

/-- The failure of a body that stops with a signal for which nothing was left with the thread. -/
def Signal.unexplained? : Signal → Option RuntimeError
  | .none | .ret => Option.none
  | .defer => some (.internal "defer signal without a pending call")
  | .panic => some (.internal "panic signal without a pending error")

namespace Direct

mutual

/-- Runs the body of an activation from the current instruction of its environment, with the calls
it has deferred so far, the last one first. -/
def body (host : Host) : Nat → EnvRef → List Invocation → Run Stopped
  | 0, _, _ => Run.exhausted
  | fuel + 1, env, deferred => do
    match ← Run.read (·.instr? env) with
    | none => pure ⟨env, deferred, none⟩
    | some .stop => pure ⟨env, deferred, none⟩
    | some (.interrupt signal) => pure ⟨env, deferred, signal.unexplained?⟩
    | some (.ret hops results values) => do
      let stored ← Run.attempt do
        let values ← evalValues (Machine.call host fuel) env values
        let target ← Run.read (·.up env hops)
        Step.storeSlots target results values
      match stored with
      | .ok () => pure ⟨env, deferred, none⟩
      | .error error => pure ⟨env, deferred, some error⟩
    | some (.defer node) => do
      match ← Run.attempt (evalCall (Machine.call host fuel) env node) with
      | .ok invocation => do
        Run.modify fun world => world.setIp env (world.ip env + 1)
        afterDefer host fuel env (invocation :: deferred)
      | .error error => pure ⟨env, deferred, some error⟩
    | some instr => do
      match ← Run.attempt (Step.run (Machine.call host fuel) fuel env instr) with
      | .ok (_, env) => body host fuel env deferred
      | .error error => pure ⟨env, deferred, some error⟩

def afterDefer (host : Host) : Nat → EnvRef → List Invocation → Run Stopped
  | 0, _, _ => Run.exhausted
  | fuel + 1, env, deferred => body host fuel env deferred

end

/-- Makes calls one after the other, whether they fail or not, and gives the failures. -/
def callEach (call : Caller) (thread : ThreadRef) : List Invocation → Run (List RuntimeError)
  | [] => pure []
  | invocation :: rest => do
    let result ← Run.attempt (call thread invocation)
    let failures ← callEach call thread rest
    match result with
    | .ok _ => pure failures
    | .error error => pure (error :: failures)

/-- The body of an activation from its first instruction to the last deferred call. When the body has
stopped, its block environments are left and the calls on its stack are made, all on the thread of
the activation. It fails with the last failure of these, or else with that of the body. -/
def execution (host : Host) (fuel : Nat) (thread : ThreadRef) (env : EnvRef) : Run Unit := do
  Run.modify (·.retain env)
  let stopped ← body host fuel env []
  let left ← Run.update (·.unwind env stopped.env)
  Run.modify (·.drop left)
  let failures ← callEach (Machine.call host fuel) thread stopped.deferred
  match failures.getLast?.or stopped.failure with
  | some error => Run.fail error
  | none => pure ()

/-- An activation of a compiled function. If it does not fail, it gives what its result slots hold
in the end. -/
def activation (host : Host) (fuel : Nat) (template : Template) (outer : EnvRef) (thread : ThreadRef)
    (args : List Value) : Run (List Value) := do
  let env ← Run.update
    (·.acquire thread (some outer) template.program 0 template.objects template.words)
  Step.storeInit env template.params args
  Machine.storeZeros env template.results
  match ← Run.attempt (execution host fuel thread env) with
  | .error error => do
    Run.modify (·.drop env)
    Run.fail error
  | .ok () => do
    let results ← Run.read fun world => template.results.map (world.load env)
    Run.modify (·.recycle thread env)
    pure results

end Direct

/-- The same outcome, unless the first is broken off. While both wait, others leave nothing with any
thread. -/
inductive Outcome.Follows {α : Type} : Outcome α → Outcome α → Prop
  | done (value : α) (world : World) : Follows (.done value world) (.done value world)
  | fail (error : RuntimeError) (world : World) : Follows (.fail error world) (.fail error world)
  | await (wait : Wait) (world : World) {first second : World → Outcome α} :
    (∀ later, later.Tidy world.threads.size → (first later).Follows (second later)) →
    Follows (.await wait world first) (.await wait world second)
  | broken (reason : Broken) (outcome : Outcome α) : Follows (.broken reason) outcome

namespace Outcome.Follows

variable {α β : Type} {first second : Outcome α}

theorem tidy {post : World → α → Prop} {count : Nat} (follows : first.Follows second)
    (isTidy : second.Tidy post count) : first.Tidy post count := by
  induction follows generalizing count with
  | done value world => exact isTidy
  | fail error world => exact isTidy
  | await wait world _ ih =>
    exact ⟨isTidy.1, fun later laterTidy => ih later laterTidy (isTidy.2 later laterTidy)⟩
  | broken reason outcome => exact trivial

theorem bind {post : World → α → Prop} {count : Nat} {next other : α → World → Outcome β}
    (follows : first.Follows second) (isTidy : second.Tidy post count)
    (goes : ∀ bound world value, count ≤ bound → world.Tidy bound → post world value →
      (next value world).Follows (other value world)) :
    (first.bind next).Follows (second.bind other) := by
  induction follows generalizing count with
  | done value world => exact goes count world value (Nat.le_refl _) isTidy.1 isTidy.2
  | fail error world => exact .fail error world
  | await wait world _ ih =>
    refine .await wait world fun later laterTidy => ih later laterTidy (isTidy.2 later laterTidy) ?_
    intro bound world value le
    exact goes bound world value (Nat.le_trans isTidy.1.count le)
  | broken reason outcome => exact .broken reason _

theorem attempt (follows : first.Follows second) : first.attempt.Follows second.attempt := by
  induction follows with
  | done value world => exact .done _ world
  | fail error world => exact .done _ world
  | await wait world _ ih => exact .await wait world ih
  | broken reason outcome => exact .broken reason _

theorem refl (outcome : Outcome α) : outcome.Follows outcome := by
  induction outcome with
  | done value world => exact .done value world
  | fail error world => exact .fail error world
  | await wait world resume ih => exact .await wait world fun later _ => ih later
  | broken reason => exact .broken reason _

end Outcome.Follows

def InstrOf.isOrdinary {τ : Type} : InstrOf τ → Bool
  | .stop | .interrupt _ | .ret .. | .defer _ => false
  | _ => true

def Run.Lands (run : Run Next) (count : Nat) : Prop :=
  ∀ bound world, count ≤ bound → world.Tidy bound →
    (run world).Tidy (fun world next => next.1 = world.instr? next.2) bound

namespace Run

variable {α : Type} {count : Nat}

theorem Tidy.lands {run : Run α} {next : α → Run Next} (tidy : run.Tidy count)
    (goes : ∀ value, (next value).Lands count) : (run >>= next).Lands count := by
  intro bound world le isTidy
  show (Run.bind run next world).Tidy _ bound
  rw [Run.bind_apply]
  refine (tidy bound world le isTidy).bind fun bound' world' value le' isTidy' _ => ?_
  exact goes value bound' world' (Nat.le_trans le le') isTidy'

theorem Lands.threadOf (env : EnvRef) {next : ThreadRef → Run Next}
    (goes : ∀ thread : ThreadRef, (next thread).Lands (max count (thread.index + 1))) :
    (Run.read (·.threadOf env) >>= next).Lands count := by
  intro bound world le isTidy
  have inside := isTidy.envs env
  have all := goes (world.threadOf env) world.threads.size world
    (Nat.max_le.mpr ⟨Nat.le_trans le isTidy.count, inside⟩) isTidy.all
  exact all.weaken isTidy.count

theorem fail_lands (error : RuntimeError) : (Run.fail error : Run Next).Lands count :=
  fun _ _ _ isTidy => isTidy

end Run

namespace Step

variable {call : Caller} {count : Nat}

theorem goto_lands (env : EnvRef) (position : Nat) : (goto env position).Lands count :=
  fun _ _ _ isTidy => ⟨isTidy.updateEnv env fun _ => rfl, rfl⟩

theorem advance_lands (env : EnvRef) : (advance env).Lands count :=
  fun _ _ _ isTidy => ⟨isTidy.updateEnv env fun _ => rfl, rfl⟩

theorem storeSlots_tidy (env : EnvRef) (slots : List Slot) (values : List Value) :
    (storeSlots env slots values).Tidy count := by
  induction slots generalizing values with
  | nil => exact .pure _
  | cons slot slots ih =>
    cases values with
    | nil => exact .pure _
    | cons value values => exact (Run.Tidy.store env slot value).bind fun _ => ih values

theorem storeInit_tidy (env : EnvRef) (slots : List (Option Slot)) (values : List Value) :
    (storeInit env slots values).Tidy count := by
  induction slots generalizing values with
  | nil => exact .pure _
  | cons slot slots ih =>
    cases values with
    | nil => cases slot <;> exact .pure _
    | cons value values =>
      cases slot with
      | none => exact ih values
      | some slot => exact (Run.Tidy.store env slot value).bind fun _ => ih values

theorem findCase_tidy (tidy : call.Tidy) (env : EnvRef) (tag : Value) (fallback : Nat)
    (cases : List (Code × Nat)) : (findCase call env tag fallback cases).Tidy count := by
  induction cases with
  | nil => exact .pure _
  | cons entry rest ih =>
    refine (eval_tidy tidy env entry.1).bind fun value => ?_
    split
    · exact .pure _
    · exact ih

theorem adopt_tidy (env : EnvRef) (pairs : List (Slot × Slot)) : (adopt env pairs).Tidy count := by
  induction pairs with
  | nil => exact .pure _
  | cons pair rest ih =>
    exact (Run.Tidy.read _).bind fun value => (Run.Tidy.store env pair.2 value).bind fun _ => ih

theorem park_tidy (env : EnvRef) (parked : Option (Slot × Slot)) (received : Option (Value × Bool)) :
    (park env parked received).Tidy count := by
  unfold park
  split
  · exact (Run.Tidy.store _ _ _).bind fun _ => .store _ _ _
  · exact .pure _

end Step

theorem World.Tidy.newThread {world : World} {count : Nat} (tidy : world.Tidy count) {thread : Thread}
    (left : thread.left = (.none, none, none)) : (world.newThread thread).2.Tidy count := by
  have more : world.threads.size ≤ (world.threads.push thread).size := by simp
  refine ⟨Nat.le_trans tidy.count more, fun ref => ?_, fun ref => Nat.lt_of_lt_of_le (tidy.envs ref) more,
    fun spawn member => Nat.lt_of_lt_of_le (tidy.pending spawn member) more⟩
  have old := tidy.idle ref
  simp only [World.newThread, World.thread, Array.getD_eq_getD_getElem?, Array.getElem?_push] at old ⊢
  split
  · exact left
  · exact old

theorem World.Tidy.push {world : World} {count : Nat} (tidy : world.Tidy count) (ref : EnvRef)
    (objects words : Nat) : (world.push ref objects words).2.Tidy count := by
  unfold World.push
  cases found : world.env? ref with
  | none => exact tidy
  | some env =>
    have inside := tidy.envs ref
    simp only [World.threadOf, found] at inside
    have counted : ({ world with entered := ⟨world.envs.size⟩ :: world.entered } : World).Tidy count :=
      tidy.same rfl rfl fun _ => rfl
    exact counted.acquire inside _ _ _ _ _

theorem World.Tidy.pop {world : World} {count : Nat} (tidy : world.Tidy count) (ref : EnvRef) :
    (world.pop ref).2.Tidy count := by
  unfold World.pop
  cases world.outer? ref with
  | none => exact tidy
  | some outer =>
    have moved : (world.setIp outer (world.ip ref)).Tidy count := tidy.updateEnv outer fun _ => rfl
    exact moved.leaves ⟨[ref], World.alike_releaseTo _ ref outer⟩

theorem Run.Tidy.makes {α : Type} {change : World → ThreadRef × World} {next : ThreadRef → Run α}
    {count : Nat} (keeps : ∀ bound world, world.Tidy bound →
      (change world).2.Tidy bound ∧ (change world).1.index < (change world).2.threads.size)
    (goes : ∀ thread : ThreadRef, (next thread).Tidy (max count (thread.index + 1))) :
    (Run.update change >>= next).Tidy count := by
  intro bound world le isTidy
  obtain ⟨changed, inside⟩ := keeps bound world isTidy
  have all := goes (change world).1 (change world).2.threads.size (change world).2
    (Nat.max_le.mpr ⟨Nat.le_trans le changed.count, inside⟩) changed.all
  exact all.weaken changed.count

namespace Step

variable {call : Caller} {count : Nat}

/-- Evaluating the operands of a task leaves nothing with the thread that starts it, nor with the one
that is made for it. -/
theorem spawn_tidy (tidy : call.Tidy) (env : EnvRef) (node : Call) :
    (spawn call env node).Tidy count := by
  refine Run.Tidy.makes (fun bound world isTidy => ?_) fun thread => ?_
  · exact ⟨isTidy.newThread rfl, by simp [World.spawnThread, World.newThread]⟩
  have made {bound : Nat} {world : World} (le : max count (thread.index + 1) ≤ bound)
      (isTidy : world.Tidy bound) : thread.index < world.threads.size :=
    Nat.le_trans (Nat.le_trans (Nat.le_max_right _ _) le) isTidy.count
  refine (Run.Tidy.update fun bound world le isTidy =>
    isTidy.acquire (made le isTidy) _ _ _ _ _).bind fun operands => ?_
  refine (evalCall_tidy tidy operands node).attempt.bind fun evaluated => ?_
  refine (Run.Tidy.modify fun _ world _ isTidy =>
    isTidy.alike (world.alike_drop operands)).bind fun _ => ?_
  refine (Run.Tidy.ofExcept evaluated).bind fun invocation => ?_
  refine .modify fun bound world le isTidy => ?_
  have inside := made le isTidy
  refine ⟨isTidy.count, isTidy.idle, isTidy.envs, fun spawn member => ?_⟩
  rcases List.mem_append.mp member with old | new
  · exact isTidy.pending spawn old
  · obtain rfl := List.mem_singleton.mp new
    exact inside

/-- An ordinary instruction leaves nothing with any thread, and names the instruction which its
environment is at. -/
theorem run_lands (tidy : call.Tidy) (fuel : Nat) (env : EnvRef) {instr : Instr}
    (ordinary : instr.isOrdinary = true) : (run call fuel env instr).Lands count := by
  cases instr with
  | skip => exact advance_lands env
  | stop => simp [InstrOf.isOrdinary] at ordinary
  | interrupt signal => simp [InstrOf.isOrdinary] at ordinary
  | raise error => exact Run.fail_lands error
  | eval values => exact (evalValues_tidy tidy env values).lands fun _ => advance_lands env
  | goto position => exact goto_lands env position
  | jumpUnless cond position =>
    refine (eval_tidy tidy env cond).lands fun _ => (Run.Tidy.ofExcept _).lands fun holds => ?_
    split
    · exact advance_lands env
    · exact goto_lands env position
  | push objects words =>
    refine (Run.Tidy.update fun _ world _ isTidy => isTidy.push env objects words).lands fun inner => ?_
    refine (Run.Tidy.modify fun _ world _ isTidy => isTidy.alike (world.alike_drop env)).lands
      fun _ => advance_lands inner
  | pop =>
    exact (Run.Tidy.update fun _ world _ isTidy => isTidy.pop env).lands fun outer =>
      advance_lands outer
  | leave hops dest =>
    exact (Run.Tidy.update fun _ world _ isTidy => isTidy.leaves (world.leaves_leave env hops)).lands
      fun outer => goto_lands outer _
  | ret hops results values => simp [InstrOf.isOrdinary] at ordinary
  | defer node => simp [InstrOf.isOrdinary] at ordinary
  | go node => exact (spawn_tidy tidy env node).lands fun _ => advance_lands env
  | send channel value =>
    exact (eval_tidy tidy env channel).lands fun _ => (eval_tidy tidy env value).lands fun _ =>
      (Run.Tidy.sendTo _ _).lands fun _ => advance_lands env
  | assign places values =>
    exact (Location.ofPlaces_tidy tidy env places).lands fun _ =>
      (evalValues_tidy tidy env values).lands fun _ => (Location.storeAll_tidy _ _).lands fun _ =>
        advance_lands env
  | update op place operand =>
    exact (Location.ofPlace_tidy tidy env place).lands fun location => location.load_tidy.lands
      fun _ => (eval_tidy tidy env operand).lands fun _ => (Run.Tidy.ofExcept _).lands fun _ =>
        (location.store_tidy _).lands fun _ => advance_lands env
  | init slots values =>
    exact (evalValues_tidy tidy env values).lands fun _ => (storeInit_tidy env slots _).lands fun _ =>
      advance_lands env
  | bind slot template =>
    exact (Run.Tidy.closure template env).lands fun _ => (Run.Tidy.store env slot _).lands fun _ =>
      advance_lands env
  | callInit template =>
    refine (Run.Tidy.closure template env).lands fun function => .threadOf env fun thread => ?_
    have calls := (tidy thread ⟨function, [], false⟩).weaken (Nat.le_max_right count _)
    exact calls.lands fun _ => advance_lands env
  | switch tag cases fallback =>
    exact (eval_tidy tidy env tag).lands fun _ => (findCase_tidy tidy env _ fallback cases).lands
      fun position => goto_lands env position
  | typeSwitch subject cases fallback parked =>
    refine (eval_tidy tidy env subject).lands fun value => ?_
    cases parked with
    | none => exact (Run.Tidy.pure ()).lands fun _ => goto_lands env _
    | some slot => exact (Run.Tidy.store env slot value).lands fun _ => goto_lands env _
  | select comms fallback parked =>
    refine (evalComms_tidy tidy env _).lands fun cases => (Run.Tidy.select fuel cases _).lands
      fun selected => ?_
    cases selected with
    | case index received => exact (park_tidy env parked received).lands fun _ => goto_lands env _
    | default => exact goto_lands env _
  | adopt pairs => exact (adopt_tidy env pairs).lands fun _ => advance_lands env
  | unpark parked value flag =>
    exact (Location.ofPlace_tidy tidy env value).lands fun target =>
      (Location.ofPlaces_tidy tidy env _).lands fun flags => (Run.Tidy.read _).lands fun _ =>
        (target.store_tidy _).lands fun _ => (Run.Tidy.read _).lands fun _ =>
          (Location.storeAll_tidy flags _).lands fun _ => advance_lands env
  | rangeStart kind key state subject =>
    exact (eval_tidy tidy env subject).lands fun value => (state.start_tidy kind key env value).lands
      fun _ => advance_lands env
  | rangeNext kind state key value exit =>
    refine (state.next_tidy kind env).lands fun found => ?_
    cases found with
    | none => exact goto_lands env exit
    | some item =>
      exact (storeTarget_tidy tidy env key item.1).lands fun _ =>
        (storeTarget_tidy tidy env value item.2).lands fun _ => advance_lands env
  | rangeStep state => exact (state.advance_tidy env).lands fun _ => advance_lands env

end Step

namespace World

variable {world : World} {thread : ThreadRef}

theorem updateThread_self {change : Thread → Thread}
    (same : change (world.thread thread) = world.thread thread) :
    world.updateThread thread change = world := by
  have kept : world.threads.modify thread.index change = world.threads := by
    apply Array.ext (Array.size_modify ..)
    intro index inside _
    rw [Array.getElem_modify]
    split
    · next here =>
      subst here
      simpa [World.thread, Array.getD, Array.size_modify ▸ inside] using same
    · rfl
  rw [updateThread, kept]

theorem updateThread_twice (first second : Thread → Thread) :
    (world.updateThread thread first).updateThread thread second =
      world.updateThread thread (second ∘ first) := by
  have composed : (world.threads.modify thread.index first).modify thread.index second =
      world.threads.modify thread.index (second ∘ first) := by
    apply Array.ext (by simp)
    intro index _ _
    simp only [Array.getElem_modify]
    split <;> rfl
  rw [updateThread, updateThread, updateThread, composed]

theorem thread_updateThread_here (inside : thread.index < world.threads.size)
    (change : Thread → Thread) :
    (world.updateThread thread change).thread thread = change (world.thread thread) := by
  rw [thread_updateThread, if_pos ⟨rfl, inside⟩]

theorem takeSignal_raise (inside : thread.index < world.threads.size) (signal : Signal) :
    (world.raise thread signal).takeSignal thread =
      (signal, world.updateThread thread ({ · with signal := .none })) := by
  rw [takeSignal, raise, thread_updateThread_here inside, updateThread_twice]
  rfl

theorem takeDefer_installDefer (inside : thread.index < world.threads.size) (call : Invocation) :
    (world.installDefer thread call).takeDefer thread =
      (some call, world.updateThread thread ({ · with deferred := none })) := by
  rw [takeDefer, installDefer, thread_updateThread_here inside, updateThread_twice]
  rfl

theorem takePanic_setPanic (inside : thread.index < world.threads.size) (error : RuntimeError) :
    (world.setPanic thread error).takePanic thread =
      (some error, world.updateThread thread ({ · with panic := none })) := by
  rw [takePanic, setPanic, thread_updateThread_here inside, updateThread_twice]
  rfl

end World

/-- Nothing is left with the thread of an environment. -/
structure World.Idle (world : World) (env : EnvRef) : Prop where
  inside : (world.threadOf env).index < world.threads.size
  left : (world.thread (world.threadOf env)).left = (.none, none, none)

theorem World.Tidy.idleAt {world : World} {bound : Nat} (tidy : world.Tidy bound) (env : EnvRef) :
    world.Idle env := ⟨tidy.envs env, tidy.idle _⟩

namespace World.Idle

variable {world : World} {env : EnvRef} (idle : world.Idle env)

include idle

theorem fields : (world.thread (world.threadOf env)).signal = .none ∧
    (world.thread (world.threadOf env)).deferred = none ∧
    (world.thread (world.threadOf env)).panic = none := by
  simpa [Thread.left] using idle.left

theorem without_signal :
    world.updateThread (world.threadOf env) ({ · with signal := .none }) = world := by
  obtain ⟨signal, -, -⟩ := idle.fields
  exact updateThread_self (by simp [← signal])

theorem without_defer :
    world.updateThread (world.threadOf env) ({ · with deferred := none }) = world := by
  obtain ⟨-, deferred, -⟩ := idle.fields
  exact updateThread_self (by simp [← deferred])

theorem without_panic :
    world.updateThread (world.threadOf env) ({ · with panic := none }) = world := by
  obtain ⟨-, -, panic⟩ := idle.fields
  exact updateThread_self (by simp [← panic])

end World.Idle

namespace Machine

section Settle

variable {found later last : World} {thread : ThreadRef} {env : EnvRef}
  {resume : Option Instr → Invocation → Run Stopped} {deferred : List Invocation}

theorem settle_ended {signal : Signal} (threadOf : found.threadOf env = thread)
    (taken : found.takeSignal thread = (signal, later)) (ended : signal = .none ∨ signal = .ret) :
    settle resume env deferred found = .done ⟨env, deferred, none⟩ later := by
  simp only [settle, bind, Run.bind, Run.read, Run.update, threadOf, taken]
  rcases ended with rfl | rfl <;> rfl

theorem settle_deferred {call? : Option Invocation} (threadOf : found.threadOf env = thread)
    (taken : found.takeSignal thread = (.defer, later))
    (pending : later.takeDefer thread = (call?, last)) :
    settle resume env deferred found =
      match call? with
      | some invocation => resume (last.instr? env) invocation last
      | none => .done ⟨env, deferred, Signal.defer.unexplained?⟩ last := by
  simp only [settle, bind, Run.bind, Run.read, Run.update, threadOf, taken, pending]
  cases call? <;> rfl

theorem settle_panicked {error? : Option RuntimeError} (threadOf : found.threadOf env = thread)
    (taken : found.takeSignal thread = (.panic, later))
    (pending : later.takePanic thread = (error?, last)) :
    settle resume env deferred found =
      .done ⟨env, deferred, error?.or Signal.panic.unexplained?⟩ last := by
  simp only [settle, bind, Run.bind, Run.read, Run.update, threadOf, taken, pending]
  cases error? <;> rfl

end Settle

section Idle

variable {world : World} {env : EnvRef} (idle : world.Idle env)
  (resume : Option Instr → Invocation → Run Stopped) (deferred : List Invocation)

include idle

theorem settle_signal (signal : Signal) :
    settle resume env deferred (world.raise (world.threadOf env) signal) =
      .done ⟨env, deferred, signal.unexplained?⟩ world := by
  have taken := World.takeSignal_raise idle.inside signal
  rw [idle.without_signal] at taken
  obtain ⟨-, noCall, noPanic⟩ := idle.fields
  cases signal with
  | none => exact settle_ended rfl taken (.inl rfl)
  | ret => exact settle_ended rfl taken (.inr rfl)
  | defer =>
    have none : world.takeDefer (world.threadOf env) = (none, world) := by
      rw [World.takeDefer, noCall, idle.without_defer]
    exact settle_deferred rfl taken none
  | panic =>
    have none : world.takePanic (world.threadOf env) = (none, world) := by
      rw [World.takePanic, noPanic, idle.without_panic]
    exact settle_panicked rfl taken none

theorem settle_idle : settle resume env deferred world = .done ⟨env, deferred, none⟩ world := by
  have settled := settle_signal idle resume deferred .none
  rwa [show world.raise (world.threadOf env) .none = world from idle.without_signal] at settled

theorem settle_raised (error : RuntimeError) :
    settle resume env deferred
        ((world.setPanic (world.threadOf env) error).raise (world.threadOf env) .panic) =
      .done ⟨env, deferred, some error⟩ world := by
  have inside := idle.inside
  have still : (world.threadOf env).index <
      (world.setPanic (world.threadOf env) error).threads.size := by
    simpa [World.setPanic, World.updateThread] using inside
  have taken := World.takeSignal_raise still .panic
  have before : (world.setPanic (world.threadOf env) error).updateThread (world.threadOf env)
      ({ · with signal := .none }) = world.setPanic (world.threadOf env) error := by
    refine World.updateThread_self ?_
    rw [World.setPanic, World.thread_updateThread_here inside]
    simp [idle.fields.1]
  rw [before] at taken
  have pending := World.takePanic_setPanic inside error
  rw [idle.without_panic] at pending
  exact settle_panicked rfl taken pending

theorem settle_installed (invocation : Invocation) :
    settle resume env deferred
        ((world.installDefer (world.threadOf env) invocation).raise (world.threadOf env) .defer) =
      resume (world.instr? env) invocation world := by
  have inside := idle.inside
  have still : (world.threadOf env).index <
      (world.installDefer (world.threadOf env) invocation).threads.size := by
    simpa [World.installDefer, World.updateThread] using inside
  have taken := World.takeSignal_raise still .defer
  have before : (world.installDefer (world.threadOf env) invocation).updateThread
      (world.threadOf env) ({ · with signal := .none }) =
        world.installDefer (world.threadOf env) invocation := by
    refine World.updateThread_self ?_
    rw [World.installDefer, World.thread_updateThread_here inside]
    simp [idle.fields.1]
  rw [before] at taken
  have pending := World.takeDefer_installDefer inside invocation
  rw [idle.without_defer] at pending
  exact settle_deferred rfl taken pending

end Idle

end Machine

namespace Outcome

variable {α β : Type}

theorem attempt_bind (outcome : Outcome α) (next : α → World → Outcome β) :
    (outcome.bind next).attempt = outcome.attempt.bind fun result world =>
      match result with
      | .ok value => (next value world).attempt
      | .error error => .done (.error error) world := by
  induction outcome with
  | done value world => rfl
  | fail error world => rfl
  | await wait world resume ih => exact congrArg (Outcome.await wait world) (funext ih)
  | broken reason => rfl

end Outcome

theorem Run.read_bind {α β : Type} (view : World → α) (next : α → Run β) (world : World) :
    (Run.read view >>= next) world = next (view world) world := rfl

/-- Functions of the host leave nothing with any thread, as long as the calls they make do not. -/
def Host.Tidy (host : Host) : Prop :=
  ∀ native ∈ host, ∀ call : Caller, call.Tidy → ∀ thread args,
    (native call thread args).Tidy (thread.index + 1)

theorem Run.Lands.tidy {run : Run Next} {count : Nat} (lands : run.Lands count) : run.Tidy count :=
  fun bound world le isTidy => (lands bound world le isTidy).mono fun _ _ _ => trivial

theorem InstrOf.isOrdinary_of {τ : Type} {instr : InstrOf τ} (stop : instr ≠ .stop)
    (interrupt : ∀ signal, instr ≠ .interrupt signal)
    (ret : ∀ hops results values, instr ≠ .ret hops results values)
    (defer : ∀ node, instr ≠ .defer node) : instr.isOrdinary = true := by
  cases instr <;> simp_all [InstrOf.isOrdinary]

section Bodies

variable {host : Host} {fuel count : Nat}

def orStop {α : Type} (env : EnvRef) (deferred : List Invocation)
    (rest : α → World → Outcome Stopped) (result : Except RuntimeError α) (world : World) :
    Outcome Stopped :=
  match result with
  | .ok value => rest value world
  | .error error => .done ⟨env, deferred, some error⟩ world

theorem Run.attempt_orStop {α : Type} {run : Run α} {next : Except RuntimeError α → Run Stopped}
    {env : EnvRef} {deferred : List Invocation} {rest : α → World → Outcome Stopped}
    (goes : ∀ value world, next (.ok value) world = rest value world)
    (stops : ∀ error, next (.error error) = pure ⟨env, deferred, some error⟩) (world : World) :
    (Run.attempt run >>= next) world = (run world).attempt.bind (orStop env deferred rest) := by
  show Run.bind _ _ world = _
  rw [Run.bind_apply, Run.attempt_apply]
  refine congrArg (fun next => Outcome.bind next _) (funext fun result => funext fun world => ?_)
  cases result with
  | ok value => exact goes value world
  | error error =>
    rw [stops]
    rfl

theorem Direct.body_ordinary {world : World} {env : EnvRef} {instr : Instr}
    (here : world.instr? env = some instr) (ordinary : instr.isOrdinary = true)
    (deferred : List Invocation) :
    Direct.body host (fuel + 1) env deferred world =
      (Step.run (Machine.call host fuel) fuel env instr world).attempt.bind
        (orStop env deferred fun next => Direct.body host fuel next.2 deferred) := by
  rw [Direct.body, Run.read_bind, here]
  cases instr <;> first
    | exact Run.attempt_orStop (fun _ _ => rfl) (fun _ => rfl) world
    | simp [InstrOf.isOrdinary] at ordinary

theorem Direct.body_ret {world : World} {env : EnvRef} {hops : Nat} {results : List Slot}
    {values : Values} (here : world.instr? env = some (.ret hops results values))
    (deferred : List Invocation) :
    Direct.body host (fuel + 1) env deferred world =
      ((evalValues (Machine.call host fuel) env values >>= fun values =>
        Run.read (·.up env hops) >>= fun target =>
          Step.storeSlots target results values) world).attempt.bind
        (orStop env deferred fun _ world => .done ⟨env, deferred, none⟩ world) := by
  rw [Direct.body, Run.read_bind, here]
  exact Run.attempt_orStop (fun _ _ => rfl) (fun _ => rfl) world

theorem Direct.body_defer {world : World} {env : EnvRef} {node : Call}
    (here : world.instr? env = some (.defer node)) (deferred : List Invocation) :
    Direct.body host (fuel + 1) env deferred world =
      (evalCall (Machine.call host fuel) env node world).attempt.bind
        (orStop env deferred fun invocation world =>
          Direct.afterDefer host fuel env (invocation :: deferred)
            (world.setIp env (world.ip env + 1))) := by
  rw [Direct.body, Run.read_bind, here]
  exact Run.attempt_orStop (fun _ _ => rfl) (fun _ => rfl) world

theorem Direct.body_tidy (calls : ∀ less < fuel, (Machine.call host less).Tidy) (env : EnvRef)
    (deferred : List Invocation) : (Direct.body host fuel env deferred).Tidy count := by
  induction fuel using Nat.strongRecOn generalizing env deferred with
  | ind fuel ih =>
    cases fuel with
    | zero => exact .exhausted
    | succ fuel =>
      have tidy := calls fuel (Nat.lt_succ_self fuel)
      rw [Direct.body]
      refine (Run.Tidy.read _).bind fun next => ?_
      split
      · exact .pure _
      · exact .pure _
      · exact .pure _
      · rename_i hops results values
        refine Run.Tidy.bind (.attempt ?_) fun stored => ?_
        · exact (evalValues_tidy tidy env values).bind fun values =>
            (Run.Tidy.read _).bind fun target => Step.storeSlots_tidy target results values
        · cases stored <;> exact .pure _
      · refine (evalCall_tidy tidy env _).attempt.bind fun evaluated => ?_
        cases evaluated with
        | error error => exact .pure _
        | ok invocation =>
          refine Run.Tidy.bind (.modify fun _ world _ isTidy => ?_) fun _ => ?_
          · exact isTidy.updateEnv env fun _ => rfl
          · cases fuel with
            | zero => exact .exhausted
            | succ fuel =>
              rw [Direct.afterDefer]
              exact ih fuel (by omega) (fun less inside => calls less (by omega)) env _
      · rename_i instr stop interrupt ret defer
        have ordinary := InstrOf.isOrdinary_of stop interrupt ret defer
        refine (Step.run_lands tidy fuel env ordinary).tidy.attempt.bind fun next => ?_
        cases next with
        | ok next => exact ih fuel (by omega) (fun less inside => calls less (by omega)) _ _
        | error error => exact .pure _

theorem loop_none {found world : World} {env : EnvRef} {deferred : List Invocation}
    {stopped : Stopped}
    (settled : ∀ resume, Machine.settle resume env deferred found = .done stopped world) :
    (Machine.loop .never host fuel env none deferred found).Follows (.done stopped world) := by
  cases fuel with
  | zero => exact .broken _ _
  | succ fuel =>
    have ends : Machine.loop .never host (fuel + 1) env none deferred found = .done stopped world := by
      rw [Machine.loop]
      exact settled _
    rw [ends]
    exact .refl _

theorem loop_some (env : EnvRef) (instr : Instr) (deferred : List Invocation) (world : World) :
    Machine.loop .never host (fuel + 1) env (some instr) deferred world =
      (Step.run (Machine.call host fuel) fuel env instr world).attempt.bind fun result world =>
        match result with
        | .ok (next, env) => Machine.loop .never host fuel env next deferred world
        | .error error =>
          Machine.loop .never host fuel env none deferred
            ((world.setPanic (world.threadOf env) error).raise (world.threadOf env) .panic) := by
  rw [Machine.loop]
  show Run.bind (step (Machine.call host fuel) fuel env instr) _ world = _
  rw [Run.bind_apply]
  show Outcome.bind _ (Run.bind (Run.attempt _) _ world) = _
  rw [Run.bind_apply, Run.attempt_apply]
  refine (Outcome.bind_assoc _ _ _).trans ?_
  refine congrArg (fun next => Outcome.bind next _) (funext fun result => funext fun world => ?_)
  cases result <;> rfl

def Agree (host : Host) (fuel : Nat) : Prop :=
  ∀ (env : EnvRef) (deferred : List Invocation) (world : World) (bound : Nat), world.Tidy bound →
    (Machine.loop .never host fuel env (world.instr? env) deferred world).Follows
      (Direct.body host fuel env deferred world)

section Instructions

variable {world : World} {bound : Nat} (tidy : world.Tidy bound)
  (calls : (Machine.call host fuel).Tidy)

include tidy calls

theorem agree_ordinary (rest : Agree host fuel) {env : EnvRef} {instr : Instr}
    (here : world.instr? env = some instr) (ordinary : instr.isOrdinary = true)
    (deferred : List Invocation) :
    (Machine.loop .never host (fuel + 1) env (some instr) deferred world).Follows
      (Direct.body host (fuel + 1) env deferred world) := by
  rw [loop_some, Direct.body_ordinary here ordinary]
  have lands := Step.run_lands calls fuel env ordinary bound world (Nat.le_refl _) tidy
  have attempted : Outcome.Tidy (fun world result => ∀ next env,
      result = .ok (next, env) → next = world.instr? env) bound
      (Step.run (Machine.call host fuel) fuel env instr world).attempt := by
    refine lands.attempt (fun later next isNext _ _ same => ?_) fun _ _ _ _ same => nomatch same
    obtain rfl := Except.ok.inj same
    exact isNext
  refine (Outcome.Follows.refl _).bind attempted fun bound later result le laterTidy isNext => ?_
  cases result with
  | ok next =>
    obtain ⟨next, env⟩ := next
    obtain rfl := isNext next env rfl
    exact rest env deferred later bound laterTidy
  | error error =>
    exact loop_none fun resume => Machine.settle_raised (laterTidy.idleAt env) resume deferred error

omit calls in
/-- An instruction that does a part which the description has too, and then leaves something with
the thread. -/
theorem agree_leaving {α : Type} {part : Run α} {leaves : α → World → World}
    {rest : α → World → Outcome Stopped} {env : EnvRef} {instr : Instr} {deferred : List Invocation}
    (isTidy : part.Tidy bound)
    (runs : Step.run (Machine.call host fuel) fuel env instr world =
      (part world).bind fun value world => .done (none, env) (leaves value world))
    (described : Direct.body host (fuel + 1) env deferred world =
      (part world).attempt.bind (orStop env deferred rest))
    (goes : ∀ bound later value, later.Tidy bound →
      (Machine.loop .never host fuel env none deferred (leaves value later)).Follows
        (rest value later)) :
    (Machine.loop .never host (fuel + 1) env (some instr) deferred world).Follows
      (Direct.body host (fuel + 1) env deferred world) := by
  rw [loop_some, described, runs, Outcome.attempt_bind, Outcome.bind_assoc]
  have attempted : Outcome.Tidy (fun _ _ => True) bound (part world).attempt :=
    (isTidy bound world (Nat.le_refl _) tidy).attempt (fun _ _ _ => trivial) fun _ _ => trivial
  refine (Outcome.Follows.refl _).bind attempted fun bound later result le laterTidy _ => ?_
  cases result with
  | ok value => exact goes bound later value laterTidy
  | error error =>
    exact loop_none fun resume => Machine.settle_raised (laterTidy.idleAt env) resume deferred error

theorem agree_ret {env : EnvRef} {hops : Nat} {results : List Slot} {values : Values}
    (here : world.instr? env = some (.ret hops results values)) (deferred : List Invocation) :
    (Machine.loop .never host (fuel + 1) env (some (.ret hops results values)) deferred
      world).Follows (Direct.body host (fuel + 1) env deferred world) := by
  have split : Step.run (Machine.call host fuel) fuel env (.ret hops results values) =
      (evalValues (Machine.call host fuel) env values >>= fun values =>
        Run.read (·.up env hops) >>= fun target => Step.storeSlots target results values) >>=
          fun _ => Step.interrupt env .ret := by
    simp only [Run.bind_assoc]
    rfl
  refine agree_leaving tidy ?_ ((congrFun split world).trans (Run.bind_apply _ _ world))
    (Direct.body_ret here deferred) fun bound later _ laterTidy => ?_
  · exact (evalValues_tidy calls env values).bind fun values =>
      (Run.Tidy.read _).bind fun target => Step.storeSlots_tidy target results values
  · exact loop_none fun resume => Machine.settle_signal (laterTidy.idleAt env) resume deferred .ret

theorem agree_defer (rest : ∀ less < fuel, Agree host less) {env : EnvRef} {node : Call}
    (here : world.instr? env = some (.defer node)) (deferred : List Invocation) :
    (Machine.loop .never host (fuel + 1) env (some (.defer node)) deferred world).Follows
      (Direct.body host (fuel + 1) env deferred world) := by
  refine agree_leaving tidy (evalCall_tidy calls env node) (Run.bind_apply _ _ world)
    (Direct.body_defer here deferred) fun bound later invocation laterTidy => ?_
  cases fuel with
  | zero => exact .broken _ _
  | succ fuel =>
    have movedTidy : (later.setIp env (later.ip env + 1)).Tidy bound :=
      laterTidy.updateEnv env fun _ => rfl
    have sameThread : (later.setIp env (later.ip env + 1)).threadOf env = later.threadOf env :=
      later.threadOf_updateEnv env env fun _ => rfl
    have taken := Machine.settle_installed (movedTidy.idleAt env)
      (fun next invocation => Machine.loop .never host fuel env next (invocation :: deferred))
      deferred invocation
    have next := rest fuel (Nat.lt_succ_self fuel) env (invocation :: deferred) _ bound movedTidy
    rw [← taken, sameThread] at next
    rw [Machine.loop, Direct.afterDefer]
    show Outcome.Follows (Machine.settle _ env deferred
      (((later.setIp env (later.ip env + 1)).installDefer (later.threadOf env) invocation).raise
        ((later.setIp env (later.ip env + 1)).threadOf env) .defer)) _
    rw [sameThread]
    exact next

end Instructions

theorem agree (calls : ∀ less < fuel, (Machine.call host less).Tidy) : Agree host fuel := by
  induction fuel using Nat.strongRecOn with
  | ind fuel ih =>
    intro env deferred world bound tidy
    cases fuel with
    | zero => exact .broken _ _
    | succ fuel =>
      have callsTidy := calls fuel (Nat.lt_succ_self fuel)
      have rest (less : Nat) (inside : less < fuel + 1) : Agree host less :=
        ih less inside fun less' inside' => calls less' (by omega)
      cases found : world.instr? env with
      | none =>
        rw [Direct.body, Run.read_bind, found]
        exact loop_none fun resume => Machine.settle_idle (tidy.idleAt env) resume deferred
      | some instr =>
        cases kind : instr.isOrdinary with
        | true => exact agree_ordinary tidy callsTidy (rest fuel (by omega)) found kind deferred
        | false =>
          cases instr with
          | stop =>
            rw [loop_some, Direct.body, Run.read_bind, found]
            exact loop_none fun resume => Machine.settle_idle (tidy.idleAt env) resume deferred
          | interrupt signal =>
            rw [loop_some, Direct.body, Run.read_bind, found]
            exact loop_none fun resume => Machine.settle_signal (tidy.idleAt env) resume deferred signal
          | ret hops results values => exact agree_ret tidy callsTidy found deferred
          | defer node =>
            exact agree_defer tidy callsTidy (fun less inside => rest less (by omega)) found deferred
          | _ => simp [InstrOf.isOrdinary] at kind

end Bodies

namespace Machine

variable {call : Caller} {thread : ThreadRef}

theorem runDeferred_eq (failure : Option RuntimeError) (deferred : List Invocation) :
    runDeferred call thread failure deferred =
      Direct.callEach call thread deferred >>= fun failures =>
        pure (failures.getLast?.or failure) := by
  induction deferred generalizing failure with
  | nil => rfl
  | cons invocation rest ih =>
    rw [runDeferred, Direct.callEach, Run.bind_assoc]
    refine congrArg (Run.attempt (call thread invocation) >>= ·) (funext fun result => ?_)
    rw [Run.bind_assoc]
    cases result with
    | ok values => exact ih failure
    | error error =>
      refine (ih (some error)).trans ?_
      refine congrArg (Direct.callEach call thread rest >>= ·) (funext fun failures => ?_)
      have last : failures.getLast?.or (some error) = (error :: failures).getLast?.or failure := by
        cases failures <;> simp [List.getLast?_cons]
      exact congrArg pure last

theorem callEach_tidy (tidy : call.Tidy) (deferred : List Invocation) :
    (Direct.callEach call thread deferred).Tidy (thread.index + 1) := by
  induction deferred with
  | nil => exact .pure _
  | cons invocation rest ih =>
    refine (tidy thread invocation).attempt.bind fun result => ih.bind fun failures => ?_
    cases result <;> exact .pure _

theorem storeZeros_tidy {count : Nat} (env : EnvRef) (slots : List Slot) :
    (storeZeros env slots).Tidy count := by
  induction slots with
  | nil => exact .pure _
  | cons slot rest ih => exact (Run.Tidy.store env slot _).bind fun _ => ih

end Machine

theorem storeInit_done (env : EnvRef) (slots : List (Option Slot)) (values : List Value)
    (world : World) : ∃ later, Step.storeInit env slots values world = .done () later ∧
      ∀ ref, later.threadOf ref = world.threadOf ref := by
  induction slots generalizing values world with
  | nil => exact ⟨world, rfl, fun _ => rfl⟩
  | cons slot slots ih =>
    cases values with
    | nil => cases slot <;> exact ⟨world, rfl, fun _ => rfl⟩
    | cons value values =>
      cases slot with
      | none => exact ih values world
      | some slot =>
        obtain ⟨later, done, same⟩ := ih values (world.store env slot value)
        exact ⟨later, done, fun ref => (same ref).trans
          (world.threadOf_updateEnv env ref fun _ => rfl)⟩

theorem storeZeros_done (env : EnvRef) (slots : List Slot) (world : World) :
    ∃ later, Machine.storeZeros env slots world = .done () later ∧
      ∀ ref, later.threadOf ref = world.threadOf ref := by
  induction slots generalizing world with
  | nil => exact ⟨world, rfl, fun _ => rfl⟩
  | cons slot slots ih =>
    obtain ⟨later, done, same⟩ := ih (world.store env slot (.zero slot.type))
    exact ⟨later, done, fun ref => (same ref).trans (world.threadOf_updateEnv env ref fun _ => rfl)⟩

theorem World.threadOf_acquire (world : World) (thread : ThreadRef) (outer : Option EnvRef)
    (program : Program) (ip objects words : Nat) :
    (world.acquire thread outer program ip objects words).2.threadOf
      (world.acquire thread outer program ip objects words).1 = thread := by
  obtain ⟨middle, alike, same⟩ := world.acquire_spec thread outer program ip objects words
  rw [same]
  simp [World.threadOf, World.env?_push, alike.size]

section Activations

variable {host : Host} {fuel : Nat} (calls : ∀ less ≤ fuel, (Machine.call host less).Tidy)

include calls

theorem execution_tidy (thread : ThreadRef) (env : EnvRef) :
    (Direct.execution host fuel thread env).Tidy (thread.index + 1) := by
  refine (Run.Tidy.modify fun _ world _ isTidy => isTidy.alike (world.alike_retain env)).bind
    fun _ => ?_
  refine (Direct.body_tidy (fun less inside => calls less (by omega)) env []).bind fun stopped => ?_
  refine (Run.Tidy.update fun _ world _ isTidy =>
    isTidy.leaves (world.leaves_unwindWithin env stopped.env _)).bind fun left => ?_
  refine (Run.Tidy.modify fun _ world _ isTidy => isTidy.alike (world.alike_drop left)).bind
    fun _ => ?_
  refine (Machine.callEach_tidy (calls fuel (Nat.le_refl _)) stopped.deferred).bind fun failures => ?_
  split
  · exact .fail _
  · exact .pure _

omit calls in
theorem finish_eq (call : Caller) (thread : ThreadRef) (env : EnvRef) (stopped : Stopped) :
    Machine.finish call thread env stopped =
      Run.update (·.unwind env stopped.env) >>= fun left => Run.modify (·.drop left) >>= fun _ =>
        Direct.callEach call thread stopped.deferred >>= fun failures =>
          match failures.getLast?.or stopped.failure with
          | some error => Run.fail error
          | none => pure () := by
  rw [Machine.finish]
  refine congrArg (Run.update _ >>= ·) (funext fun left => ?_)
  refine congrArg (Run.modify _ >>= ·) (funext fun _ => ?_)
  rw [Machine.runDeferred_eq, Run.bind_assoc]
  refine congrArg (Direct.callEach _ _ _ >>= ·) (funext fun failures => ?_)
  cases failures.getLast?.or stopped.failure <;> rfl

theorem exec_follows {world : World} {bound : Nat} (tidy : world.Tidy bound) (env : EnvRef) :
    (Machine.exec host fuel env world).Follows
      (Direct.execution host fuel (world.threadOf env) env world) := by
  have retained : (world.retain env).Tidy bound := tidy.alike (world.alike_retain env)
  have earlier (less : Nat) (inside : less < fuel) := calls less (Nat.le_of_lt inside)
  have bodies := agree earlier env [] (world.retain env) bound retained
  have isTidy := Direct.body_tidy earlier env [] bound (world.retain env) (Nat.le_refl _) retained
  have exec : Machine.exec host fuel env world =
      (Machine.loop .never host fuel env ((world.retain env).instr? env) []
        (world.retain env)).bind
        (Machine.finish (Machine.call host fuel) (world.threadOf env) env) :=
    Run.bind_apply _ _ (world.retain env)
  rw [exec]
  show Outcome.Follows _ (Run.bind (Direct.body host fuel env []) _ (world.retain env))
  rw [Run.bind_apply]
  refine bodies.bind isTidy fun bound later stopped _ _ _ => ?_
  rw [finish_eq]
  exact .refl _

theorem activation_tidy (template : Template) (outer : EnvRef) (thread : ThreadRef)
    (args : List Value) :
    (Direct.activation host fuel template outer thread args).Tidy (thread.index + 1) := by
  refine (Run.Tidy.update fun bound world le isTidy =>
    isTidy.acquire (Nat.le_trans le isTidy.count) _ _ _ _ _).bind fun env => ?_
  refine (Step.storeInit_tidy env template.params args).bind fun _ => ?_
  refine (Machine.storeZeros_tidy env template.results).bind fun _ => ?_
  refine (execution_tidy calls thread env).attempt.bind fun result => ?_
  cases result with
  | error error =>
    exact (Run.Tidy.modify fun _ world _ isTidy => isTidy.alike (world.alike_drop env)).bind
      fun _ => .fail error
  | ok =>
    refine (Run.Tidy.read _).bind fun results => ?_
    exact (Run.Tidy.modify fun _ world _ isTidy =>
      isTidy.alike (world.alike_recycle thread env)).bind fun _ => .pure results

theorem invoke_follows {world : World} {thread : ThreadRef} (tidy : world.Tidy (thread.index + 1))
    (template : Template) (outer : EnvRef) (args : List Value) :
    (Machine.invoke (Machine.exec host fuel) template outer thread args world).Follows
      (Direct.activation host fuel template outer thread args world) := by
  have threadOf := world.threadOf_acquire thread (some outer) template.program 0 template.objects
    template.words
  have made := tidy.acquire tidy.count (some outer) template.program 0 template.objects
    template.words
  generalize acquired : world.acquire thread (some outer) template.program 0 template.objects
    template.words = pair at threadOf made
  obtain ⟨env, start⟩ := pair
  obtain ⟨filled, stores, sameThread⟩ := storeInit_done env template.params args start
  obtain ⟨ready, zeros, sameThread'⟩ := storeZeros_done env template.results filled
  have filledTidy := Step.storeInit_tidy env template.params args _ start (Nat.le_refl _) made
  rw [stores] at filledTidy
  have readyTidy := Machine.storeZeros_tidy env template.results _ filled (Nat.le_refl _) filledTidy.1
  rw [zeros] at readyTidy
  have executes := exec_follows calls readyTidy.1 env
  rw [sameThread', sameThread, threadOf] at executes
  have executed := execution_tidy calls thread env _ ready (Nat.le_refl _) readyTidy.1
  have enters : Run.update (·.acquire thread (some outer) template.program 0 template.objects
      template.words) world = .done env start := by
    rw [Run.update, acquired]
  rw [Machine.invoke, Direct.activation, Run.bind_done enters, Run.bind_done enters,
    Run.bind_done stores, Run.bind_done stores, Run.bind_done zeros, Run.bind_done zeros]
  show Outcome.Follows (Run.bind (Run.attempt _) _ ready) (Run.bind (Run.attempt _) _ ready)
  rw [Run.bind_apply, Run.bind_apply, Run.attempt_apply, Run.attempt_apply]
  have attempted : Outcome.Tidy (fun _ _ => True) (thread.index + 1)
      (Direct.execution host fuel thread env ready).attempt :=
    executed.attempt (fun _ _ _ => trivial) fun _ _ => trivial
  exact executes.attempt.bind attempted fun _ _ _ _ _ _ => .refl _

end Activations

theorem packed_tidy {count : Nat} (signature : Signature) (args : List Value) :
    (Machine.packed signature args).Tidy count := by
  unfold Machine.packed
  cases signature.variadicElem? with
  | none => exact .pure _
  | some elem =>
    dsimp only
    split
    · exact .fail _
    · exact (Run.Tidy.newSlice _ _).bind fun _ => .pure _

theorem Builtin.call_tidy {count : Nat} (builtin : Builtin) (args : List Value) :
    (builtin.call args).Tidy count := by
  unfold Builtin.call
  split
  · exact (Run.Tidy.close _).bind fun _ => .pure _
  · exact .fail _
  · exact (Run.Tidy.tryHeap _).bind fun _ => .pure _
  · exact (Run.Tidy.read _).bind fun _ => .fail _
  · exact (Run.Tidy.modify fun _ world _ isTidy => isTidy.alike (world.alike_write _)).bind
      fun _ => .pure _
  · exact (Run.Tidy.modify fun _ world _ isTidy => isTidy.alike (world.alike_write _)).bind
      fun _ => .pure _
  · exact .pure _

/-- A function that is applied where earlier calls leave nothing with any thread leaves nothing
there either. -/
theorem apply_tidy {host : Host} (natives : host.Tidy) {fuel : Nat}
    (calls : ∀ less ≤ fuel, (Machine.call host less).Tidy) (function : Func) (thread : ThreadRef)
    (args : List Value) :
    (Machine.apply host (Machine.call host fuel) (Machine.exec host fuel) function thread args).Tidy
      (thread.index + 1) := by
  unfold Machine.apply
  dsimp only
  split
  · exact .fail _
  · cases function.body with
    | closure template env =>
      intro bound world le tidy
      have described := activation_tidy calls template env thread args bound world le tidy
      exact (invoke_follows calls (tidy.weaken le) template env args).tidy described
    | native index =>
      dsimp only
      split
      · next native found =>
        exact natives native (List.mem_of_getElem? found) _ (calls fuel (Nat.le_refl _)) thread args
      · exact .fail _
    | builtin builtin => exact builtin.call_tidy args

theorem call_tidy {host : Host} (natives : host.Tidy) (fuel : Nat) : (Machine.call host fuel).Tidy := by
  induction fuel using Nat.strongRecOn with
  | ind fuel ih =>
    intro thread invocation
    cases fuel with
    | zero => exact .exhausted
    | succ fuel =>
      have applies := apply_tidy natives fun less inside => ih less (Nat.lt_succ_of_le inside)
      obtain ⟨value, args, spread⟩ := invocation
      cases value with
      | func function =>
        rw [Machine.call, Machine.watchedCall]
        cases spread with
        | true => exact (Run.Tidy.pure args).bind fun args => applies function thread args
        | false =>
          exact (packed_tidy function.signature args).bind fun args => applies function thread args
      | _ => exact .fail _

theorem Interpreter.new_tidy (options : Options) : (Interpreter.new options).world.Tidy 1 := by
  refine ⟨Nat.le_refl 1, fun ref => ?_, fun ref => Nat.zero_lt_one, fun _ member => nomatch member⟩
  have default : (Interpreter.new options).world.thread ref = {} := by
    obtain ⟨_ | index⟩ := ref <;> rfl
  rw [default]
  rfl

/-- Every activation that starts while nothing is left with any thread behaves as described: the calls
that its own body has deferred are made once each, the last one first, after the body has stopped and
its block environments are left, with the function and the arguments evaluated by the statement that
deferred them; a failure among them keeps none of the others from being made; the last such failure,
or else the end of the body, decides the outcome, and results are read at the end. Afterwards nothing
is left with any thread, so the same holds of every activation inside or after it. -/
theorem invoke_defers {host : Host} (natives : host.Tidy) (fuel : Nat) (template : Template)
    (outer : EnvRef) {thread : ThreadRef} (args : List Value) {world : World}
    (idle : world.Tidy (thread.index + 1)) :
    (Machine.invoke (Machine.exec host fuel) template outer thread args world).Follows
        (Direct.activation host fuel template outer thread args world) ∧
      (Machine.invoke (Machine.exec host fuel) template outer thread args world).Tidy
        (fun _ _ => True) (thread.index + 1) := by
  have calls (less : Nat) (_ : less ≤ fuel) := call_tidy natives less
  have follows := invoke_follows calls idle template outer args
  exact ⟨follows, follows.tidy (activation_tidy calls template outer thread args _ world
    (Nat.le_refl _) idle)⟩

def printsDeferred : Template :=
  let print (number : Int64) : Instr :=
    .defer ⟨.builtin .print [.int], .each [.const (.int number)], true⟩
  .mk ⟨[], [], false⟩ { lines := #[⟨print 1, {}⟩, ⟨print 2, {}⟩, ⟨.interrupt .ret, {}⟩] } [] [] 0 0

def oneEnvironment : World :=
  ((Interpreter.new { captureOutput := true }).world.acquire ⟨0⟩ none {} 0 0 0).2

theorem invoke_defers_prints : oneEnvironment.Tidy 1 ∧
    (∃ later, Direct.activation [] 9 printsDeferred ⟨0⟩ ⟨0⟩ [] oneEnvironment = .done [] later ∧
      later.output = "21") ∧
    (Machine.invoke (Machine.exec [] 9) printsDeferred ⟨0⟩ ⟨0⟩ [] oneEnvironment).Follows
      (Direct.activation [] 9 printsDeferred ⟨0⟩ ⟨0⟩ [] oneEnvironment) := by
  have idle : oneEnvironment.Tidy 1 :=
    (Interpreter.new_tidy _).acquire Nat.zero_lt_one none {} 0 0 0
  exact ⟨idle, ⟨_, rfl, by decide⟩,
    (invoke_defers (fun _ member => absurd member List.not_mem_nil) 9 printsDeferred ⟨0⟩ [] idle).1⟩

end MiniGo
