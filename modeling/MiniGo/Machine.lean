import MiniGo.Step
/-!
Calls and the execution of function bodies.

A body runs instruction by instruction until nothing is to run next. Then the signal of the thread
tells whether the body has ended, has failed, or has just deferred a call and goes on. When it has
ended, its block environments are left and the deferred calls run, the last one first.
-/

namespace MiniGo

/-- A function that the host provides. It is given a way to call function values. -/
abbrev HostFunction := Caller → ThreadRef → List Value → Run (List Value)

abbrev Host := List HostFunction

namespace Builtin

/-- Calls a built-in function that gives no result. -/
def call (builtin : Builtin) (args : List Value) : Run (List Value) :=
  match builtin, args with
  | .close, .chan _ ref :: _ => do
    Run.close ref
    pure []
  | .close, _ => Run.fail (.panic "close of nil channel")
  | .delete, [.map _ _ ref, key] => do
    Run.tryHeap (·.eraseEntry ref key)
    pure []
  | .panic, args => do
    let message ← Run.read fun world => (args.head?.map world.text).getD ""
    Run.fail (.panic message)
  | .print, args => do
    Run.modify fun world => world.write (String.join (args.map world.text))
    pure []
  | .println, args => do
    Run.modify fun world => world.write (" ".intercalate (args.map world.text) ++ "\n")
    pure []
  | _, _ => pure []

end Builtin

/-- A condition on the point that a run has reached: the environment, the instruction to run next, if
any, and the state. A run is broken off where its watch holds. -/
abbrev Watch := EnvRef → Option Instr → World → Bool

def Watch.never : Watch := fun _ _ _ => false

/-- A body that has stopped: where, the calls it deferred, the last one first, and its failure. -/
structure Stopped where
  env : EnvRef
  deferred : List Invocation
  failure : Option RuntimeError

namespace Machine

/-- The arguments of a call, with those beyond the fixed parameters of a variadic function packed
into a slice. -/
def packed (signature : Signature) (args : List Value) : Run (List Value) :=
  match signature.variadicElem? with
  | none => pure args
  | some elem =>
    let fixed := signature.fixed
    if args.length < fixed then Run.fail (.arityMismatch fixed args.length)
    else do
      let rest ← Run.newSlice elem (args.drop fixed)
      pure (args.take fixed ++ [rest])

def storeZeros (env : EnvRef) : List Slot → Run Unit
  | [] => pure ()
  | slot :: rest => do
    Run.store env slot (.zero slot.type)
    storeZeros env rest

/-- Runs a compiled function in an environment of its own. -/
def invoke (exec : EnvRef → Run Unit) (template : Template) (outer : EnvRef) (thread : ThreadRef)
    (args : List Value) : Run (List Value) := do
  let env ← Run.update
    (·.acquire thread (some outer) template.program 0 template.objects template.words)
  Step.storeInit env template.params args
  storeZeros env template.results
  match ← Run.attempt (exec env) with
  | .error error => do
    Run.modify (·.drop env)
    Run.fail error
  | .ok () => do
    let results ← Run.read fun world => template.results.map (world.load env)
    Run.modify (·.recycle thread env)
    pure results

/-- Runs a function on exactly as many arguments as it has parameters. -/
def apply (host : Host) (call : Caller) (exec : EnvRef → Run Unit) (function : Func)
    (thread : ThreadRef) (args : List Value) : Run (List Value) :=
  let wanted := function.signature.params.length
  if args.length ≠ wanted then Run.fail (.arityMismatch wanted args.length)
  else
    match function.body with
    | .closure template env => invoke exec template env thread args
    | .native index =>
      match host[index]? with
      | some native => native call thread args
      | none => Run.fail .nilFunc
    | .builtin builtin => builtin.call args

/-- Calls deferred functions one after the other. One that fails does not keep the others from
running; the last failure is the one that counts. -/
def runDeferred (call : Caller) (thread : ThreadRef) (failure : Option RuntimeError) :
    List Invocation → Run (Option RuntimeError)
  | [] => pure failure
  | invocation :: rest => do
    match ← Run.attempt (call thread invocation) with
    | .ok _ => runDeferred call thread failure rest
    | .error error => runDeferred call thread (some error) rest

/-- Leaves the environments of a stopped body and runs its deferred calls. -/
def finish (call : Caller) (thread : ThreadRef) (root : EnvRef) (stopped : Stopped) : Run Unit := do
  let env ← Run.update (·.unwind root stopped.env)
  Run.modify (·.drop env)
  match ← runDeferred call thread stopped.failure stopped.deferred with
  | none => pure ()
  | some error => Run.fail error

/-- Executes a body from the current instruction of its environment. -/
def execWith (call : Caller)
    (loop : EnvRef → Option Instr → List Invocation → Run Stopped) (root : EnvRef) :
    Run Unit := do
  let thread ← Run.read (·.threadOf root)
  Run.modify (·.retain root)
  let first ← Run.read (·.instr? root)
  let stopped ← loop root first []
  finish call thread root stopped

def pause (watch : Watch) (env : EnvRef) (next : Option Instr) : Run Unit := fun world =>
  if watch env next world then .broken (.watched env next world) else .done () world

/-- Decides what follows when nothing is to run next; `resume` goes on after a deferred call. -/
def settle (resume : Option Instr → Invocation → Run Stopped) (env : EnvRef)
    (deferred : List Invocation) : Run Stopped := do
  let thread ← Run.read (·.threadOf env)
  match ← Run.update (·.takeSignal thread) with
  | .none | .ret => pure ⟨env, deferred, none⟩
  | .defer => do
    match ← Run.update (·.takeDefer thread) with
    | some invocation => do
      let next ← Run.read (·.instr? env)
      resume next invocation
    | none => pure ⟨env, deferred, some (.internal "defer signal without a pending call")⟩
  | .panic => do
    let pending ← Run.update (·.takePanic thread)
    pure ⟨env, deferred, some (pending.getD (.internal "panic signal without a pending error"))⟩

mutual

def watchedCall (watch : Watch) (host : Host) : Nat → Caller
  | 0, _, _ => Run.exhausted
  | fuel + 1, thread, ⟨.func function, args, spread⟩ => do
    let args ← if spread then pure args else packed function.signature args
    apply host (watchedCall watch host fuel)
      (execWith (watchedCall watch host fuel) (loop watch host fuel)) function thread args
  | _ + 1, _, _ => Run.fail .nilFunc

def loop (watch : Watch) (host : Host) :
    Nat → EnvRef → Option Instr → List Invocation → Run Stopped
  | 0, _, _, _ => Run.exhausted
  | fuel + 1, env, next, deferred => do
    pause watch env next
    match next with
    | some instr => do
      let (next, env) ← step (watchedCall watch host fuel) fuel env instr
      loop watch host fuel env next deferred
    | none =>
      settle (fun next invocation => loop watch host fuel env next (invocation :: deferred)) env
        deferred

end

/-- Executes a body under a watch, from the current instruction of its environment. The caller keeps
its reference to the environment. -/
def watchedExec (watch : Watch) (host : Host) (fuel : Nat) (root : EnvRef) : Run Unit :=
  execWith (watchedCall watch host fuel) (loop watch host fuel) root

def call (host : Host) (fuel : Nat) : Caller := watchedCall .never host fuel

/-- Executes a body from the current instruction of its environment. -/
def exec (host : Host) (fuel : Nat) (root : EnvRef) : Run Unit := watchedExec .never host fuel root

def runTask (watch : Watch) (host : Host) (fuel : Nat) (spawn : Spawn) : Run Unit := do
  match ← Run.attempt (watchedCall watch host fuel spawn.thread spawn.invocation) with
  | .ok _ => pure ()
  | .error error => do
    Run.modify fun world => { world with failed := world.failed + 1 }
    Run.fail error

end Machine

end MiniGo
