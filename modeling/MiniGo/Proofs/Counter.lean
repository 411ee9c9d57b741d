import MiniGo.Proofs.Meaning
import MiniGo.Proofs.Deferred
/-!
A machine with a counter. It runs the instructions of structured code like any executor, but keeps the
position and the number of blocks it is in beside the state, and leaves the blocks as soon as it stops.
What an instruction does to the state is told apart from where it leads.
-/

namespace MiniGo

def InstrOf.isSimple {τ : Type} : InstrOf τ → Bool
  | .skip | .eval _ | .assign .. | .update .. | .init .. => true
  | _ => false

def InstrOf.isPlain {τ : Type} : InstrOf τ → Bool
  | .goto _ | .jumpUnless .. | .push .. | .pop | .leave .. | .ret .. | .interrupt .ret | .switch .. =>
    true
  | instr => instr.isSimple

inductive Move
  | next
  | jump (position : Nat)
  | push (objects words : Nat)
  | pop
  | leave (hops position : Nat)
  | stop

def effect (instr : Instr) (call : Caller) (env : EnvRef) : Run Unit :=
  match instr with
  | .eval values => Action.evaluate values call env
  | .assign places values => Action.assign places values call env
  | .update op place operand => Action.update op place operand call env
  | .init slots values => Action.init slots values call env
  | _ => pure ()

def act (call : Caller) (env : EnvRef) : Instr → Run Move
  | .goto position => pure (.jump position)
  | .jumpUnless cond position => do
    let truth ← (Cond.code cond).holds call env
    pure (if truth then .next else .jump position)
  | .push objects words => pure (.push objects words)
  | .pop => pure .pop
  | .leave hops dest => pure (.leave hops dest.position)
  | .ret hops results values => do
    Action.deliver hops results values call env
    pure .stop
  | .interrupt _ => pure .stop
  | .switch tag cases fallback => do
    let tag ← eval call env tag
    let position ← Step.findCase call env tag fallback cases
    pure (.jump position)
  | instr => do
    effect instr call env
    pure .next

def Move.perform (env : EnvRef) : Move → Run Next
  | next => Step.advance env
  | jump position => Step.goto env position
  | push objects words => do
    let inner ← Run.update (·.push env objects words)
    Run.modify (·.drop env)
    Step.advance inner
  | pop => do
    let outer ← Run.update (·.pop env)
    Step.advance outer
  | leave hops position => do
    let outer ← Run.update (·.leave env hops)
    Step.goto outer position
  | stop => Step.interrupt env .ret

theorem Run.attempt_bind {α β : Type} (run : Run α) (next : α → Run β) :
    Run.attempt (run >>= next) = Run.attempt run >>= fun
      | .ok value => Run.attempt (next value)
      | .error error => pure (.error error) := by
  funext world
  show Run.attempt (Run.bind _ _) world = Run.bind (Run.attempt run) _ world
  rw [Run.attempt_apply, Run.bind_apply, Run.bind_apply, Run.attempt_apply]
  refine (Outcome.attempt_bind _ _).trans ?_
  congr 1
  funext result world
  cases result with
  | ok value => exact (Run.attempt_apply _ _).symm
  | error error => rfl

theorem Run.bind_congr {α β : Type} {run : Run α} {next other : α → Run β}
    (same : ∀ value, next value = other value) : run >>= next = run >>= other :=
  congrArg (run >>= ·) (funext same)

theorem Step.run_eq {instr : Instr} (plain : instr.isPlain = true) (call : Caller) (fuel : Nat)
    (env : EnvRef) : Step.run call fuel env instr = act call env instr >>= Move.perform env := by
  cases instr with
  | skip | goto | push | pop | leave => rfl
  | interrupt signal =>
    cases signal with
    | ret => rfl
    | none | defer | panic => simp [InstrOf.isPlain, InstrOf.isSimple] at plain
  | jumpUnless cond position =>
    simp only [Step.run, act, Cond.holds, Run.bind_assoc]
    refine Run.bind_congr fun value => Run.bind_congr fun truth => ?_
    cases truth <;> rfl
  | eval | assign | update | init | ret | switch =>
    simp only [Step.run, act, effect, Action.evaluate, Action.assign, Action.update, Action.init,
      Action.deliver, Run.bind_assoc]
    rfl
  | _ => simp [InstrOf.isPlain, InstrOf.isSimple] at plain

theorem Move.attempt_perform (move : Move) (env : EnvRef) :
    Run.attempt (move.perform env) = move.perform env >>= fun next => pure (.ok next) := by
  cases move <;> rfl

theorem step_eq {instr : Instr} (plain : instr.isPlain = true) (call : Caller) (fuel : Nat)
    (env : EnvRef) : step call fuel env instr = Run.attempt (act call env instr) >>= fun
      | .ok move => move.perform env
      | .error error => Step.raise env error := by
  rw [step, Step.run_eq plain, Run.attempt_bind, Run.bind_assoc]
  refine Run.bind_congr fun result => ?_
  cases result with
  | error error => rfl
  | ok move =>
    dsimp only
    rw [move.attempt_perform, Run.bind_assoc]
    cases move <;> rfl

namespace Counter

abbrev Halt := EnvRef × Option RuntimeError

def stop (env : EnvRef) (depth : Nat) (failure : Option RuntimeError) : Run Halt := do
  let root ← Run.update (·.leave env depth)
  pure (root, failure)

def follow (go : EnvRef → Nat → Nat → Run Halt) (env : EnvRef) (depth position : Nat) :
    Except RuntimeError Move → Run Halt
  | .ok .next => go env depth (position + 1)
  | .ok (.jump target) => go env depth target
  | .ok (.push objects words) => do
    let inner ← Run.update (·.push env objects words)
    Run.modify (·.drop env)
    go inner (depth + 1) (position + 1)
  | .ok .pop => do
    let outer ← Run.update (·.leave env 1)
    go outer (depth - 1) (position + 1)
  | .ok (.leave hops target) => do
    let outer ← Run.update (·.leave env hops)
    go outer (depth - hops) target
  | .ok .stop => stop env depth none
  | .error error => stop env depth (some error)

def run (program : Program) (call : Caller) : Nat → EnvRef → Nat → Nat → Run Halt
  | 0, _, _, _ => Run.exhausted
  | fuel + 1, env, depth, position =>
    match program.instr? position with
    | none => stop env depth none
    | some instr => Run.attempt (act call env instr) >>= follow (run program call fuel) env depth position

def exec (program : Program) (call : Caller) (fuel : Nat) (root : EnvRef) : Run Unit := do
  Run.modify (·.retain root)
  let (env, failure) ← run program call fuel root 0 0
  Run.modify (·.drop env)
  match failure with
  | some error => Run.fail error
  | none => pure ()

end Counter

end MiniGo
