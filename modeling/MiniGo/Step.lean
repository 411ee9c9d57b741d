import MiniGo.RangeLoop
/-!
Execution of one instruction. An instruction names the one to run next and the environment to run it
in. One that fails leaves its error with the thread as a pending panic, and nothing runs next.
-/

namespace MiniGo

/-- The instruction to run next, if any, and its environment. -/
abbrev Next := Option Instr × EnvRef

namespace Step

def goto (env : EnvRef) (position : Nat) : Run Next :=
  Run.update fun world =>
    let world := world.setIp env position
    ((world.instr? env, env), world)

def advance (env : EnvRef) : Run Next :=
  Run.update fun world =>
    let world := world.setIp env (world.ip env + 1)
    ((world.instr? env, env), world)

def interrupt (env : EnvRef) (signal : Signal) : Run Next := do
  Run.modify fun world => world.raise (world.threadOf env) signal
  pure (none, env)

def raise (env : EnvRef) (error : RuntimeError) : Run Next := do
  Run.modify fun world => world.setPanic (world.threadOf env) error
  interrupt env .panic

def storeSlots (env : EnvRef) : List Slot → List Value → Run Unit
  | slot :: slots, value :: values => do
    Run.store env slot value
    storeSlots env slots values
  | _, _ => pure ()

/-- Stores initial values; a value without a slot is dropped. -/
def storeInit (env : EnvRef) : List (Option Slot) → List Value → Run Unit
  | some slot :: slots, value :: values => do
    Run.store env slot value
    storeInit env slots values
  | none :: slots, _ :: values => storeInit env slots values
  | _, _ => pure ()

/-- Position of the first case that equals the tag. -/
def findCase (call : Caller) (env : EnvRef) (tag : Value) (fallback : Nat) :
    List (Code × Nat) → Run Nat
  | [] => pure fallback
  | (code, start) :: rest => do
    let value ← eval call env code
    if value.equals tag then pure start else findCase call env tag fallback rest

/-- Position of the first case that lists the type of a value; none stands for `nil`. -/
def findType (value : Value) (fallback : Nat) : List (Option Ty × Nat) → Nat
  | [] => fallback
  | (none, start) :: rest => if value.isNil then start else findType value fallback rest
  | (some type, start) :: rest =>
    if value.hasType type then start else findType value fallback rest

/-- Starts a task. The operands of its call are evaluated by the code that starts it, in an
environment of the new thread. -/
def spawn (call : Caller) (env : EnvRef) (node : Call) : Run Unit := do
  let thread ← Run.update fun world => world.spawnThread (world.threadOf env)
  let operands ← Run.update (·.acquire thread (some env) {} 0 0 0)
  let evaluated ← Run.attempt (evalCall call operands node)
  Run.modify (·.drop operands)
  let invocation ← Run.ofExcept evaluated
  Run.modify fun world =>
    { world with
      spawned := world.spawned + 1, pending := world.pending ++ [⟨thread, invocation⟩] }

/-- Copies slots of the environment around one, each into its partner. -/
def adopt (env : EnvRef) : List (Slot × Slot) → Run Unit
  | [] => pure ()
  | (source, slot) :: rest => do
    let value ← Run.load env 1 source
    Run.store env slot value
    adopt env rest

def park (env : EnvRef) (parked : Option (Slot × Slot)) (received : Option (Value × Bool)) :
    Run Unit :=
  match parked, received with
  | some (valueSlot, flagSlot), some (value, flag) => do
    Run.store env valueSlot value
    Run.store env flagSlot (.bool flag)
  | _, _ => pure ()

/-- What an instruction does. `fuel` bounds the rounds of a select. -/
def run (call : Caller) (fuel : Nat) (env : EnvRef) : Instr → Run Next
  | .skip => advance env
  | .stop => pure (none, env)
  | .interrupt signal => interrupt env signal
  | .raise error => Run.fail error
  | .eval values => do
    let _ ← evalValues call env values
    advance env
  | .goto position => goto env position
  | .jumpUnless cond position => do
    let value ← eval call env cond
    let holds ← Run.asBool value
    if holds then advance env else goto env position
  | .push objects words => do
    let inner ← Run.update (·.push env objects words)
    Run.modify (·.drop env)
    advance inner
  | .pop => do
    let outer ← Run.update (·.pop env)
    advance outer
  | .leave hops dest => do
    let outer ← Run.update (·.leave env hops)
    goto outer dest.position
  | .ret hops results values => do
    let values ← evalValues call env values
    let target ← Run.read (·.up env hops)
    storeSlots target results values
    interrupt env .ret
  | .defer node => do
    let invocation ← evalCall call env node
    Run.modify fun world =>
      let thread := world.threadOf env
      (world.setIp env (world.ip env + 1)).installDefer thread invocation
    interrupt env .defer
  | .go node => do
    spawn call env node
    advance env
  | .send channel value => do
    let channel ← eval call env channel
    let value ← eval call env value
    Run.sendTo channel value
    advance env
  | .assign places values => do
    let locations ← Location.ofPlaces call env places
    let values ← evalValues call env values
    Location.storeAll locations values
    advance env
  | .update op place operand => do
    let location ← Location.ofPlace call env place
    let current ← location.load
    let operand ← eval call env operand
    let value ← Run.ofExcept (Value.binary op current operand)
    location.store value
    advance env
  | .init slots values => do
    let values ← evalValues call env values
    storeInit env slots values
    advance env
  | .bind slot template => do
    let function ← Run.closure template env
    Run.store env slot function
    advance env
  | .callInit template => do
    let function ← Run.closure template env
    let thread ← Run.read (·.threadOf env)
    let _ ← call thread ⟨function, [], false⟩
    advance env
  | .switch tag cases fallback => do
    let tag ← eval call env tag
    let position ← findCase call env tag fallback cases
    goto env position
  | .typeSwitch subject cases fallback parked => do
    let value ← eval call env subject
    match parked with
    | some slot => Run.store env slot value
    | none => pure ()
    goto env (findType value fallback cases)
  | .select comms fallback parked => do
    let cases ← evalComms call env (comms.map (·.1))
    match ← Run.select fuel cases fallback.isSome with
    | .case index received => do
      park env parked received
      goto env ((comms[index]?.map (·.2)).getD 0)
    | .default => goto env (fallback.getD 0)
  | .adopt pairs => do
    adopt env pairs
    advance env
  | .unpark (valueSlot, flagSlot) value flag => do
    let target ← Location.ofPlace call env value
    let flagTargets ← Location.ofPlaces call env flag.toList
    let value ← Run.load env 0 valueSlot
    target.store value
    let flag ← Run.load env 0 flagSlot
    Location.storeAll flagTargets [flag]
    advance env
  | .rangeStart kind key state subject => do
    let subject ← eval call env subject
    state.start kind key env subject
    advance env
  | .rangeNext kind state key value exit => do
    match ← state.next kind env with
    | some (nextKey, nextValue) => do
      storeTarget call env key nextKey
      storeTarget call env value nextValue
      advance env
    | none => goto env exit
  | .rangeStep state => do
    state.advance env
    advance env

end Step

/-- Runs one instruction; a failure becomes a pending panic. -/
def step (call : Caller) (fuel : Nat) (env : EnvRef) (instr : Instr) : Run Next := do
  match ← Run.attempt (Step.run call fuel env instr) with
  | .ok next => pure next
  | .error error => Step.raise env error

end MiniGo
