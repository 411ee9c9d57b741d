import MiniGo.Select
import MiniGo.World
/-!
Computations of a running program. A computation may fail, and it may stop to wait: then it hands
out the state as it is, and what to do with the state found when the wait is over.
-/

namespace MiniGo

inductive Broken
  /-- The allotted number of steps was not enough. -/
  | exhausted
  /-- A watch stopped it where it was about to run an instruction, or none. -/
  | watched (env : EnvRef) (next : Option Instr) (world : World)

inductive Outcome (α : Type)
  | done (value : α) (world : World)
  | fail (error : RuntimeError) (world : World)
  | await (wait : Wait) (world : World) (resume : World → Outcome α)
  | broken (reason : Broken)

namespace Outcome

variable {α β : Type}

def bind (next : α → World → Outcome β) : Outcome α → Outcome β
  | done value world => next value world
  | fail error world => fail error world
  | await wait world resume => await wait world fun world => (resume world).bind next
  | broken reason => broken reason

theorem bind_assoc {γ : Type} (outcome : Outcome α) (next : α → World → Outcome β)
    (last : β → World → Outcome γ) :
    (outcome.bind next).bind last = outcome.bind fun value world => (next value world).bind last := by
  induction outcome with
  | done value world => rfl
  | fail error world => rfl
  | await wait world resume ih => exact congrArg (Outcome.await wait world) (funext ih)
  | broken reason => rfl

def attempt : Outcome α → Outcome (Except RuntimeError α)
  | done value world => done (.ok value) world
  | fail error world => done (.error error) world
  | await wait world resume => await wait world fun world => (resume world).attempt
  | broken reason => broken reason

end Outcome

def Run (α : Type) : Type := World → Outcome α

namespace Run

variable {α β : Type}

@[inline] def bind (first : Run α) (next : α → Run β) : Run β := fun world =>
  match first world with
  | .done value world => next value world
  | .fail error world => .fail error world
  | .await wait world resume => .await wait world fun world => (resume world).bind next
  | .broken reason => .broken reason

theorem bind_apply (first : Run α) (next : α → Run β) (world : World) :
    bind first next world = (first world).bind next := by
  simp only [bind]
  cases first world <;> rfl

@[inline] instance : Monad Run where
  pure value := fun world => .done value world
  bind := bind

theorem bind_assoc {γ : Type} (run : Run α) (next : α → Run β) (last : β → Run γ) :
    run >>= next >>= last = run >>= fun value => next value >>= last := by
  funext world
  show bind (bind run next) last world = bind run (fun value => (next value).bind last) world
  rw [bind_apply, bind_apply, bind_apply]
  refine (Outcome.bind_assoc (run world) next last).trans ?_
  exact congrArg (fun last => (run world).bind last)
    (funext fun value => funext fun world => (bind_apply (next value) last world).symm)

theorem bind_done {run : Run α} {world later : World} {value : α}
    (done : run world = .done value later) (next : α → Run β) :
    (run >>= next) world = next value later := by
  show bind run next world = _
  rw [bind_apply, done]
  rfl

@[inline] def attempt (run : Run α) : Run (Except RuntimeError α) := fun world =>
  match run world with
  | .done value world => .done (.ok value) world
  | .fail error world => .done (.error error) world
  | .await wait world resume => .await wait world fun world => (resume world).attempt
  | .broken reason => .broken reason

theorem attempt_apply (run : Run α) (world : World) :
    attempt run world = (run world).attempt := by
  simp only [attempt]
  cases run world <;> rfl

@[inline] def fail (error : RuntimeError) : Run α := fun world => .fail error world

@[inline] def exhausted : Run α := fun _ => .broken .exhausted

@[inline] def ofExcept (result : Except RuntimeError α) : Run α := fun world =>
  match result with
  | .ok value => .done value world
  | .error error => .fail error world

@[inline] def read (view : World → α) : Run α := fun world => .done (view world) world

@[inline] def tryRead (view : World → Except RuntimeError α) : Run α := fun world =>
  match view world with
  | .ok value => .done value world
  | .error error => .fail error world

@[inline] def modify (change : World → World) : Run Unit := fun world => .done () (change world)

@[inline] def update (change : World → α × World) : Run α := fun world =>
  let (value, world) := change world
  .done value world

theorem update_done {change : World → α × World} {world later : World} {value : α}
    (changed : change world = (value, later)) : update change world = .done value later := by
  simp only [update, changed]

/-- Changes the contents of slices and maps, and may fail. -/
@[inline] def tryHeap (change : Heap → Except RuntimeError Heap) : Run Unit := fun world =>
  match change world.heap with
  | .ok heap => .done () { world with heap }
  | .error error => .fail error world

@[inline] def updateHeap (change : Heap → α × Heap) : Run α := fun world =>
  let (value, heap) := change world.heap
  .done value { world with heap }

@[inline] def updateExchange (change : Exchange → α × Exchange) : Run α := fun world =>
  let (value, exchange) := change world.exchange
  .done value { world with exchange }

@[inline] def tryExchange (change : Exchange → Except RuntimeError (α × Exchange)) : Run α :=
  fun world =>
    match change world.exchange with
    | .ok (value, exchange) => .done value { world with exchange }
    | .error error => .fail error world

def yield : Run Unit := fun world => .await .turn world fun world => .done () world

def waitFor (wait : Wait) : Run Unit := fun world =>
  if wait.isOver world.exchange then .done () world
  else .await wait world fun world => .done () world

/-- Sends a value. A channel without capacity keeps the sender until the value is taken. -/
def send (ref : ChanRef) (value : Value) : Run Unit := do
  waitFor (.room ref)
  let ticket ← tryExchange (·.send ref value)
  let capacity ← read (·.exchange.channel ref |>.capacity)
  if capacity = 0 then waitFor (.delivery ref ticket)

/-- Receives a value, or the zero value and `false` from a channel that is closed and empty. -/
def recv (elem : Ty) (ref : ChanRef) : Run (Value × Bool) := do
  modify fun world => { world with exchange := world.exchange.enterRecv ref }
  waitFor (.arrival ref)
  let found ← updateExchange (·.leaveRecv ref)
  pure (received elem found)

def recvAll (elem : Ty) (ref : ChanRef) : Nat → Run (List Value)
  | 0 => exhausted
  | fuel + 1 => do
    match ← recv elem ref with
    | (value, true) => do
      let rest ← recvAll elem ref fuel
      pure (value :: rest)
    | (_, false) => pure []

def close (ref : ChanRef) : Run Unit :=
  tryExchange fun exchange => do
    let exchange ← exchange.close ref
    pure ((), exchange)

def selectRounds : Nat → Selecting → Run Selected
  | 0, _ => exhausted
  | fuel + 1, select => do
    let ending ← updateExchange select.step
    match ← ofExcept ending with
    | .chosen selected => pure selected
    | .sleep since next => do
      waitFor (.activity since)
      selectRounds fuel next

/-- Performs one of several communications. Whoever takes the default gives others a turn first, so
that asking again and again does not keep them from running. -/
def select (fuel : Nat) (cases : List SelectCase) (hasDefault : Bool) : Run Selected := do
  if cases.isEmpty && !hasDefault then fail (.panic "select with no cases blocks forever")
  else
    let claim ← updateExchange Exchange.newClaim
    let selected ← selectRounds fuel { cases, hasDefault, claim }
    match selected with
    | .default => yield
    | .case .. => pure ()
    pure selected

def newSlice (elem : Ty) (items : List Value) : Run Value := do
  let ref ← updateHeap (·.newSlice items.toArray)
  pure (.slice elem ref)

def newMap (key elem : Ty) : Run Value := do
  let ref ← updateHeap Heap.newMap
  pure (.map key elem ref)

def newChan (elem : Ty) (capacity : Nat) : Run Value := do
  let ref ← updateExchange (·.newChannel capacity)
  pure (.chan elem ref)

end Run

end MiniGo
