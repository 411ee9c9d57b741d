import MiniGo.Environment
import MiniGo.Exchange
import MiniGo.Heap
import MiniGo.Options
/-!
The state of a whole program.

An environment is alive as long as something holds a reference to it: the code that runs in it, an
environment inside it, a closure, or the host. When the last reference is given back on leaving a
block, its slots go to a pool of the thread and serve a later environment. Environments are numbered
and their numbers never used again.
-/

namespace MiniGo

structure World where
  options : Options := {}
  heap : Heap := {}
  exchange : Exchange := {}
  envs : Array Env := #[]
  threads : Array Thread := #[]
  /-- Printed text that is kept for the host. -/
  output : String := ""
  /-- Printed text that is shown. -/
  console : String := ""
  /-- Block environments entered, and those left, the latest first. -/
  entered : List EnvRef := []
  exited : List EnvRef := []
  /-- Tasks started, and those of them that failed. -/
  spawned : Nat := 0
  failed : Nat := 0
  pending : List Spawn := []

namespace World

def pushed (world : World) : Nat := world.entered.length

def popped (world : World) : Nat := world.exited.length

def newThread (world : World) (thread : Thread) : ThreadRef × World :=
  (⟨world.threads.size⟩, { world with threads := world.threads.push thread })

def thread (world : World) (ref : ThreadRef) : Thread := world.threads.getD ref.index {}

def updateThread (world : World) (ref : ThreadRef) (change : Thread → Thread) : World :=
  { world with threads := world.threads.modify ref.index change }

/-- A thread with nothing pending and an empty pool that knows the file of its parent. -/
def spawnThread (world : World) (parent : ThreadRef) : ThreadRef × World :=
  let parent := world.thread parent
  world.newThread { fileEnv := parent.fileEnv, topEnv := parent.topEnv }

def env? (world : World) (ref : EnvRef) : Option Env := world.envs[ref.index]?

def updateEnv (world : World) (ref : EnvRef) (change : Env → Env) : World :=
  { world with envs := world.envs.modify ref.index change }

/-- Something still holds a reference to an environment. -/
def isAlive (world : World) (ref : EnvRef) : Bool := (world.env? ref).any (0 < ·.holders)

def ip (world : World) (ref : EnvRef) : Nat :=
  match world.env? ref with
  | some env => env.ip
  | none => 0

def setIp (world : World) (ref : EnvRef) (ip : Nat) : World :=
  world.updateEnv ref ({ · with ip })

def outer? (world : World) (ref : EnvRef) : Option EnvRef := (world.env? ref).bind (·.outer)

def threadOf (world : World) (ref : EnvRef) : ThreadRef :=
  match world.env? ref with
  | some env => env.thread
  | none => ⟨0⟩

/-- The environment some hops outward, or the outermost one. -/
def up (world : World) (ref : EnvRef) : Nat → EnvRef
  | 0 => ref
  | hops + 1 =>
    match world.outer? ref with
    | some outer => world.up outer hops
    | none => ref

def load (world : World) (ref : EnvRef) (slot : Slot) : Value :=
  match world.env? ref with
  | some env => env.slots.load slot
  | none => .nil

def store (world : World) (ref : EnvRef) (slot : Slot) (value : Value) : World :=
  world.updateEnv ref fun env => { env with slots := env.slots.store slot value }

def retain (world : World) (ref : EnvRef) : World :=
  world.updateEnv ref fun env => { env with holders := env.holders + 1 }

/-- Gives a reference back, at most `depth` environments deep. -/
def dropWithin (ref : EnvRef) (world : World) : Nat → World
  | 0 => world
  | depth + 1 =>
    match world.env? ref with
    | none => world
    | some env =>
      let world := world.updateEnv ref fun env => { env with holders := env.holders - 1 }
      match env.outer with
      | some outer => if env.holders = 1 then dropWithin outer world depth else world
      | none => world

/-- Gives a reference back. An environment that nobody holds any more gives its own reference to the
environment around it back. An environment is younger than the one around it, so the chain is no
longer than its number. -/
def drop (world : World) (ref : EnvRef) : World := dropWithin ref world (ref.index + 1)

/-- A new environment, with one reference, on the most recently pooled slots. -/
def acquire (world : World) (thread : ThreadRef) (outer : Option EnvRef) (program : Program)
    (ip objects words : Nat) : EnvRef × World :=
  let pool := (world.thread thread).pool
  let slots := (pool.headD {}).resize objects words
  let world := world.updateThread thread ({ · with pool := pool.tail })
  let world := match outer with
    | some outer => world.retain outer
    | none => world
  (⟨world.envs.size⟩,
    { world with envs := world.envs.push ⟨slots, ip, program, outer, thread, 1⟩ })

/-- Enters a block: an environment inside the given one, at the same instruction. -/
def push (world : World) (ref : EnvRef) (objects words : Nat) : EnvRef × World :=
  match world.env? ref with
  | none => (ref, world)
  | some env =>
    { world with entered := ⟨world.envs.size⟩ :: world.entered }.acquire env.thread (some ref)
      env.program env.ip objects words

/-- Gives a reference back. If it was the last one, the slots go to the pool of a thread, unless
that is full. -/
def recycle (world : World) (thread : ThreadRef) (ref : EnvRef) : World :=
  match world.env? ref with
  | none => world
  | some env =>
    let keep :=
      env.holders ≤ 1 && (world.thread thread).pool.length < world.options.poolCapacity
    let world :=
      if keep then
        world.updateThread thread fun thread => { thread with pool := env.slots :: thread.pool }
      else world
    world.drop ref

def release (world : World) (thread : ThreadRef) (ref : EnvRef) : World :=
  { world with exited := ref :: world.exited }.recycle thread ref

/-- Gives a reference to a block environment up for one to the environment around it. -/
def releaseTo (world : World) (ref outer : EnvRef) : World :=
  let thread := world.threadOf ref
  (world.retain outer).release thread ref

/-- Leaves a block and carries the current instruction out of it. The outermost environment is not
left. -/
def pop (world : World) (ref : EnvRef) : EnvRef × World :=
  match world.outer? ref with
  | none => (ref, world)
  | some outer => (outer, (world.setIp outer (world.ip ref)).releaseTo ref outer)

def leave (world : World) (ref : EnvRef) : Nat → EnvRef × World
  | 0 => (ref, world)
  | hops + 1 =>
    match world.outer? ref with
    | none => (ref, world)
    | some outer => (world.releaseTo ref outer).leave outer hops

/-- Leaves at most `depth` environments on the way to `root`. -/
def unwindWithin (root ref : EnvRef) (world : World) : Nat → EnvRef × World
  | 0 => (ref, world)
  | depth + 1 =>
    if ref = root then (ref, world)
    else
      match world.outer? ref with
      | none => (ref, world)
      | some outer => unwindWithin root outer (world.releaseTo ref outer) depth

def unwind (world : World) (root ref : EnvRef) : EnvRef × World :=
  unwindWithin root ref world (ref.index + 1)

def depthWithin (world : World) (ref : EnvRef) : Nat → Nat
  | 0 => 0
  | fuel + 1 =>
    match world.outer? ref with
    | some outer => world.depthWithin outer fuel + 1
    | none => 0

def depth (world : World) (ref : EnvRef) : Nat := world.depthWithin ref (ref.index + 1)

def instr? (world : World) (ref : EnvRef) : Option Instr :=
  (world.env? ref).bind fun env => env.program.instr? env.ip

/-- Makes an environment the file environment of a thread, without holding it. -/
def setFileEnv (world : World) (thread : ThreadRef) (ref : EnvRef) : World :=
  world.updateThread thread ({ · with fileEnv := some ref, topEnv := some ref })

/-- The file environment of a thread, unless its count is zero. A closure made in it keeps it counted
also when the closure is gone. -/
def fileEnv? (world : World) (thread : ThreadRef) : Option EnvRef :=
  (world.thread thread).fileEnv.filter world.isAlive

def topEnv? (world : World) (thread : ThreadRef) : Option EnvRef :=
  (world.thread thread).topEnv.filter world.isAlive

def raise (world : World) (thread : ThreadRef) (signal : Signal) : World :=
  world.updateThread thread ({ · with signal })

def takeSignal (world : World) (thread : ThreadRef) : Signal × World :=
  ((world.thread thread).signal, world.updateThread thread ({ · with signal := .none }))

def setPanic (world : World) (thread : ThreadRef) (error : RuntimeError) : World :=
  world.updateThread thread ({ · with panic := some error })

def takePanic (world : World) (thread : ThreadRef) : Option RuntimeError × World :=
  ((world.thread thread).panic, world.updateThread thread ({ · with panic := none }))

def installDefer (world : World) (thread : ThreadRef) (call : Invocation) : World :=
  world.updateThread thread ({ · with deferred := some call })

def takeDefer (world : World) (thread : ThreadRef) : Option Invocation × World :=
  ((world.thread thread).deferred, world.updateThread thread ({ · with deferred := none }))

def pooled (world : World) (thread : ThreadRef) : Nat := (world.thread thread).pool.length

def write (world : World) (text : String) : World :=
  if world.options.captureOutput then { world with output := world.output ++ text }
  else { world with console := world.console ++ text }

def takeOutput (world : World) : String × World := (world.output, { world with output := "" })

def text (world : World) (value : Value) : String := world.heap.text value

/-- Number of bytes, elements, entries or buffered values. -/
def length (world : World) : Value → Except RuntimeError Nat
  | .nil => pure 0
  | .str text => pure (Text.byteLength text)
  | .slice _ ref => pure (world.heap.items ref).size
  | .map _ _ ref => pure (world.heap.entries ref).length
  | .chan _ ref => pure (world.exchange.channel ref).length
  | other => throw (.typeMismatch ("invalid argument for len: " ++ other.typeName))

end World

end MiniGo
