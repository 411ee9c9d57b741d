import MiniGo.CompiledFile
import MiniGo.HostFunction
import MiniGo.Tasks
/-!
What a host does with a program: provide functions, load a file, call functions, read variables.
-/

namespace MiniGo

/-- Why a request of the host was not carried out. -/
inductive HostError
  | compile (error : CompileError)
  | runtime (error : RuntimeError)
  | notLoaded
  | undefinedFunction (name : String)
  /-- Every task waits for another one. -/
  | stuck
  | broken (reason : Broken)

namespace HostError

def name : HostError → String
  | compile error => error.cause.kind.name
  | runtime error => error.name
  | notLoaded => "NotLoaded"
  | undefinedFunction _ => "UndefinedFunction"
  | stuck => "Stuck"
  | broken .exhausted => "Exhausted"
  | broken (.watched ..) => "Watched"

def message : HostError → String
  | compile error => error.message
  | runtime error => error.message
  | notLoaded => "no file loaded"
  | undefinedFunction name => "undefined function: " ++ name
  | stuck => "all tasks are blocked"
  | broken .exhausted => "out of steps"
  | broken (.watched ..) => "stopped by a watch"

end HostError

structure Native where
  name : String
  signature : Signature
  function : HostFunction

structure Interpreter where
  world : World
  thread : ThreadRef
  natives : List Native := []
  fileEnv : Option EnvRef := none
  symbols : List (String × Slot) := []
  tasks : Tasks Unit := {}
  watch : Watch := .never

namespace Interpreter

def new (options : Options) : Interpreter :=
  let (thread, world) := World.newThread { options } {}
  { world, thread }

def host (interpreter : Interpreter) : Host := interpreter.natives.map (·.function)

def runTask (interpreter : Interpreter) (fuel : Nat) : Spawn → Run Unit :=
  Machine.runTask interpreter.watch interpreter.host fuel

/-- Runs a computation, and the tasks of the program whenever it waits. -/
def perform {α : Type} (interpreter : Interpreter) (fuel : Nat) (run : Run α) :
    Except HostError α × Interpreter :=
  match Tasks.drive (interpreter.runTask fuel) fuel interpreter.tasks (run interpreter.world) with
  | .finished (.ok value) world tasks => (.ok value, { interpreter with world, tasks })
  | .finished (.error error) world tasks =>
    (.error (.runtime error), { interpreter with world, tasks })
  | .stuck world tasks => (.error .stuck, { interpreter with world, tasks })
  | .broken reason => (.error (.broken reason), interpreter)

/-- Makes a function visible to files that are loaded afterwards. -/
def define (interpreter : Interpreter) (native : Native) : Interpreter :=
  { interpreter with natives := interpreter.natives ++ [native] }

/-- Fills the variables of the functions that the host provides. -/
def storeNatives (env : EnvRef) (symbols : List (String × Slot)) : List (Native × Nat) → Run Unit
  | [] => pure ()
  | (native, index) :: rest => do
    match symbols.lookup native.name with
    | some slot => Run.store env slot (.func ⟨native.signature, .native index⟩)
    | none => pure ()
    storeNatives env symbols rest

/-- Runs the instructions of a file in a new environment, which is kept unless they fail. -/
def enterFile (interpreter : Interpreter) (fuel : Nat) (file : CompiledFile) : Run EnvRef := do
  let env ← Run.update fun world =>
    world.acquire interpreter.thread none file.program 0 file.objects file.words
  Run.modify (·.setFileEnv interpreter.thread env)
  storeNatives env file.symbols interpreter.natives.zipIdx
  match ← Run.attempt (Machine.watchedExec interpreter.watch interpreter.host fuel env) with
  | .ok () => pure env
  | .error error => do
    Run.modify (·.drop env)
    Run.fail error

/-- Loads a file. When that fails, the file loaded before stays. -/
def load (interpreter : Interpreter) (fuel : Nat) (source : SourceFile) :
    Except HostError Unit × Interpreter :=
  let natives := interpreter.natives.map fun native => (native.name, native.signature)
  match Compile.file source natives with
  | .error error => (.error (.compile error), interpreter)
  | .ok file =>
    match interpreter.perform fuel (interpreter.enterFile fuel file) with
    | (.error error, interpreter) => (.error error, interpreter)
    | (.ok env, interpreter) =>
      let world := match interpreter.fileEnv with
        | some former => interpreter.world.drop former
        | none => interpreter.world
      (.ok (), { interpreter with world, fileEnv := some env, symbols := file.symbols })

/-- An environment for statements that stand outside any function. -/
def enter (interpreter : Interpreter) (piece : Piece) : EnvRef × Interpreter :=
  let (env, world) := interpreter.world.acquire interpreter.thread none piece.program 0
    piece.frame.objects piece.frame.words
  (env, { interpreter with world })

/-- The value of a variable or function of the file. -/
def global? (interpreter : Interpreter) (name : String) : Option Value := do
  let env ← interpreter.fileEnv
  let slot ← interpreter.symbols.lookup name
  pure (interpreter.world.load env slot)

/-- Calls a function of the file. The arguments are not checked against its parameters. -/
def call (interpreter : Interpreter) (fuel : Nat) (name : String) (args : List Value) :
    Except HostError (List Value) × Interpreter :=
  if interpreter.fileEnv.isNone then (.error .notLoaded, interpreter)
  else
    match interpreter.global? name with
    | some (.func function) =>
      interpreter.perform fuel
        (Machine.watchedCall interpreter.watch interpreter.host fuel interpreter.thread
          ⟨.func function, args, false⟩)
    | _ => (.error (.undefinedFunction name), interpreter)

/-- Waits for all tasks, including those started meanwhile. -/
def wait (interpreter : Interpreter) (fuel : Nat) : Except HostError Unit × Interpreter :=
  match Tasks.join (interpreter.runTask fuel) Tasks.isIdle fuel interpreter.tasks
      interpreter.world with
  | .finished _ world tasks => (.ok (), { interpreter with world, tasks })
  | .stuck world tasks => (.error .stuck, { interpreter with world, tasks })
  | .broken reason => (.error (.broken reason), interpreter)

/-- Calls `main`, then waits for all tasks, whether it has failed or not. -/
def run (interpreter : Interpreter) (fuel : Nat) : Except HostError Unit × Interpreter :=
  let (result, interpreter) := interpreter.call fuel "main" []
  match interpreter.wait fuel with
  | (.ok (), interpreter) => (result.map fun _ => (), interpreter)
  | (.error error, interpreter) => (.error error, interpreter)

def takeOutput (interpreter : Interpreter) : String × Interpreter :=
  let (text, world) := interpreter.world.takeOutput
  (text, { interpreter with world })

end Interpreter

end MiniGo
