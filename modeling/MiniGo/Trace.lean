import MiniGo.Interpreter
/-!
Execution one instruction at a time, with a record of the environment after each.
-/

namespace MiniGo

/-- The environment that an instruction goes on in, and whether one is to run next. -/
structure TraceStep where
  ip : Nat
  depth : Nat
  objects : Nat
  words : Nat
  hasNext : Bool
deriving DecidableEq, Repr

namespace TraceStep

def ofNext (world : World) : Next → TraceStep
  | (next, env) =>
    let slots := ((world.env? env).map (·.slots)).getD {}
    { ip := world.ip env
      depth := world.depth env
      objects := slots.objects.size
      words := slots.words.size
      hasNext := next.isSome }

end TraceStep

namespace Machine

/-- Runs at most `limit` instructions, without looking at signals. -/
def trace (host : Host) (fuel : Nat) : Nat → Next → Run (List TraceStep)
  | limit + 1, (some instr, env) => do
    let next ← step (call host fuel) fuel env instr
    let first ← Run.read (TraceStep.ofNext · next)
    let rest ← trace host fuel limit next
    pure (first :: rest)
  | _, _ => pure []

end Machine

/-- A traced run of statements: the steps, the environment they ran in, and the state after all
tasks have ended. -/
structure Trace where
  steps : List TraceStep
  env : EnvRef
  world : World

namespace Interpreter

/-- Runs statements that stand outside any function one instruction at a time, then waits for all
tasks. -/
def trace (interpreter : Interpreter) (fuel limit : Nat) (piece : Piece) : Trace :=
  let (env, interpreter) := interpreter.enter piece
  let first : Next := (piece.program.instr? 0, env)
  let (steps, interpreter) := interpreter.perform fuel (Machine.trace interpreter.host fuel limit first)
  let (_, interpreter) := interpreter.wait fuel
  ⟨steps.toOption.getD [], env, interpreter.world⟩

end Interpreter

end MiniGo
