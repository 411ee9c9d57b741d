import MiniGo.Interpreter
/-!
Programs put together by hand. Labels and the size of pushed environments are looked up when a
program is linked, so they can be given after the instructions that use them.
-/

namespace MiniGo

inductive AssemblyOp
  | advance
  | goto (position : Nat)
  /-- Jumps to a label, to the start if it has no position. -/
  | jump (label : String)
  | push
  | pop
  | leave (hops position : Nat)
  | write (text : String)
  | fail (error : RuntimeError)
  | interrupt (signal : Signal)
  | stop

structure AssemblyLine where
  op : AssemblyOp
  span : Span := {}

structure Assembly where
  lines : List AssemblyLine := []
  defers : Bool := false
  labels : List (String × Nat) := []
  objects : Nat := 0
  words : Nat := 0

def printCall (text : String) : Invocation :=
  ⟨.func ⟨⟨[.string], [], false⟩, .builtin .print⟩, [.str text], false⟩

namespace Assembly

def append (assembly : Assembly) (op : AssemblyOp) (span : Span) : Assembly :=
  { assembly with lines := assembly.lines ++ [⟨op, span⟩] }

def truncate (assembly : Assembly) (length : Nat) : Assembly :=
  { assembly with lines := assembly.lines.take length }

def markDefers (assembly : Assembly) : Assembly := { assembly with defers := true }

def setLabel (assembly : Assembly) (label : String) (position : Nat) : Assembly :=
  { assembly with labels := (label, position) :: assembly.labels }

def setCounts (assembly : Assembly) (objects words : Nat) : Assembly :=
  { assembly with objects, words }

def instr (assembly : Assembly) : AssemblyOp → Instr
  | .advance => .skip
  | .goto position => .goto position
  | .jump label => .goto ((assembly.labels.lookup label).getD 0)
  | .push => .push assembly.objects assembly.words
  | .pop => .pop
  | .leave hops position => .leave hops (.line position)
  | .write text =>
    .eval (.call (.builtin .print [.string]) (.each [.const (.str text)]) false)
  | .fail error => .raise error
  | .interrupt signal => .interrupt signal
  | .stop => .stop

/-- The program of some instructions, with the labels and sizes of an assembly. -/
def link (assembly : Assembly) (lines : List AssemblyLine) (defers : Bool) : Program :=
  ⟨(lines.map fun line => ⟨assembly.instr line.op, line.span⟩).toArray, defers⟩

def program (assembly : Assembly) : Program := assembly.link assembly.lines assembly.defers

/-- Executes a program in a new interpreter, in a file environment without variables, from a position
on. A text makes a call that prints it pending as deferred. -/
def execute (program : Program) (position : Nat) (deferred : Option String) (fuel : Nat) :
    EnvRef × Except HostError Unit × Interpreter :=
  let interpreter := Interpreter.new { captureOutput := true }
  let thread := interpreter.thread
  let (env, world) := interpreter.world.acquire thread none program position 0 0
  let world := match deferred with
    | some text => world.installDefer thread (printCall text)
    | none => world
  (env, { interpreter with world }.perform fuel (Machine.exec [] fuel env))

end Assembly

end MiniGo
