import MiniGo.Compile
/-!
Compilation of a whole file, and of statements that stand outside any function.

Types, constants and functions of a file are declared before any initial value is compiled, so an
initial value may call any function; function bodies see every name of the file. When the file is
loaded, functions are bound first, then variables are initialised in order, then `init` functions
run.
-/

namespace MiniGo

/-- A file ready to be loaded: its instructions, the size of its environment and the slots of its
variables and functions. -/
structure CompiledFile where
  program : Program
  objects : Nat
  words : Nat
  symbols : List (String × Slot)

/-- A function declaration of a file, with the slot of its name. -/
structure FileFunc where
  slot : Option Slot
  head : FuncHead
  body : Block
  span : Span

/-- The names declared by the first pass over a file, and the functions left to compile. -/
structure FileScope where
  frame : Frame := { owned := true }
  funcs : List FileFunc := []
  inits : List FileFunc := []

namespace FileScope

/-- Declares the functions that the host provides, as variables. -/
def declareNatives (scope : FileScope) : List (String × Signature) → Compiled FileScope
  | [] => pure scope
  | (name, signature) :: rest => do
    let (_, frame) ← scope.frame.declareVar name signature.toTy {}
    declareNatives { scope with frame } rest

/-- Declares a function. A function `init` has no name in the file and runs when it is loaded. -/
def addFunc (scope : FileScope) (name : Ident) (head : FuncHead) (body : Block) (span : Span) :
    Compiled FileScope :=
  if name.name == "init" then
    if head.params.isEmpty && head.results.isEmpty then
      pure { scope with inits := scope.inits ++ [⟨none, head, body, span⟩] }
    else fault .initSignature span
  else do
    let signature ← Scope.resolveHead [scope.frame] span head
    let (slot, frame) ← scope.frame.declareVar name.name signature.toTy name.span
    pure { scope with frame, funcs := scope.funcs ++ [⟨slot, head, body, span⟩] }

def declareAll (scope : FileScope) : SourceFile → Compiled FileScope
  | [] => pure scope
  | declaration :: rest => do
    let scope ← match declaration with
      | .type specs _ => do
        let frame ← Compile.typeSpecs [] scope.frame specs
        pure { scope with frame }
      | .const specs _ => do
        let frame ← Compile.constSpecs [] scope.frame specs
        pure { scope with frame }
      | .func name head body span => scope.addFunc name head body span
      | .var _ _ => pure scope
    scope.declareAll rest

end FileScope

namespace Compile

/-- Declares and initialises the variables of a file. -/
def fileVars (frame : Frame) : SourceFile → Compiled Piece
  | [] => pure (.none frame)
  | .var specs _ :: rest => do
    let first ← varSpecs [] frame 0 specs
    let others ← fileVars first.frame rest
    pure ((first.toFragment ++ others.toFragment).within others.frame)
  | _ :: rest => fileVars frame rest

/-- Compiles functions one by one; `instr` tells what is done with each. -/
def fileFuncs (scope : Scope) (instr : Option Slot → Template → Option Instr) :
    List FileFunc → Compiled Fragment
  | [] => pure {}
  | func :: rest => do
    let template ← function scope func.head func.span func.body
    let first : Fragment := match instr func.slot template with
      | some instr => .one instr func.span
      | none => {}
    let others ← fileFuncs scope instr rest
    pure (first ++ others)

/-- Compiles a file for a host that provides the functions `natives`. -/
def file (source : SourceFile) (natives : List (String × Signature)) : Compiled CompiledFile := do
  let scope ← FileScope.declareNatives {} natives
  let scope ← scope.declareAll source
  let vars ← fileVars scope.frame source
  let binds ← fileFuncs [vars.frame] (fun slot template => slot.map (.bind · template)) scope.funcs
  let inits ← fileFuncs [vars.frame] (fun _ template => some (.callInit template)) scope.inits
  let all := binds ++ vars.toFragment ++ inits
  pure
    { program := ⟨all.lines.toArray, all.defers⟩
      objects := vars.frame.objects
      words := vars.frame.words
      symbols := vars.frame.vars }

end Compile

/-- How statements outside any function are compiled. -/
inductive SnippetMode
  | each
  /-- As the body of a function, which must not be empty. -/
  | body
  /-- As one block. -/
  | block
deriving DecidableEq, Repr

namespace Compile

/-- The frame that statements outside any function are compiled in. -/
def snippetFrame : Frame := { owned := true }

def snippet (mode : SnippetMode) (statements : List Stmt) : Compiled Piece :=
  match mode, statements with
  | .body, [] => fault .emptyList {}
  | .block, [.block body] => do
    let fragment ← block [snippetFrame] 0 body
    pure (fragment.within snippetFrame)
  | _, statements => stmts [] snippetFrame 0 false statements

end Compile

def Piece.program (piece : Piece) : Program := ⟨piece.lines.toArray, piece.defers⟩

end MiniGo
