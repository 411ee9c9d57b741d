import MiniGo.Code
import MiniGo.CompileError
import MiniGo.Tree
/-!
Names in scope while a function is compiled.

A scope is a list of frames, the innermost first. A frame that declares variables has an
environment of its own at run time, the others share the one around them; `hops` counts the
environments between a frame and the frame that declares a name.
-/

namespace MiniGo

inductive Symbol
  | var (slot : Slot)
  | const (value : Const) (type : Ty)
  | type (type : Ty)
  | builtin (builtin : Builtin)
deriving DecidableEq, Repr

/-- Names that every file can use and any frame can hide. -/
def universe? (name : String) : Option Symbol :=
  match name with
  | "true" => some (.const (.bool true) .bool)
  | "false" => some (.const (.bool false) .bool)
  | "nil" => some (.const .nil .nil)
  | "bool" => some (.type .bool)
  | "int" => some (.type .int)
  | "float64" => some (.type .float)
  | "string" => some (.type .string)
  | "any" => some (.type .any)
  | other => (Builtin.ofName? other).map .builtin

/-- The exits that a frame offers to the statements in it. -/
structure LoopInfo where
  continues : Bool
  labels : List String
deriving DecidableEq, Repr

/-- The results of the function that a frame belongs to. -/
structure FuncInfo where
  results : List Slot
  named : Bool
deriving DecidableEq, Repr

/-- One lexical scope. `owned` tells whether entering it pushes an environment. -/
structure Frame where
  owned : Bool
  symbols : List (String × Symbol) := []
  objects : Nat := 0
  words : Nat := 0
  loop : Option LoopInfo := none
  func : Option FuncInfo := none
deriving DecidableEq, Repr

abbrev Scope := List Frame

namespace Frame

def cost (frame : Frame) : Nat := if frame.owned then 1 else 0

def symbol? (frame : Frame) (name : String) : Option Symbol := frame.symbols.lookup name

/-- Takes the next free slot for a variable of a type. -/
def allocate (frame : Frame) (type : Ty) : Slot × Frame :=
  if type.isScalar then (⟨.word, frame.words, type⟩, { frame with words := frame.words + 1 })
  else (⟨.object, frame.objects, type⟩, { frame with objects := frame.objects + 1 })

/-- Enters a name that is new to the frame. The blank identifier declares nothing. -/
def declareSymbol (frame : Frame) (name : String) (symbol : Symbol) (span : Span) :
    Compiled Frame :=
  if name == "_" then pure frame
  else if (frame.symbol? name).isSome then fault (.redeclared name) span
  else pure { frame with symbols := (name, symbol) :: frame.symbols }

/-- Declares a variable and gives its slot, none for the blank identifier. -/
def declareVar (frame : Frame) (name : String) (type : Ty) (span : Span) :
    Compiled (Option Slot × Frame) :=
  if name == "_" then pure (none, frame)
  else if (frame.symbol? name).isSome then fault (.redeclared name) span
  else
    let (slot, frame) := frame.allocate type
    pure (some slot, { frame with symbols := (name, .var slot) :: frame.symbols })

/-- Declares the variables of a list of names, each with its type. -/
def declareVars (frame : Frame) : List (Ident × Ty) → Compiled (List (Option Slot) × Frame)
  | [] => pure ([], frame)
  | (ident, type) :: rest => do
    let (slot, frame) ← frame.declareVar ident.name type ident.span
    let (slots, frame) ← frame.declareVars rest
    pure (slot :: slots, frame)

/-- Declares the parameters of a function; one without a name has no slot. -/
def declareParams (frame : Frame) : List (Option Ident × Ty) → Compiled (List (Option Slot) × Frame)
  | [] => pure ([], frame)
  | (some ident, type) :: rest => do
    let (slot, frame) ← frame.declareVar ident.name type ident.span
    let (slots, frame) ← frame.declareParams rest
    pure (slot :: slots, frame)
  | (none, _) :: rest => do
    let (slots, frame) ← frame.declareParams rest
    pure (none :: slots, frame)

/-- Declares a result of a function; one without a name gets a slot all the same. -/
def declareResult (frame : Frame) (type : Ty) : Option Ident → Compiled (Slot × Frame)
  | none => pure (frame.allocate type)
  | some ident => do
    match ← frame.declareVar ident.name type ident.span with
    | (some slot, frame) => pure (slot, frame)
    | (none, frame) => pure (frame.allocate type)

def declareResults (frame : Frame) : List (Option Ident × Ty) → Compiled (List Slot × Frame)
  | [] => pure ([], frame)
  | (name, type) :: rest => do
    let (slot, frame) ← frame.declareResult type name
    let (slots, frame) ← frame.declareResults rest
    pure (slot :: slots, frame)

def vars (frame : Frame) : List (String × Slot) :=
  frame.symbols.filterMap fun (name, symbol) =>
    match symbol with
    | .var slot => some (name, slot)
    | _ => none

end Frame

namespace Scope

/-- The innermost declaration of a name, and the environments to leave on the way to it. -/
def declared? (name : String) : Scope → Option (Nat × Symbol)
  | [] => none
  | frame :: outer =>
    match frame.symbol? name with
    | some symbol => some (0, symbol)
    | none => (declared? name outer).map fun (hops, symbol) => (frame.cost + hops, symbol)

/-- What a name stands for: its innermost declaration, or else its predeclared meaning. -/
def lookup (scope : Scope) (name : String) : Option (Nat × Symbol) :=
  (scope.declared? name).or ((universe? name).map (0, ·))

/-- The innermost statement with an exit of a kind, and a label if one is asked for: the
environments to leave and the level of its frame. A function is left only by returning. -/
def exit? (kind : ExitKind) (label : Option String) : Scope → Option (Nat × Nat)
  | [] => none
  | frame :: outer =>
    let offered := frame.loop.any fun info =>
      (kind == .break || info.continues) && label.all info.labels.contains
    if offered then some (0, outer.length)
    else if frame.func.isSome then none
    else (exit? kind label outer).map fun (hops, level) => (frame.cost + hops, level)

/-- The function around a statement, and the environments up to it. -/
def function? : Scope → Option (Nat × FuncInfo)
  | [] => none
  | frame :: outer =>
    match frame.func with
    | some info => some (0, info)
    | none => (function? outer).map fun (hops, info) => (frame.cost + hops, info)

mutual

def resolve (scope : Scope) (span : Span) : TypeExpr → Compiled Ty
  | .named name =>
    match scope.lookup name with
    | some (_, .type type) => pure type
    | some _ => fault (.notType name) span
    | none => fault (.undefined name) span
  | .slice elem => do
    let elem ← resolve scope span elem
    pure (.slice elem)
  | .map key value => do
    let key ← resolve scope span key
    if !key.isKey then fault (.invalidKey key) span
    let value ← resolve scope span value
    pure (.map key value)
  | .chan direction elem => do
    let elem ← resolve scope span elem
    pure (.chan direction elem)
  | .func params results variadic => do
    let params ← resolveParams scope span variadic params
    let results ← resolveFields scope span results
    pure (.func params results variadic)

/-- Types of a parameter list; the last of a variadic one collects a slice. -/
def resolveParams (scope : Scope) (span : Span) (variadic : Bool) :
    List (Field TypeExpr) → Compiled (List Ty)
  | [] => pure []
  | [⟨_, type⟩] => do
    let type ← resolve scope span type
    pure [if variadic then .slice type else type]
  | ⟨_, type⟩ :: rest => do
    let type ← resolve scope span type
    let rest ← resolveParams scope span variadic rest
    pure (type :: rest)

def resolveFields (scope : Scope) (span : Span) : List (Field TypeExpr) → Compiled (List Ty)
  | [] => pure []
  | ⟨_, type⟩ :: rest => do
    let type ← resolve scope span type
    let rest ← resolveFields scope span rest
    pure (type :: rest)

end

def resolveHead (scope : Scope) (span : Span) (head : FuncHead) : Compiled Signature := do
  let params ← scope.resolveParams span head.variadic head.params
  let results ← scope.resolveFields span head.results
  pure { params, results, variadic := head.variadic }

/-- A type in the place of an expression; none for `nil`. -/
def typeOperand (scope : Scope) : Expr → Compiled (Option Ty)
  | .type written span => do
    let type ← scope.resolve span written
    pure (some type)
  | .ident ident =>
    match scope.lookup ident.name with
    | some (_, .type type) => pure (some type)
    | some (_, .const .nil _) => pure none
    | some _ => fault (.notType ident.name) ident.span
    | none => fault (.undefined ident.name) ident.span
  | other => fault .notTypeExpression other.span

end Scope

end MiniGo
