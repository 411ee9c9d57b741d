import MiniGo.Emit
/-!
Assignments, definitions and declarations, once their operands are compiled.
-/

namespace MiniGo

inductive Rhs
  /-- One expression for each target. -/
  | each (operands : List Operand)
  /-- One expression with a value for each target. -/
  | multi (operand : Operand)

namespace Rhs

def ofSingle (operand : Operand) (count : Nat) (span : Span) : Compiled Rhs :=
  if operand.arity = 1 ∧ count = 1 then pure (.each [operand])
  else if operand.arity ≠ count then fault (.assignmentMismatch count operand.arity) span
  else pure (.multi operand)

/-- Types of the values; an operand of `each` must have exactly one. -/
def types : Rhs → Compiled (List Ty)
  | .each operands => Builtin.operandTypes operands
  | .multi operand => pure operand.types

def checkTargets (span : Span) : List Ty → List (Option Ty) → Compiled Unit
  | type :: types, some target :: targets =>
    if type.assignableTo target then checkTargets span types targets
    else fault (.incompatible target type) span
  | _ :: types, none :: targets => checkTargets span types targets
  | _, _ => pure ()

def convertTargets : List Operand → List (Option Ty) → Compiled (List Code)
  | operand :: operands, some target :: targets => do
    let operand ← operand.convertTo target
    let rest ← convertTargets operands targets
    pure (operand.toCode :: rest)
  | operand :: operands, none :: targets => do
    let type ← operand.type
    if type == .nil then fault .nilAssignment operand.span
    let rest ← convertTargets operands targets
    pure (operand.toCode :: rest)
  | _, _ => pure []

/-- Code for the values, each checked against the type of its target; a blank target takes anything
but a bare `nil`. -/
def toValues (rhs : Rhs) (targets : List (Option Ty)) (span : Span) : Compiled Values :=
  match rhs with
  | .multi operand => do
    checkTargets span operand.types targets
    pure operand.toValues
  | .each operands => do
    let codes ← convertTargets operands targets
    pure (.each codes)

end Rhs

/-- Names on the left of a definition: their places, the types stored there, and the frame with the
new ones declared. At least one name must be new; the others are assigned. -/
structure Definition where
  frame : Frame
  places : List Place := []
  targets : List (Option Ty) := []
  seen : List String := []
  fresh : Bool := false

namespace Definition

def blank (definition : Definition) : Definition :=
  { definition with
    places := definition.places ++ [.blank], targets := definition.targets ++ [none] }

def known (definition : Definition) (name : String) (slot : Slot) : Definition :=
  { definition with
    places := definition.places ++ [.slot 0 slot]
    targets := definition.targets ++ [some slot.type]
    seen := name :: definition.seen }

def add (definition : Definition) (target : Expr) (type : Ty) : Compiled Definition :=
  match target.ident? with
  | none => fault .nonNameDefine target.span
  | some ident =>
    if type == .nil then fault .nilAssignment ident.span
    else if ident.isBlank then pure definition.blank
    else if definition.seen.contains ident.name then fault (.repeatedName ident.name) ident.span
    else
      match definition.frame.symbol? ident.name with
      | some (.var slot) => pure (definition.known ident.name slot)
      | some _ => fault (.notAssignable ident.name) ident.span
      | none => do
        let (slot, frame) ← definition.frame.declareVar ident.name type ident.span
        match slot with
        | none => pure definition.blank
        | some slot => pure { definition.known ident.name slot with frame, fresh := true }

def addAll (definition : Definition) : List Expr → List Ty → Compiled Definition
  | target :: targets, type :: types => do
    let definition ← definition.add target type
    definition.addAll targets types
  | _, _ => pure definition

end Definition

def define (frame : Frame) (lhs : List Expr) (rhs : Rhs) (span : Span) : Compiled Piece := do
  let types ← rhs.types
  let definition ← Definition.addAll { frame } lhs types
  if !definition.fresh then fault .noNewVariables span
  let values ← rhs.toValues definition.targets span
  pure (.one definition.frame (.assign definition.places values) span)

def assign (places : List Place) (rhs : Rhs) (span : Span) : Compiled Fragment := do
  let values ← rhs.toValues (places.map Place.type?) span
  pure (.one (.assign places values) span)

def checkCompound (op : BinaryOp) (span : Span) : Compiled Unit :=
  if op.isComparison || op.isLogical then fault (.compoundOperator op) span else pure ()

/-- The type that `place op= operand` computes with. -/
def compoundType (op : BinaryOp) (place : Place) (span : Span) : Compiled Ty := do
  match place.type? with
  | none => fault .blankValue span
  | some type => do
    Operand.checkOperator op type type span
    pure type

def update (op : BinaryOp) (place : Place) (type : Ty) (operand : Operand) (span : Span) :
    Compiled Fragment := do
  let operand ← operand.convertTo type
  pure (.one (.update op place operand.toCode) span)

def identPlace (scope : Scope) (ident : Ident) : Compiled Place :=
  if ident.isBlank then pure .blank
  else
    match scope.lookup ident.name with
    | some (hops, .var slot) => pure (.slot hops slot)
    | some _ => fault (.notAssignable ident.name) ident.span
    | none => fault (.undefined ident.name) ident.span

/-- The type of the index of an element that can be assigned. -/
def elementIndexType (container : Ty) (span : Span) : Compiled Ty :=
  match container with
  | .slice _ => pure .int
  | .map key _ => pure key
  | .string => fault .assignToString span
  | other => fault (.notIndexable other) span

/-- Values of a `var` specification that gives none. -/
def zeroValues (type : Ty) (count : Nat) : Values :=
  .each (List.replicate count (.const (.zero type)))

/-- Types and code of the values of a `var` specification with one value for each name. -/
def initEach (declared : Option Ty) : List Operand → Compiled (List Ty × List Code)
  | [] => pure ([], [])
  | operand :: rest => do
    let operand ← operand.declaredAs declared
    let type ← operand.type
    if type == .nil then fault .nilVariable operand.span
    let (types, codes) ← initEach declared rest
    pure (type :: types, operand.toCode :: codes)

/-- Types and code of the values of a `var` specification whose one call gives all of them. -/
def initMulti (declared : Option Ty) (operand : Operand) (count : Nat) (span : Span) :
    Compiled (List Ty × Values) := do
  if operand.arity ≠ count then fault (.assignmentMismatch count operand.arity) span
  match declared with
  | none => pure (operand.types, operand.toValues)
  | some type => do
    Invoke.checkAll span operand.types (List.replicate count type)
    pure (List.replicate count type, operand.toValues)

/-- Types and code of as many initial values as there are names. -/
def initSeparate (declared : Option Ty) (count : Nat) (operands : List Operand) (span : Span) :
    Compiled (List Ty × Values) := do
  if operands.length ≠ count then fault (.assignmentMismatch count operands.length) span
  let (types, codes) ← initEach declared operands
  pure (types, .each codes)

/-- Types and code of the initial values of a `var` specification. -/
def initValues (declared : Option Ty) (count : Nat) (operands : List Operand) (span : Span) :
    Compiled (List Ty × Values) :=
  match operands with
  | [] =>
    match declared with
    | none => fault .missingType span
    | some type => pure (List.replicate count type, zeroValues type count)
  | [single] =>
    if 1 < single.arity then initMulti declared single count span
    else initSeparate declared count operands span
  | _ => initSeparate declared count operands span

/-- Declares the names of a `var` specification and stores their initial values. -/
def declareInit (frame : Frame) (names : List Ident) (types : List Ty) (values : Values)
    (span : Span) : Compiled Piece := do
  let (slots, frame) ← frame.declareVars (names.zip types)
  pure (.one frame (.init slots values) span)

/-- Code of as many returned values as the function has results. -/
def returnSeparate (results : List Slot) (operands : List Operand) (span : Span) :
    Compiled Values := do
  if operands.length ≠ results.length then
    fault (.returnArity results.length operands.length) span
  let codes ← Invoke.convertAll operands (results.map (·.type))
  pure (.each codes)

/-- Code of the returned values of a function; a single call may give all of them. -/
def returnAll (results : List Slot) (operands : List Operand) (span : Span) : Compiled Values :=
  match operands with
  | [single] =>
    if 1 < single.arity then do
      if single.arity ≠ results.length then fault (.returnArity results.length single.arity) span
      Invoke.checkAll single.span single.types (results.map (·.type))
      pure single.toValues
    else returnSeparate results operands span
  | _ => returnSeparate results operands span

/-- `return` with values, stored into the result slots of the function. -/
def returnValues (hops : Nat) (results : List Slot) (operands : List Operand) (span : Span) :
    Compiled Fragment := do
  let values ← returnAll results operands span
  pure (.one (.ret hops results values) span)

end MiniGo
