import MiniGo.Scope
/-!
Compiled expressions: their types and the code for their values. The functions here check and
combine operands that are already compiled; they never look at a syntax tree.
-/

namespace MiniGo

inductive OperandCode
  | const (value : Const)
  | single (code : Code)
  | multi (values : Values)

structure Operand where
  types : List Ty
  code : OperandCode
  span : Span

inductive Cond
  | const (value : Bool)
  | code (code : Code)

namespace Operand

def const (value : Const) (type : Ty) (span : Span) : Operand := ⟨[type], .const value, span⟩

def single (type : Ty) (code : Code) (span : Span) : Operand := ⟨[type], .single code, span⟩

def multi (types : List Ty) (values : Values) (span : Span) : Operand := ⟨types, .multi values, span⟩

def const? (operand : Operand) : Option Const :=
  match operand.code with
  | .const value => some value
  | _ => none

def isConst (operand : Operand) : Bool := operand.const?.isSome

def arity (operand : Operand) : Nat := operand.types.length

/-- The type of an operand with exactly one value. -/
def type (operand : Operand) : Compiled Ty :=
  match operand.types with
  | [type] => pure type
  | [] => fault .noValue operand.span
  | many => fault (.manyValues many.length) operand.span

def toCode (operand : Operand) : Code :=
  match operand.code with
  | .const value => .const value
  | .single code => code
  | .multi values => .first values

def toValues (operand : Operand) : Values :=
  match operand.code with
  | .const value => .each [.const value]
  | .single code => .each [code]
  | .multi values => values

/-- Instruction that evaluates the operand for its effects. -/
def toInstr (operand : Operand) : Instr :=
  match operand.code with
  | .const _ => .skip
  | .single code => .eval (.each [code])
  | .multi values => .eval values

def toCond (operand : Operand) : Compiled Cond := do
  let type ← operand.type
  if type != .bool then fault (.nonBoolean type) operand.span
  match operand.code with
  | .const (.bool value) => pure (.const value)
  | .const other => fault (.boolConstant other.typeName) operand.span
  | _ => pure (.code operand.toCode)

/-- The operand as a value of a type it is assignable to. An integer constant becomes a float where
one is wanted. -/
def convertTo (operand : Operand) (target : Ty) : Compiled Operand := do
  let type ← operand.type
  if type == target then pure operand
  else
    match operand.code, target with
    | .const (.int value), .float => pure (const (.float (.ofInt value)) .float operand.span)
    | _, _ =>
      if type.assignableTo target then pure { operand with types := [target] }
      else fault (.incompatible target type) operand.span

/-- The operand as a value of the type that a declaration gives, if it gives one. -/
def declaredAs (operand : Operand) : Option Ty → Compiled Operand
  | some type => operand.convertTo type
  | none => pure operand

/-- A variable, constant or other name in the place of a value. -/
def ofIdent (scope : Scope) (ident : Ident) : Compiled Operand :=
  if ident.isBlank then fault .blankValue ident.span
  else
    match scope.lookup ident.name with
    | some (hops, .var slot) => pure (single slot.type (.load hops slot) ident.span)
    | some (_, .const value type) => pure (const value type ident.span)
    | some (_, .type type) => fault (.typeAsValue type) ident.span
    | some (_, .builtin _) => fault (.builtinAsValue ident.name) ident.span
    | none => fault (.undefined ident.name) ident.span

/-- Brings an integer constant next to a float operand to float, and checks that the two sides of
an operator agree. Equality also compares a value with one of a type it is assignable to. -/
def unify (op : BinaryOp) (left right : Operand) (span : Span) : Compiled (Operand × Operand) := do
  let leftType ← left.type
  let rightType ← right.type
  if leftType == rightType then pure (left, right)
  else if leftType == .float && right.isConst && rightType == .int then
    let right ← right.convertTo .float
    pure (left, right)
  else if rightType == .float && left.isConst && leftType == .int then
    let left ← left.convertTo .float
    pure (left, right)
  else if op.isEquality &&
      (rightType.assignableTo leftType || leftType.assignableTo rightType) then
    pure (left, right)
  else fault (.mismatchedTypes leftType rightType) span

def allows (op : BinaryOp) (type other : Ty) : Bool :=
  match op with
  | .add | .lt | .ltEq | .gt | .gtEq => type.isNumeric || type == .string
  | .sub | .mul | .div => type.isNumeric
  | .rem | .bitAnd | .bitOr | .bitXor => type == .int
  | .eq | .notEq => (type.isComparable && other.isComparable) || type == .nil || other == .nil
  | .and | .or => type == .bool

def checkOperator (op : BinaryOp) (type other : Ty) (span : Span) : Compiled Unit :=
  if allows op type other then pure () else fault (.undefinedOperator op.symbol type) span

/-- An operator that evaluates both its operands. Two constants give a constant. -/
def binary (op : BinaryOp) (left right : Operand) (span : Span) : Compiled Operand := do
  let (left, right) ← unify op left right span
  let type ← left.type
  let other ← right.type
  checkOperator op type other span
  let result := if op.isComparison then .bool else type
  match left.const?, right.const? with
  | some first, some second =>
    match Const.binary op first second with
    | .ok value => pure (const value result span)
    | .error error => fault (.failedConstant error) span
  | _, _ => pure (single result (.binary op left.toCode right.toCode) span)

def checkLogical (op : BinaryOp) (operand : Operand) : Compiled Unit := do
  let type ← operand.type
  if type != .bool then fault (.undefinedOperator op.symbol type) operand.span

/-- `&&` and `||`. A constant on the left decides, or leaves just the right operand. -/
def logical (op : BinaryOp) (left right : Operand) (span : Span) : Compiled Operand := do
  checkLogical op left
  checkLogical op right
  let stop := op == .or
  match ← left.toCond with
  | .const value =>
    if value == stop then pure (const (.bool stop) .bool span) else pure right
  | .code left => pure (single .bool (.logical stop left right.toCode) span)

def recvElem (type : Ty) (span : Span) : Compiled Ty :=
  match type with
  | .chan direction elem =>
    if direction.canRecv then pure elem else fault (.receiveFromSendOnly type) span
  | other => fault (.receiveFromOther other) span

def sendElem (type : Ty) (span : Span) : Compiled Ty :=
  match type with
  | .chan direction elem =>
    if direction.canSend then pure elem else fault (.sendToReceiveOnly type) span
  | other => fault (.sendToOther other) span

def receive (channel : Operand) (span : Span) : Compiled Operand := do
  let type ← channel.type
  let elem ← recvElem type span
  pure (single elem (.receive channel.toCode) span)

def unary (op : UnaryOp) (operand : Operand) (span : Span) : Compiled Operand := do
  let type ← operand.type
  if op == .recv then operand.receive span
  else if op == .neg && !type.isNumeric then fault (.undefinedOperator "-" type) span
  else if op == .not && type != .bool then fault (.undefinedOperator "!" type) span
  else
    match operand.const? with
    | some value =>
      match Const.unary op value with
      | .ok value => pure (const value type span)
      | .error error => fault (.failedConstant error) span
    | none => pure (single type (.unary op operand.toCode) span)

/-- The type that an index into a container must have. -/
def indexType (container : Ty) (span : Span) : Compiled Ty :=
  match container with
  | .slice _ | .string => pure .int
  | .map key _ => pure key
  | other => fault (.notIndexable other) span

/-- An element of a slice or map, or a byte of a string; the index is already converted. -/
def element (container : Ty) (base index : Operand) (span : Span) : Compiled Operand :=
  match container with
  | .slice elem => pure (single elem (.sliceIndex base.toCode index.toCode) span)
  | .string => pure (single .int (.stringIndex base.toCode index.toCode) span)
  | .map _ value => pure (single value (.mapIndex value base.toCode index.toCode) span)
  | other => fault (.notIndexable other) span

def interfaceCode (operand : Operand) (span : Span) : Compiled Code := do
  let type ← operand.type
  if !type.isInterface then fault (.notInterface type) span
  pure operand.toCode

def conversion (target : Ty) (operand : Operand) (span : Span) : Compiled Operand := do
  let source ← operand.type
  if source.assignableTo target then operand.convertTo target
  else if !((source.isNumeric && target.isNumeric) || (source == .int && target == .string)) then
    fault (.notConvertible source target) span
  else
    match operand.const? with
    | some value => pure (const (value.convert target) target span)
    | none => pure (single target (.convert target operand.toCode) span)

end Operand

end MiniGo
