import MiniGo.Code
/-!
Values of a running program. A slice, map or channel is a reference, so copies of it share their
contents; a function carries the environment it was created in.
-/

namespace MiniGo

structure SliceRef where
  index : Nat
deriving DecidableEq, Repr, Inhabited

structure MapRef where
  index : Nat
deriving DecidableEq, Repr, Inhabited

structure ChanRef where
  index : Nat
deriving DecidableEq, Repr, Inhabited

structure EnvRef where
  index : Nat
deriving DecidableEq, Repr, Inhabited

inductive FuncBody
  | closure (template : Template) (env : EnvRef)
  /-- A function of the host, by its number. -/
  | native (index : Nat)
  | builtin (builtin : Builtin)

structure Func where
  signature : Signature
  body : FuncBody

inductive Value
  | const (constant : Const)
  | slice (elem : Ty) (items : SliceRef)
  | map (key elem : Ty) (entries : MapRef)
  | chan (elem : Ty) (channel : ChanRef)
  | func (function : Func)

namespace Value

@[match_pattern] abbrev nil : Value := .const .nil
@[match_pattern] abbrev bool (truth : Bool) : Value := .const (.bool truth)
@[match_pattern] abbrev int (number : Int64) : Value := .const (.int number)
@[match_pattern] abbrev float (number : Double) : Value := .const (.float number)
@[match_pattern] abbrev str (text : String) : Value := .const (.str text)

instance : Inhabited Value := ⟨nil⟩

def zero (type : Ty) : Value := .const (.zero type)

def isNil : Value → Bool
  | nil => true
  | _ => false

def typeName : Value → String
  | const constant => constant.typeName
  | slice .. => "slice"
  | map .. => "map"
  | chan .. => "chan"
  | func _ => "func"

/-- The type that a value shows when it is held by an interface. -/
def dynamicType : Value → Ty
  | const constant => constant.type
  | slice elem _ => .slice elem
  | map key elem _ => .map key elem
  | chan elem _ => .chan .both elem
  | func function => function.signature.toTy

/-- The value passes a type assertion to a type. The direction of a channel is not looked at. -/
def hasType (value : Value) : Ty → Bool
  | .any => !value.isNil
  | .nil => value.isNil
  | .chan _ elem =>
    match value with
    | chan elem' _ => elem' == elem
    | _ => false
  | type => value.dynamicType == type

def assertionFailure (value : Value) (target : Ty) : RuntimeError :=
  if value.isNil then
    .panic ("interface conversion: interface is nil, not " ++ target.text)
  else
    .panic ("interface conversion: interface \x7b\x7d is " ++ value.dynamicType.text ++ ", not " ++
      target.text)

def expected {α : Type} (wanted : String) (found : Value) : Except RuntimeError α :=
  throw (.typeMismatch ("expected " ++ wanted ++ ", found " ++ found.typeName))

def asBool : Value → Except RuntimeError Bool
  | bool truth => pure truth
  | other => expected "bool" other

def asInt : Value → Except RuntimeError Int64
  | int number => pure number
  | other => expected "int" other

def asFloat : Value → Except RuntimeError Double
  | float number => pure number
  | other => expected "float64" other

def asStr : Value → Except RuntimeError String
  | str text => pure text
  | other => expected "string" other

def toBits : Value → UInt64
  | const constant => constant.toBits
  | _ => 0

def ofBits (bits : UInt64) (type : Ty) : Value := .const (.ofBits bits type)

/-- `==`. Two channels are equal when they are one channel; slices, maps and functions equal
nothing. -/
def equals : Value → Value → Bool
  | const left, const right => left.equals right
  | chan _ left, chan _ right => left == right
  | _, _ => false

def binary (op : BinaryOp) (left right : Value) : Except RuntimeError Value :=
  match op with
  | .eq => pure (bool (left.equals right))
  | .notEq => pure (bool (!left.equals right))
  | op =>
    match left, right with
    | const first, const second => do
      let result ← Const.binary op first second
      pure (.const result)
    | left, right => throw (Const.invalidOperands op left.typeName right.typeName)

def unary (op : UnaryOp) : Value → Except RuntimeError Value
  | const operand => do
    let result ← Const.unary op operand
    pure (.const result)
  | operand => throw (Const.invalidOperand op operand.typeName)

def convert (target : Ty) : Value → Value
  | const operand => .const (operand.convert target)
  | other => other

end Value

def checkedIndex (index : Int64) (length : Nat) : Except RuntimeError Nat :=
  if 0 ≤ index.toInt ∧ index.toInt.toNat < length then pure index.toInt.toNat
  else throw (.indexOutOfRange index length)

/-- A size given to `make`, which must not be negative. -/
def checkedSize (size : Int64) (failure : String) : Except RuntimeError Nat :=
  if 0 ≤ size.toInt then pure size.toInt.toNat else throw (.panic failure)

end MiniGo
