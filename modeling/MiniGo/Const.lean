import MiniGo.Double
import MiniGo.Operator
import MiniGo.RuntimeError
import MiniGo.Text
import MiniGo.Ty
/-!
Values that carry no reference, and the operators on them.
-/

namespace MiniGo

inductive Const
  | nil
  | bool (value : Bool)
  | int (value : Int64)
  | float (value : Double)
  | str (value : String)
deriving DecidableEq, Repr, Inhabited

namespace Const

/-- The zero value of a type; `nil` for every type without one of its own. -/
def zero : Ty → Const
  | .bool => .bool false
  | .int => .int 0
  | .float => .float .zero
  | .string => .str ""
  | _ => .nil

def type : Const → Ty
  | nil => .nil
  | bool _ => .bool
  | int _ => .int
  | float _ => .float
  | str _ => .string

def typeName : Const → String
  | nil => "nil"
  | bool _ => "bool"
  | int _ => "int"
  | float _ => "float64"
  | str _ => "string"

def text : Const → String
  | nil => "<nil>"
  | bool value => if value then "true" else "false"
  | int value => toString value.toInt
  | float value => value.text
  | str value => value

def equals : Const → Const → Bool
  | nil, nil => true
  | bool left, bool right => left == right
  | int left, int right => left == right
  | float left, float right => left.equals right
  | str left, str right => left == right
  | _, _ => false

/-- Failure of an operator between operands of the named kinds. -/
def invalidOperands (op : BinaryOp) (left right : String) : RuntimeError :=
  .typeMismatch ("invalid operation: " ++ left ++ " " ++ op.symbol ++ " " ++ right)

/-- Operators on 64-bit integers. Sums and products wrap around, division truncates. -/
def intOp (op : BinaryOp) (left right : Int64) : Except RuntimeError Const :=
  match op with
  | .add => pure (.int (left + right))
  | .sub => pure (.int (left - right))
  | .mul => pure (.int (left * right))
  | .div => if right = 0 then throw .divisionByZero else pure (.int (left / right))
  | .rem => if right = 0 then throw .divisionByZero else pure (.int (left % right))
  | .bitAnd => pure (.int (left &&& right))
  | .bitOr => pure (.int (left ||| right))
  | .bitXor => pure (.int (left ^^^ right))
  | .lt => pure (.bool (decide (left < right)))
  | .ltEq => pure (.bool (decide (left ≤ right)))
  | .gt => pure (.bool (decide (right < left)))
  | .gtEq => pure (.bool (decide (right ≤ left)))
  | .eq => pure (.bool (left == right))
  | .notEq => pure (.bool (left != right))
  | .and | .or => throw (invalidOperands op "int" "int")

def floatOp (op : BinaryOp) (left right : Double) : Except RuntimeError Const :=
  match op with
  | .add => pure (.float (left.add right))
  | .sub => pure (.float (left.sub right))
  | .mul => pure (.float (left.mul right))
  | .div => pure (.float (left.div right))
  | .lt => pure (.bool (left.less right))
  | .ltEq => pure (.bool (left.lessEq right))
  | .gt => pure (.bool (right.less left))
  | .gtEq => pure (.bool (right.lessEq left))
  | .eq => pure (.bool (left.equals right))
  | .notEq => pure (.bool (!left.equals right))
  | _ => throw (invalidOperands op "float64" "float64")

/-- Strings are ordered by their bytes, which is the order of their code points. -/
def strOp (op : BinaryOp) (left right : String) : Except RuntimeError Const :=
  match op with
  | .add => pure (.str (left ++ right))
  | .lt => pure (.bool (decide (left < right)))
  | .ltEq => pure (.bool (!decide (right < left)))
  | .gt => pure (.bool (decide (right < left)))
  | .gtEq => pure (.bool (!decide (left < right)))
  | .eq => pure (.bool (left == right))
  | .notEq => pure (.bool (left != right))
  | _ => throw (invalidOperands op "string" "string")

def boolOp (op : BinaryOp) (left right : Bool) : Except RuntimeError Const :=
  match op with
  | .and => pure (.bool (left && right))
  | .or => pure (.bool (left || right))
  | .eq => pure (.bool (left == right))
  | .notEq => pure (.bool (left != right))
  | _ => throw (invalidOperands op "bool" "bool")

def binary (op : BinaryOp) (left right : Const) : Except RuntimeError Const :=
  match left, right with
  | .int left, .int right => intOp op left right
  | .float left, .float right => floatOp op left right
  | .str left, .str right => strOp op left right
  | .bool left, .bool right => boolOp op left right
  | left, right =>
    match op with
    | .eq => pure (.bool (left.equals right))
    | .notEq => pure (.bool (!left.equals right))
    | _ => throw (invalidOperands op left.typeName right.typeName)

/-- Failure of an operator on an operand of the named kind. -/
def invalidOperand (op : UnaryOp) (operand : String) : RuntimeError :=
  .typeMismatch ("invalid operation " ++ op.name ++ " on " ++ operand)

def unary (op : UnaryOp) (operand : Const) : Except RuntimeError Const :=
  match op, operand with
  | .neg, .int value => pure (.int (-value))
  | .neg, .float value => pure (.float value.neg)
  | .not, .bool value => pure (.bool (!value))
  | op, operand => throw (invalidOperand op operand.typeName)

/-- Conversion between numbers, and from a code point to a string. -/
def convert (target : Ty) : Const → Const
  | .int value =>
    match target with
    | .float => .float (.ofInt value)
    | .string => .str (Text.ofCodePoint value.toInt)
    | _ => .int value
  | .float value =>
    match target with
    | .int => .int value.toInt
    | _ => .float value
  | other => other

/-- Raw word of a scalar; other constants have none and give zero. -/
def toBits : Const → UInt64
  | bool value => if value then 1 else 0
  | int value => value.toUInt64
  | float value => value.bits
  | _ => 0

/-- The scalar of a type that a raw word stands for. -/
def ofBits (bits : UInt64) : Ty → Const
  | .bool => .bool (bits != 0)
  | .float => .float ⟨bits⟩
  | _ => .int bits.toInt64

theorem ofBits_toBits_bool (value : Bool) : ofBits (toBits (.bool value)) .bool = .bool value := by
  cases value <;> rfl

theorem ofBits_toBits_int (value : Int64) : ofBits (toBits (.int value)) .int = .int value := by
  simp [ofBits, toBits]

theorem ofBits_toBits_float (value : Double) :
    ofBits (toBits (.float value)) .float = .float value := rfl

end Const

end MiniGo
