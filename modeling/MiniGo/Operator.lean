/-!
Operators of the language.
-/

namespace MiniGo

inductive BinaryOp
  | add
  | sub
  | mul
  | div
  | rem
  | and
  | or
  | bitAnd
  | bitOr
  | bitXor
  | eq
  | notEq
  | lt
  | ltEq
  | gt
  | gtEq
deriving DecidableEq, Repr, Inhabited

namespace BinaryOp

def symbol : BinaryOp → String
  | add => "+"
  | sub => "-"
  | mul => "*"
  | div => "/"
  | rem => "%"
  | and => "&&"
  | or => "||"
  | bitAnd => "&"
  | bitOr => "|"
  | bitXor => "^"
  | eq => "=="
  | notEq => "!="
  | lt => "<"
  | ltEq => "<="
  | gt => ">"
  | gtEq => ">="

def name : BinaryOp → String
  | add => "Add"
  | sub => "Sub"
  | mul => "Mul"
  | div => "Div"
  | rem => "Rem"
  | and => "And"
  | or => "Or"
  | bitAnd => "BitAnd"
  | bitOr => "BitOr"
  | bitXor => "BitXor"
  | eq => "Eq"
  | notEq => "NotEq"
  | lt => "Lt"
  | ltEq => "LtEq"
  | gt => "Gt"
  | gtEq => "GtEq"

/-- Operators whose result is a truth value about two operands of one type. -/
def isComparison : BinaryOp → Bool
  | eq | notEq | lt | ltEq | gt | gtEq => true
  | _ => false

def isEquality : BinaryOp → Bool
  | eq | notEq => true
  | _ => false

def isLogical : BinaryOp → Bool
  | and | or => true
  | _ => false

def all : List BinaryOp :=
  [add, sub, mul, div, rem, and, or, bitAnd, bitOr, bitXor, eq, notEq, lt, ltEq, gt, gtEq]

theorem mem_all (op : BinaryOp) : op ∈ all := by cases op <;> decide

def ofSymbol? (text : String) : Option BinaryOp := all.find? (·.symbol == text)

theorem ofSymbol?_symbol (op : BinaryOp) : ofSymbol? op.symbol = some op := by
  cases op <;> decide

end BinaryOp

inductive UnaryOp
  | neg
  | not
  | recv
deriving DecidableEq, Repr, Inhabited

namespace UnaryOp

def name : UnaryOp → String
  | neg => "Neg"
  | not => "Not"
  | recv => "Recv"

end UnaryOp

inductive Builtin
  | append
  | cap
  | close
  | delete
  | len
  | make
  | panic
  | print
  | println
deriving DecidableEq, Repr, Inhabited

namespace Builtin

def name : Builtin → String
  | append => "append"
  | cap => "cap"
  | close => "close"
  | delete => "delete"
  | len => "len"
  | make => "make"
  | panic => "panic"
  | print => "print"
  | println => "println"

def all : List Builtin := [append, cap, close, delete, len, make, panic, print, println]

def ofName? (text : String) : Option Builtin := all.find? (·.name == text)

theorem ofName?_name (builtin : Builtin) : ofName? builtin.name = some builtin := by
  cases builtin <;> decide

end Builtin

end MiniGo
