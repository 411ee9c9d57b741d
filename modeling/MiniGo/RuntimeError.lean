/-!
Failures of a running program.
-/

namespace MiniGo

inductive ClosedUse
  | send
  | close
deriving DecidableEq, Repr

/-- A failure raised while a program runs. Host functions may raise any of them, so the texts of
the open-ended causes are free. -/
inductive RuntimeError
  | panic (message : String)
  | typeMismatch (message : String)
  | indexOutOfRange (index : Int64) (length : Nat)
  | divisionByZero
  | nilMap
  | nilFunc
  | closedChannel (use : ClosedUse)
  | arityMismatch (expected received : Nat)
  | unsupported (message : String)
  | internal (message : String)
deriving DecidableEq, Repr

namespace RuntimeError

def name : RuntimeError → String
  | panic _ => "Panic"
  | typeMismatch _ => "TypeMismatch"
  | indexOutOfRange .. => "IndexOutOfRange"
  | divisionByZero => "DivisionByZero"
  | nilMap => "NilMap"
  | nilFunc => "NilFunc"
  | closedChannel _ => "ClosedChannel"
  | arityMismatch .. => "ArityMismatch"
  | unsupported _ => "Unsupported"
  | internal _ => "Internal"

def message : RuntimeError → String
  | panic message => "Runtime panic: " ++ message
  | typeMismatch message => "Type mismatch: " ++ message
  | indexOutOfRange index length =>
    "index out of range [" ++ toString index.toInt ++ "] with length " ++ toString length
  | divisionByZero => "integer divide by zero"
  | nilMap => "assignment to entry in nil map"
  | nilFunc => "call of nil function"
  | closedChannel .send => "send on closed channel"
  | closedChannel .close => "close on closed channel"
  | arityMismatch expected received =>
    "Function expected " ++ toString expected ++ " arguments but received " ++ toString received
  | unsupported message => "Operation not supported: " ++ message
  | internal message => "internal error: " ++ message

end RuntimeError

end MiniGo
