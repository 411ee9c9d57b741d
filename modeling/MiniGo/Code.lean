import MiniGo.Const
import MiniGo.Span
/-!
Compiled code. Expressions stay trees; the statements of a function become one flat list of
instructions, shared by all its nested blocks.

Code mentions compiled functions only where a function literal or declaration creates a closure.
The trees are therefore parametric in the type of functions, and `Template` ties the knot.
-/

namespace MiniGo

/-- Scalars are kept as raw words, everything else as values. -/
inductive SlotClass
  | object
  | word
deriving DecidableEq, Repr

/-- Where a variable lives within its environment. -/
structure Slot where
  slotClass : SlotClass
  index : Nat
  type : Ty
deriving DecidableEq, Repr

/-- A transfer of control that a stopped chain of instructions leaves for its executor. -/
inductive Signal
  | none
  | ret
  | defer
  | panic
deriving DecidableEq, Repr, Inhabited

namespace Signal

def name : Signal → String
  | none => "None"
  | ret => "Return"
  | defer => "Defer"
  | panic => "Panic"

def ofName? (text : String) : Option Signal :=
  [none, ret, defer, panic].find? (·.name == text)

theorem ofName?_name (signal : Signal) : ofName? signal.name = some signal := by
  cases signal <;> decide

end Signal

mutual

inductive CodeOf (τ : Type)
  | const (value : Const)
  | load (hops : Nat) (slot : Slot)
  | binary (op : BinaryOp) (left right : CodeOf τ)
  /-- The right operand decides unless the left one is `stop`. -/
  | logical (stop : Bool) (left right : CodeOf τ)
  | unary (op : UnaryOp) (operand : CodeOf τ)
  | convert (target : Ty) (operand : CodeOf τ)
  | receive (channel : CodeOf τ)
  | sliceIndex (base index : CodeOf τ)
  | stringIndex (base index : CodeOf τ)
  | mapIndex (value : Ty) (base key : CodeOf τ)
  | sliceLit (elem : Ty) (items : List (CodeOf τ))
  | mapLit (key value : Ty) (entries : List (CodeOf τ × CodeOf τ))
  | typeAssert (target : Ty) (operand : CodeOf τ)
  | closure (function : τ)
  | builtin (builtin : Builtin) (params : List Ty)
  | length (operand : CodeOf τ)
  | capacity (operand : CodeOf τ)
  | append (elem : Ty) (base : CodeOf τ) (extra : ValuesOf τ)
  | makeSlice (elem : Ty) (length : CodeOf τ)
  | makeMap (key value : Ty)
  | makeChan (elem : Ty) (size : Option (CodeOf τ))
  | first (values : ValuesOf τ)

inductive ValuesOf (τ : Type)
  | each (items : List (CodeOf τ))
  | call (callee : CodeOf τ) (args : ValuesOf τ) (spread : Bool)
  /-- The elements of a slice. -/
  | elements (slice : CodeOf τ)
  | mapLookup (value : Ty) (base key : CodeOf τ)
  | receiveOk (channel : CodeOf τ)
  | typeAssertOk (target : Ty) (operand : CodeOf τ)

end

inductive PlaceOf (τ : Type)
  | slot (hops : Nat) (slot : Slot)
  | element (container : Ty) (base index : CodeOf τ)
  | blank

/-- A call whose callee and arguments are evaluated ahead of the call itself. -/
structure CallOf (τ : Type) where
  callee : CodeOf τ
  args : ValuesOf τ
  /-- The arguments already hold the packed slice of a variadic function. -/
  spread : Bool

inductive CommOf (τ : Type)
  | send (channel value : CodeOf τ)
  | recv (channel : CodeOf τ)

inductive RangeKind
  | int
  | slice
  | string
  | map
  | chan
deriving DecidableEq, Repr

structure RangeSlots where
  subject : Slot
  keys : Slot
  index : Slot
  limit : Slot
  step : Slot
deriving DecidableEq, Repr

inductive ExitKind
  | break
  | continue
deriving DecidableEq, Repr

/-- A jump destination, open while the statement it leaves is being compiled. -/
inductive Dest
  | line (position : Nat)
  /-- An exit of the statement whose scope is the `level`-th from the outside. -/
  | exit (level : Nat) (kind : ExitKind)
deriving DecidableEq, Repr

inductive InstrOf (τ : Type)
  | skip
  | stop
  | interrupt (signal : Signal)
  | raise (error : RuntimeError)
  | eval (values : ValuesOf τ)
  | goto (dest : Nat)
  | jumpUnless (cond : CodeOf τ) (dest : Nat)
  | push (objects words : Nat)
  | pop
  /-- Leaves environments, then jumps. -/
  | leave (hops : Nat) (dest : Dest)
  | ret (hops : Nat) (results : List Slot) (values : ValuesOf τ)
  | defer (call : CallOf τ)
  | go (call : CallOf τ)
  | send (channel value : CodeOf τ)
  | assign (places : List (PlaceOf τ)) (values : ValuesOf τ)
  | update (op : BinaryOp) (place : PlaceOf τ) (operand : CodeOf τ)
  /-- Stores initial values; a blank name drops its value. -/
  | init (slots : List (Option Slot)) (values : ValuesOf τ)
  | bind (slot : Slot) (function : τ)
  | callInit (function : τ)
  | switch (tag : CodeOf τ) (cases : List (CodeOf τ × Nat)) (fallback : Nat)
  | typeSwitch (subject : CodeOf τ) (cases : List (Option Ty × Nat)) (fallback : Nat)
      (parked : Option Slot)
  | select (comms : List (CommOf τ × Nat)) (fallback : Option Nat) (parked : Option (Slot × Slot))
  /-- Copies slots of the enclosing environment, each into its partner here. -/
  | adopt (pairs : List (Slot × Slot))
  /-- Stores a parked value, and its flag if asked for. -/
  | unpark (parked : Slot × Slot) (value : PlaceOf τ) (flag : Option (PlaceOf τ))
  | rangeStart (kind : RangeKind) (key : Ty) (state : RangeSlots) (subject : CodeOf τ)
  | rangeNext (kind : RangeKind) (state : RangeSlots) (key value : Option (PlaceOf τ)) (exit : Nat)
  | rangeStep (state : RangeSlots)

structure LineOf (τ : Type) where
  instr : InstrOf τ
  span : Span

structure ProgramOf (τ : Type) where
  lines : Array (LineOf τ) := #[]
  /-- Some statement of the function defers a call. -/
  defers : Bool := false

/-- A compiled function, to be bound to the environment it is declared in. -/
inductive Template
  | mk (signature : Signature) (program : ProgramOf Template) (params : List (Option Slot))
      (results : List Slot) (objects words : Nat)

namespace Template

def signature : Template → Signature
  | mk signature .. => signature

def program : Template → ProgramOf Template
  | mk _ program .. => program

def params : Template → List (Option Slot)
  | mk _ _ params .. => params

def results : Template → List Slot
  | mk _ _ _ results .. => results

def objects : Template → Nat
  | mk _ _ _ _ objects _ => objects

def words : Template → Nat
  | mk _ _ _ _ _ words => words

end Template

abbrev Code := CodeOf Template
abbrev Values := ValuesOf Template
abbrev Place := PlaceOf Template
abbrev Call := CallOf Template
abbrev Comm := CommOf Template
abbrev Instr := InstrOf Template
abbrev Line := LineOf Template
abbrev Program := ProgramOf Template

namespace Program

def instr? (program : Program) (position : Nat) : Option Instr :=
  program.lines[position]?.map (·.instr)

def length (program : Program) : Nat := program.lines.size

def isEmpty (program : Program) : Bool := program.lines.isEmpty

def spans (program : Program) : List Span := program.lines.toList.map (·.span)

end Program

/-- Type of what is stored through a place; none for the blank identifier. -/
def Place.type? : Place → Option Ty
  | .slot _ slot => some slot.type
  | .element container _ _ => container.elem?
  | .blank => none

namespace Dest

/-- The position to go to; an exit that was never closed leads to the start. -/
def position : Dest → Nat
  | line position => position
  | exit _ _ => 0

/-- Gives the exits of one statement their positions. -/
def close (level breakTo continueTo : Nat) : Dest → Dest
  | line position => line position
  | exit level' kind =>
    if level' = level then
      match kind with
      | .break => line breakTo
      | .continue => line continueTo
    else exit level' kind

end Dest

def Line.close (level breakTo continueTo : Nat) (line : Line) : Line :=
  match line.instr with
  | .leave hops dest => { line with instr := .leave hops (dest.close level breakTo continueTo) }
  | _ => line

end MiniGo
