import MiniGo.Value
/-!
Environments and threads. An environment holds the variables of a function call, or of a block that
declares some.
-/

namespace MiniGo

structure ThreadRef where
  index : Nat
deriving DecidableEq, Repr, Inhabited

/-- Storage of an environment: values, and scalars as raw words. -/
structure Slots where
  objects : Array Value := #[]
  words : Array UInt64 := #[]

namespace Slots

def fresh (objects words : Nat) : Slots :=
  ⟨Array.replicate objects .nil, Array.replicate words 0⟩

def resize (slots : Slots) (objects words : Nat) : Slots :=
  let kept := (slots.objects.take objects).map fun _ => Value.nil
  let keptWords := (slots.words.take words).map fun _ => (0 : UInt64)
  ⟨kept ++ Array.replicate (objects - kept.size) .nil,
    keptWords ++ Array.replicate (words - keptWords.size) 0⟩

theorem resize_eq_fresh (slots : Slots) (objects words : Nat) :
    slots.resize objects words = fresh objects words := by
  have cleared {α : Type} (items : Array α) (count : Nat) (zero : α) :
      ((items.take count).map fun _ => zero) ++
        Array.replicate (count - ((items.take count).map fun _ => zero).size) zero =
      Array.replicate count zero := by
    apply Array.ext
    · simp only [Array.size_append, Array.size_map, Array.size_replicate, Array.take_eq_extract,
        Array.size_extract]
      omega
    · intro position inside bound
      simp [Array.getElem_append]
  simp only [resize, fresh, cleared]

def object (slots : Slots) (index : Nat) : Value := slots.objects.getD index .nil

def word (slots : Slots) (index : Nat) : UInt64 := slots.words.getD index 0

def setObject (slots : Slots) (index : Nat) (value : Value) : Slots :=
  { slots with objects := slots.objects.setIfInBounds index value }

def setWord (slots : Slots) (index : Nat) (word : UInt64) : Slots :=
  { slots with words := slots.words.setIfInBounds index word }

def load (slots : Slots) (slot : Slot) : Value :=
  match slot.slotClass with
  | .object => slots.object slot.index
  | .word => .ofBits (slots.word slot.index) slot.type

def store (slots : Slots) (slot : Slot) (value : Value) : Slots :=
  match slot.slotClass with
  | .object => slots.setObject slot.index value
  | .word => slots.setWord slot.index value.toBits

end Slots

structure Env where
  slots : Slots
  /-- Position of the current instruction. -/
  ip : Nat
  program : Program
  outer : Option EnvRef
  thread : ThreadRef
  /-- References to this environment. -/
  holders : Nat

/-- A call whose function and arguments are evaluated. -/
structure Invocation where
  callee : Value
  args : List Value
  spread : Bool

/-- The state of one thread: what its running code has left for the executor, and its pool. -/
structure Thread where
  signal : Signal := .none
  deferred : Option Invocation := none
  panic : Option RuntimeError := none
  pool : List Slots := []
  fileEnv : Option EnvRef := none
  topEnv : Option EnvRef := none

structure Spawn where
  thread : ThreadRef
  invocation : Invocation

end MiniGo
