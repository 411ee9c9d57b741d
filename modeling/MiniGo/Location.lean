import MiniGo.Eval
/-!
Assignable places once their operands are evaluated.
-/

namespace MiniGo

inductive Location
  | slot (env : EnvRef) (slot : Slot)
  | item (slice : SliceRef) (index : Int64)
  | entry (elem : Ty) (map : MapRef) (key : Value)
  | nilMap (elem : Ty)
  | nilSlice (index : Int64)
  | blank

namespace Location

def element (container : Ty) (base index : Value) : Except RuntimeError Location :=
  match base with
  | .slice _ ref => do
    let index ← index.asInt
    pure (item ref index)
  | .map _ elem ref => pure (entry elem ref index)
  | .nil =>
    match container with
    | .map _ elem => pure (nilMap elem)
    | _ => do
      let index ← index.asInt
      pure (nilSlice index)
  | other => throw (.typeMismatch ("cannot index " ++ other.typeName))

/-- Evaluates the operands of a place, the base before the index. -/
def ofPlace (call : Caller) (env : EnvRef) : Place → Run Location
  | .slot hops target => Run.read fun world => slot (world.up env hops) target
  | .element container base index => do
    let base ← eval call env base
    let index ← eval call env index
    Run.ofExcept (element container base index)
  | .blank => pure blank

def ofPlaces (call : Caller) (env : EnvRef) : List Place → Run (List Location)
  | [] => pure []
  | place :: rest => do
    let first ← ofPlace call env place
    let others ← ofPlaces call env rest
    pure (first :: others)

def load : Location → Run Value
  | slot env target => Run.load env 0 target
  | item ref index => Run.tryRead (·.heap.item ref index)
  | entry elem ref key => do
    let found ← Run.tryRead (·.heap.entry? ref key)
    pure (found.getD (.zero elem))
  | nilMap elem => pure (.zero elem)
  | nilSlice index => Run.fail (.indexOutOfRange index 0)
  | blank => Run.fail (.internal "read through the blank identifier")

def store (location : Location) (value : Value) : Run Unit :=
  match location with
  | slot env target => Run.store env target value
  | item ref index => Run.tryHeap (·.setItem ref index value)
  | entry _ ref key => Run.tryHeap (·.insertEntry ref key value)
  | nilMap _ => Run.fail .nilMap
  | nilSlice index => Run.fail (.indexOutOfRange index 0)
  | blank => pure ()

def storeAll : List Location → List Value → Run Unit
  | location :: locations, value :: values => do
    location.store value
    storeAll locations values
  | _, _ => pure ()

end Location

end MiniGo
