import MiniGo.MapKey
/-!
The contents of slices and maps, and the text of values.

A slice never changes its length: appending makes a new slice.
-/

namespace MiniGo

structure Heap where
  slices : Array (Array Value) := #[]
  maps : Array Entries := #[]

namespace Heap

def items (heap : Heap) (ref : SliceRef) : Array Value := heap.slices.getD ref.index #[]

def newSlice (heap : Heap) (items : Array Value) : SliceRef × Heap :=
  (⟨heap.slices.size⟩, { heap with slices := heap.slices.push items })

def item (heap : Heap) (ref : SliceRef) (index : Int64) : Except RuntimeError Value := do
  let items := heap.items ref
  let position ← checkedIndex index items.size
  pure (items.getD position .nil)

def setItem (heap : Heap) (ref : SliceRef) (index : Int64) (value : Value) :
    Except RuntimeError Heap := do
  let position ← checkedIndex index (heap.items ref).size
  pure { heap with slices := heap.slices.modify ref.index (·.setIfInBounds position value) }

def entries (heap : Heap) (ref : MapRef) : Entries := heap.maps.getD ref.index []

def newMap (heap : Heap) : MapRef × Heap :=
  (⟨heap.maps.size⟩, { heap with maps := heap.maps.push [] })

def setEntries (heap : Heap) (ref : MapRef) (entries : Entries) : Heap :=
  { heap with maps := heap.maps.setIfInBounds ref.index entries }

def entry? (heap : Heap) (ref : MapRef) (key : Value) : Except RuntimeError (Option Value) := do
  let key ← MapKey.ofValue key
  pure ((heap.entries ref).get? key)

def insertEntry (heap : Heap) (ref : MapRef) (key value : Value) : Except RuntimeError Heap := do
  let key ← MapKey.ofValue key
  pure (heap.setEntries ref ((heap.entries ref).insert key value))

def eraseEntry (heap : Heap) (ref : MapRef) (key : Value) : Except RuntimeError Heap := do
  let key ← MapKey.ofValue key
  pure (heap.setEntries ref ((heap.entries ref).erase key))

/-- Text of a value whose containers are nested at most `depth` deep. -/
def textWithin (heap : Heap) : Nat → Value → String
  | _, .const constant => constant.text
  | _, .chan elem _ => "chan " ++ elem.text
  | _, .func function => function.signature.text
  | 0, _ => ""
  | depth + 1, .slice _ ref =>
    "[" ++ " ".intercalate ((heap.items ref).toList.map (heap.textWithin depth)) ++ "]"
  | depth + 1, .map _ _ ref =>
    let parts := (heap.entries ref).map fun (key, value) =>
      key.text ++ ":" ++ heap.textWithin depth value
    "map[" ++ " ".intercalate parts ++ "]"

/-- Text of a value. Containers that do not contain themselves are nested no deeper than there are
containers. -/
def text (heap : Heap) (value : Value) : String :=
  heap.textWithin (heap.slices.size + heap.maps.size) value

end Heap

end MiniGo
