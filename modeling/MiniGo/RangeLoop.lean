import MiniGo.Location
/-!
The iteration state of a range loop. The subject is evaluated once; its length, or its keys if it is
a map, are those found at the start.
-/

namespace MiniGo

namespace RangeSlots

def loadInt (env : EnvRef) (slot : Slot) : Run Int64 := do
  let value ← Run.load env 0 slot
  Run.asInt value

/-- The extent of a subject; the keys of a map are kept in a slice of their own. -/
def limitOf (state : RangeSlots) (kind : RangeKind) (key : Ty) (env : EnvRef) (subject : Value) :
    Run Int64 :=
  match kind, subject with
  | .int, .int number => pure number
  | .map, .map _ _ ref => do
    let keys ← Run.read fun world => (world.heap.entries ref).keys.map MapKey.toValue
    let slice ← Run.newSlice key keys
    Run.store env state.keys slice
    pure (Int64.ofNat keys.length)
  | .chan, _ => pure 0
  | _, subject => do
    let length ← Run.tryRead (·.length subject)
    pure (Int64.ofNat length)

def start (state : RangeSlots) (kind : RangeKind) (key : Ty) (env : EnvRef) (subject : Value) :
    Run Unit := do
  let limit ← state.limitOf kind key env subject
  Run.store env state.subject subject
  Run.store env state.index (.int 0)
  Run.store env state.limit (.int limit)
  Run.store env state.step (.int 1)

/-- The first of some keys that a map still has, with its value and the number of keys before it. -/
def firstPresent (entries : Entries) : List Value → Option (Nat × Value × Value)
  | [] => none
  | key :: rest =>
    match (MapKey.ofValue key).toOption.bind entries.get? with
    | some value => some (0, key, value)
    | none => (firstPresent entries rest).map fun (skipped, found) => (skipped + 1, found)

/-- The next entry of a map; keys erased since the start are skipped. -/
def nextEntry (state : RangeSlots) (env : EnvRef) (index : Int64) (map : MapRef) (keys : SliceRef) :
    Run (Option (Value × Value)) := do
  let rest ← Run.read fun world => (world.heap.items keys).toList.drop index.toInt.toNat
  let entries ← Run.read (·.heap.entries map)
  match firstPresent entries rest with
  | some (skipped, found) => do
    Run.store env state.index (.int (index + Int64.ofNat skipped))
    pure (some found)
  | none => do
    Run.store env state.index (.int (index + Int64.ofNat rest.length))
    pure none

/-- The next character of a string and its offset. -/
def nextChar (state : RangeSlots) (env : EnvRef) (index : Int64) (text : String) :
    Run (Option (Value × Value)) :=
  match Text.charAt? text.toList index.toInt.toNat with
  | some char => do
    Run.store env state.step (.int (Int64.ofNat char.utf8Size))
    pure (some (.int index, .int (Int64.ofNat char.toNat)))
  | none => pure none

def next (state : RangeSlots) (kind : RangeKind) (env : EnvRef) : Run (Option (Value × Value)) := do
  let index ← loadInt env state.index
  let limit ← loadInt env state.limit
  let subject ← Run.load env 0 state.subject
  match kind with
  | .int => pure (if index < limit then some (.int index, .nil) else none)
  | .slice =>
    match subject with
    | .slice _ ref =>
      if index < limit then do
        let item ← Run.tryRead (·.heap.item ref index)
        pure (some (.int index, item))
      else pure none
    | _ => pure none
  | .string => do
    let text ← Run.ofExcept subject.asStr
    state.nextChar env index text
  | .map => do
    match subject, ← Run.load env 0 state.keys with
    | .map _ _ map, .slice _ keys => state.nextEntry env index map keys
    | _, _ => pure none
  | .chan =>
    match subject with
    | .chan elem ref => do
      let (value, flag) ← Run.recv elem ref
      pure (if flag then some (value, .nil) else none)
    | _ => Run.fail (.unsupported "range over nil channel blocks forever")

def advance (state : RangeSlots) (env : EnvRef) : Run Unit := do
  let index ← loadInt env state.index
  let step ← loadInt env state.step
  Run.store env state.index (.int (index + step))

end RangeSlots

def storeTarget (call : Caller) (env : EnvRef) (target : Option Place) (value : Value) : Run Unit :=
  match target with
  | none => pure ()
  | some place => do
    let location ← Location.ofPlace call env place
    location.store value

end MiniGo
