import MiniGo.Run
/-!
Evaluation of expressions. Calls go through a parameter, so evaluation itself follows the code
tree.

Operands are evaluated from left to right, but for two forms: an element of a slice or map is found
by evaluating the index first.
-/

namespace MiniGo

/-- Calls a function value on a thread. `spread` tells that the last argument already is the slice
of a variadic function. -/
abbrev Caller := ThreadRef → Invocation → Run (List Value)

namespace Run

@[inline] def asBool (value : Value) : Run Bool := ofExcept value.asBool

@[inline] def asInt (value : Value) : Run Int64 := ofExcept value.asInt

@[inline] def load (env : EnvRef) (hops : Nat) (slot : Slot) : Run Value :=
  read fun world => world.load (world.up env hops) slot

@[inline] def store (env : EnvRef) (slot : Slot) (value : Value) : Run Unit :=
  modify (·.store env slot value)

def sliceItem (base : Value) (index : Int64) : Run Value :=
  match base with
  | .slice _ ref => tryRead (·.heap.item ref index)
  | _ => fail (.indexOutOfRange index 0)

def stringByte (text : String) (index : Int64) : Run Value :=
  ofExcept do
    let position ← checkedIndex index (Text.byteLength text)
    let byte := (Text.byteAt? text position).getD 0
    pure (.int (Int64.ofNat byte.toNat))

def mapEntry (base key : Value) : Run (Option Value) :=
  match base with
  | .map _ _ ref => tryRead (·.heap.entry? ref key)
  | _ => pure none

/-- Receives through a value, which must not be nil. -/
def recvFrom (channel : Value) : Run (Value × Bool) :=
  match channel with
  | .chan elem ref => recv elem ref
  | _ => fail (.unsupported "receive from nil channel blocks forever")

def sendTo (channel value : Value) : Run Unit :=
  match channel with
  | .chan _ ref => send ref value
  | _ => fail (.unsupported "send on nil channel blocks forever")

def elements (value : Value) : Run (List Value) :=
  match value with
  | .slice _ ref => read fun world => (world.heap.items ref).toList
  | _ => pure []

/-- A new slice with the elements of another one and some more. -/
def appended (elem : Ty) (base : Value) (extra : List Value) : Run Value :=
  match base with
  | .slice elem ref => do
    let ref ← updateHeap fun heap => heap.newSlice (heap.items ref ++ extra.toArray)
    pure (.slice elem ref)
  | _ => newSlice elem extra

def lengthOf (value : Value) : Run Value := do
  let length ← tryRead (·.length value)
  pure (.int (Int64.ofNat length))

/-- The capacity of a channel, or the length of a slice. -/
def capacityOf (value : Value) : Run Value :=
  match value with
  | .chan _ ref => read fun world => .int (Int64.ofNat (world.exchange.channel ref).capacity)
  | value => lengthOf value

/-- Makes a closure in an environment, which it holds. Closures are not counted, so what they hold is
not given back: an environment in which one was made counts as held, and is not recycled. -/
def closure (template : Template) (env : EnvRef) : Run Value := do
  modify (·.retain env)
  pure (.func ⟨template.signature, .closure template env⟩)

end Run

open Run

mutual

def eval (call : Caller) (env : EnvRef) : Code → Run Value
  | .const value => pure (.const value)
  | .load hops slot => load env hops slot
  | .binary op left right => do
    let left ← eval call env left
    let right ← eval call env right
    ofExcept (Value.binary op left right)
  | .logical stop left right => do
    let left ← eval call env left
    let left ← asBool left
    if left == stop then pure (.bool stop) else eval call env right
  | .unary op operand => do
    let operand ← eval call env operand
    ofExcept (Value.unary op operand)
  | .convert target operand => do
    let operand ← eval call env operand
    pure (operand.convert target)
  | .receive channel => do
    let channel ← eval call env channel
    let (value, _) ← recvFrom channel
    pure value
  | .sliceIndex base index => do
    let index ← eval call env index
    let index ← asInt index
    let base ← eval call env base
    sliceItem base index
  | .stringIndex base index => do
    let base ← eval call env base
    let text ← ofExcept base.asStr
    let index ← eval call env index
    let index ← asInt index
    stringByte text index
  | .mapIndex elem base key => do
    let key ← eval call env key
    let base ← eval call env base
    let found ← mapEntry base key
    pure (found.getD (.zero elem))
  | .sliceLit elem items => do
    let items ← evalAll call env items
    newSlice elem items
  | .mapLit key elem entries => do
    let ref ← updateHeap Heap.newMap
    evalEntries call env ref entries
    pure (.map key elem ref)
  | .typeAssert target operand => do
    let value ← eval call env operand
    if value.hasType target then pure value else fail (value.assertionFailure target)
  | .closure template => closure template env
  | .builtin builtin params => pure (.func ⟨⟨params, [], false⟩, .builtin builtin⟩)
  | .length operand => do
    let operand ← eval call env operand
    lengthOf operand
  | .capacity operand => do
    let operand ← eval call env operand
    capacityOf operand
  | .append elem base extra => do
    let base ← eval call env base
    let extra ← evalValues call env extra
    appended elem base extra
  | .makeSlice elem length => do
    let length ← eval call env length
    let length ← asInt length
    let length ← ofExcept (checkedSize length "makeslice: len out of range")
    newSlice elem (List.replicate length (.zero elem))
  | .makeMap key elem => newMap key elem
  | .makeChan elem none => newChan elem 0
  | .makeChan elem (some size) => do
    let size ← eval call env size
    let size ← asInt size
    let size ← ofExcept (checkedSize size "makechan: size out of range")
    newChan elem size
  | .first values => do
    let values ← evalValues call env values
    pure (values.headD .nil)

def evalAll (call : Caller) (env : EnvRef) : List Code → Run (List Value)
  | [] => pure []
  | code :: rest => do
    let value ← eval call env code
    let values ← evalAll call env rest
    pure (value :: values)

/-- Enters the entries of a map literal one by one. -/
def evalEntries (call : Caller) (env : EnvRef) (ref : MapRef) : List (Code × Code) → Run Unit
  | [] => pure ()
  | (key, value) :: rest => do
    let key ← eval call env key
    let value ← eval call env value
    tryHeap (·.insertEntry ref key value)
    evalEntries call env ref rest

/-- All values of an expression that may have any number of them. -/
def evalValues (call : Caller) (env : EnvRef) : Values → Run (List Value)
  | .each items => evalAll call env items
  | .call callee args spread => do
    let callee ← eval call env callee
    let args ← evalValues call env args
    let thread ← read (·.threadOf env)
    call thread ⟨callee, args, spread⟩
  | .elements slice => do
    let slice ← eval call env slice
    elements slice
  | .mapLookup elem base key => do
    let key ← eval call env key
    let base ← eval call env base
    match ← mapEntry base key with
    | some value => pure [value, .bool true]
    | none => pure [.zero elem, .bool false]
  | .receiveOk channel => do
    let channel ← eval call env channel
    let (value, flag) ← recvFrom channel
    pure [value, .bool flag]
  | .typeAssertOk target operand => do
    let value ← eval call env operand
    if value.hasType target then pure [value, .bool true]
    else pure [.zero target, .bool false]

end

/-- A call with its function and arguments evaluated, in this order. -/
def evalCall (call : Caller) (env : EnvRef) (node : Call) : Run Invocation := do
  let callee ← eval call env node.callee
  let args ← evalValues call env node.args
  pure ⟨callee, args, node.spread⟩

/-- A case of a select with its operands evaluated. -/
def evalComm (call : Caller) (env : EnvRef) : Comm → Run SelectCase
  | .send channel value => do
    let channel ← eval call env channel
    let value ← eval call env value
    pure (.sendTo channel value)
  | .recv channel => do
    let channel ← eval call env channel
    pure (.recvFrom channel)

def evalComms (call : Caller) (env : EnvRef) : List Comm → Run (List SelectCase)
  | [] => pure []
  | comm :: rest => do
    let first ← evalComm call env comm
    let others ← evalComms call env rest
    pure (first :: others)

end MiniGo
