import MiniGo.Compile
import MiniGo.Location
/-!
Evaluation by the tree. The reference evaluates an expression as it is written, operand after operand,
and computes nothing ahead of time. It notes each operand with the values that it has given, so that its
notes tell what has been evaluated, how often and in which order.

Of the compiler it takes what names and written types stand for, the types of operands, and which of
them are constants: an integer constant becomes a float where one is wanted.
-/

namespace MiniGo

variable {α β : Type}

theorem Outcome.bind_done (outcome : Outcome α) : outcome.bind .done = outcome := by
  induction outcome with
  | done value world => rfl
  | fail error world => rfl
  | await wait world resume ih => exact congrArg (Outcome.await wait world) (funext ih)
  | broken reason => rfl

instance : LawfulMonad Run := by
  refine LawfulMonad.mk' Run (fun run => ?_) (fun value next => ?_) Run.bind_assoc
  · funext world
    show Run.bind run (fun value => pure value) world = run world
    rw [Run.bind_apply]
    exact Outcome.bind_done (run world)
  · rfl

theorem Run.ofExcept_attempt (run : Run α) : Run.attempt run >>= Run.ofExcept = run := by
  funext world
  show Run.bind (Run.attempt run) Run.ofExcept world = run world
  rw [Run.bind_apply, Run.attempt_apply]
  induction run world with
  | done value world => rfl
  | fail error world => rfl
  | await wait world resume ih => exact congrArg (Outcome.await wait world) (funext ih)
  | broken reason => rfl

/-- Operands that have been evaluated, in this order, each with the values it has given or with its
failure. -/
abbrev Notes := List (Expr × Except RuntimeError (List Value))

/-- A computation that notes the operands it evaluates. It keeps its notes when it fails. -/
def Noted (α : Type) : Type := Run (Except RuntimeError α × Notes)

namespace Noted

instance : Monad Noted where
  pure value := show Run _ from pure (.ok value, [])
  bind first next := show Run _ from do
    let (result, notes) ← first
    match result with
    | .ok value => do
      let (result, more) ← next value
      pure (result, notes ++ more)
    | .error error => pure (.error error, notes)

def lift (run : Run α) : Noted α := show Run _ from do
  let result ← Run.attempt run
  pure (result, [])

def operand (node : Expr) (evaluated : Noted (List Value)) : Noted (List Value) :=
  show Run _ from do
    let (result, notes) ← evaluated
    pure (result, notes ++ [(node, result)])

def value (node : Expr) (evaluated : Noted (List Value)) : Noted Value := do
  let values ← operand node evaluated
  pure (values.headD .nil)

def forget (noted : Noted α) : Run α := do
  let (result, _) ← noted
  Run.ofExcept result

section Forgetting

variable (node : Expr) (evaluated : Noted (List Value))

@[simp] theorem forget_pure (value : α) : (pure value : Noted α).forget = pure value := rfl

@[simp] theorem forget_bind (first : Noted α) (next : α → Noted β) :
    (first >>= next).forget = first.forget >>= fun value => (next value).forget := by
  let start : Run (Except RuntimeError α × Notes) := first
  let goOn (value : α) : Run (Except RuntimeError β × Notes) := next value
  show (start >>= fun pair => match pair.1 with
      | .ok value => goOn value >>= fun more => pure (more.1, pair.2 ++ more.2)
      | .error error => pure (.error error, pair.2)) >>= (fun pair => Run.ofExcept pair.1) =
    (start >>= fun pair => Run.ofExcept pair.1) >>= fun value =>
      goOn value >>= fun pair => Run.ofExcept pair.1
  rw [bind_assoc, bind_assoc]
  refine bind_congr fun pair => ?_
  obtain ⟨result, notes⟩ := pair
  cases result with
  | ok value => exact (bind_assoc ..).trans (bind_congr fun more => pure_bind ..)
  | error error => rfl

@[simp] theorem forget_lift (run : Run α) : (lift run).forget = run := by
  show (Run.attempt run >>= fun result => pure (result, [])) >>= (fun pair => Run.ofExcept pair.1) =
    run
  simp only [bind_assoc, pure_bind]
  exact Run.ofExcept_attempt run

@[simp] theorem forget_operand : (operand node evaluated).forget = evaluated.forget := by
  let start : Run (Except RuntimeError (List Value) × Notes) := evaluated
  show (start >>= fun pair => pure (pair.1, pair.2 ++ [(node, pair.1)])) >>=
      (fun pair => Run.ofExcept pair.1) = start >>= fun pair => Run.ofExcept pair.1
  simp only [bind_assoc, pure_bind]

@[simp] theorem forget_value : (value node evaluated).forget =
    evaluated.forget >>= fun values => pure (values.headD .nil) := by
  simp only [value, forget_bind, forget_operand, forget_pure]

end Forgetting

end Noted

/-- What is known of an expression before it is run. -/
structure Static where
  types : List Ty
  constant : Bool

def Operand.static (operand : Operand) : Static := ⟨operand.types, operand.isConst⟩

def Compile.static (scope : Scope) (node : Expr) : Static :=
  match expr scope node with
  | .ok operand => operand.static
  | .error _ => ⟨[], false⟩

namespace Static

def type (static : Static) : Ty := static.types.headD .nil

def adjust (static : Static) (target : Ty) (value : Value) : Value :=
  if static.constant && static.type != target && target == .float then value.convert .float
  else value

def beside (static other : Static) (value : Value) : Value :=
  if static.constant && static.type == .int && other.type == .float then value.convert .float
  else value

end Static

section Constants

variable {call : Caller} {env : EnvRef}

theorem Value.binary_const (op : BinaryOp) (left right : Const) :
    Value.binary op (.const left) (.const right) = (Const.binary op left right).map .const := by
  cases op with
  | eq => cases left <;> cases right <;> rfl
  | notEq => cases left <;> cases right <;> rfl
  | _ => cases left <;> cases right <;> rfl

theorem Value.unary_const (op : UnaryOp) (operand : Const) :
    Value.unary op (.const operand) = (Const.unary op operand).map .const := by
  show (Const.unary op operand >>= fun result => pure (Value.const result)) = _
  cases Const.unary op operand <;> rfl

theorem eval_binary_const (op : BinaryOp) (left right : Const) :
    eval call env (.binary op (.const left) (.const right)) =
      Run.ofExcept ((Const.binary op left right).map .const) := by
  simp only [eval, pure_bind, Value.binary_const]

theorem eval_unary_const (op : UnaryOp) (operand : Const) :
    eval call env (.unary op (.const operand)) =
      Run.ofExcept ((Const.unary op operand).map .const) := by
  simp only [eval, pure_bind, Value.unary_const]

end Constants

/-- The type that a built-in function takes an argument as, given the type it has and the type of the
first one, if this is another one. -/
def Builtin.target (builtin : Builtin) (ellipsis : Bool) (base : Option Ty) (type : Ty) : Ty :=
  match builtin, base with
  | .delete, some (.map key _) => key
  | .append, some (.slice elem) => if ellipsis then .slice elem else elem
  | .panic, _ | .print, _ | .println, _ => .any
  | _, _ => type

def Builtin.targets (builtin : Builtin) (ellipsis : Bool) : List Ty → List Ty
  | [] => []
  | base :: rest =>
    builtin.target ellipsis none base :: rest.map (builtin.target ellipsis (some base))

def Signature.targets (signature : Signature) (ellipsis : Bool) (count : Nat) : List Ty :=
  Invoke.argumentTypes signature (if ellipsis then signature.params.length else signature.fixed) count

def Compile.forwards (scope : Scope) (ellipsis : Bool) : List Expr → Bool
  | [single] => !ellipsis && decide (1 < (static scope single).types.length)
  | _ => false

namespace Reference

def one (run : Run Value) : Run (List Value) := do
  let value ← run
  pure [value]

def absent : Run α := Run.fail (.internal "expression without a meaning")

def meaning : Compiled α → Run α
  | .ok found => pure found
  | .error _ => absent

def results (types : List Ty) (values : List Value) : List Value :=
  match types with
  | [_] => [values.headD .nil]
  | _ => values

def builtin (call : Caller) (env : EnvRef) (builtin : Builtin) (ellipsis : Bool) (types : List Ty)
    (args : List Value) : Run (List Value) :=
  match builtin, args with
  | .len, value :: _ => one (Run.lengthOf value)
  | .cap, value :: _ => one (Run.capacityOf value)
  | .append, base :: extra => one do
    let extra ← if ellipsis then Run.elements (extra.headD .nil) else pure extra
    Run.appended ((types.headD .nil).elem?.getD .any) base extra
  | builtin, args => do
    let thread ← Run.read (·.threadOf env)
    call thread ⟨.func ⟨⟨types, [], false⟩, .builtin builtin⟩, args, false⟩

variable (call : Caller) (scope : Scope) (env : EnvRef)

open Noted Compile

mutual

def values : Expr → Noted (List Value)
  | .ident ident =>
    match scope.lookup ident.name with
    | some (hops, .var slot) => lift (one (Run.load env hops slot))
    | some (_, .const value _) => pure [.const value]
    | _ => lift absent
  | .int value _ => pure [.int value]
  | .float value _ => pure [.float value]
  | .bool value _ => pure [.bool value]
  | .string value _ => pure [.str value]
  | .binary op left right _ => do
    let first ← value left (values left)
    if op.isLogical then
      let truth ← lift (Run.asBool first)
      if truth == (op == .or) then pure [.bool truth]
      else do
        let second ← value right (values right)
        pure [second]
    else
      let second ← value right (values right)
      let first := (static scope left).beside (static scope right) first
      let second := (static scope right).beside (static scope left) second
      lift (one (Run.ofExcept (Value.binary op first second)))
  | .unary op operand _ => do
    let given ← value operand (values operand)
    if op == .recv then
      let (received, _) ← lift (Run.recvFrom given)
      pure [received]
    else lift (one (Run.ofExcept (Value.unary op given)))
  | .call callee args ellipsis span =>
    match scope.callee callee with
    | .ok (.conversion target) => converted target args
    | .ok (.builtin .make) => do
      let type ← lift (meaning (Builtin.madeType scope (args.headD callee) args.tail.length span))
      made type args
    | .ok (.builtin function) => do
      let types := function.targets ellipsis (args.map fun arg => (static scope arg).type)
      let args ← arguments types args
      lift (builtin call env function ellipsis types args)
    | .ok .function => do
      let function ← value callee (values callee)
      match (static scope callee).type with
      | .func params resultTypes variadic => do
        let signature : Signature := ⟨params, resultTypes, variadic⟩
        let args ← (if forwards scope ellipsis args then forwarded args
          else arguments (signature.targets ellipsis args.length) args)
        let thread ← lift (Run.read (·.threadOf env))
        let given ← lift (call thread ⟨function, args, ellipsis⟩)
        pure (results resultTypes given)
      | _ => lift absent
    | .error _ => lift absent
  | .func head body span => do
    let template ← lift (meaning (function scope head span body))
    lift (one (Run.closure template env))
  | .index base index _ =>
    match (static scope base).type with
    | .slice _ => do
      let position ← value index (values index)
      let position ← lift (Run.asInt position)
      let container ← value base (values base)
      lift (one (Run.sliceItem container position))
    | .string => do
      let container ← value base (values base)
      let text ← lift (Run.ofExcept container.asStr)
      let position ← value index (values index)
      let position ← lift (Run.asInt position)
      lift (one (Run.stringByte text position))
    | .map keyType elem => do
      let key ← value index (values index)
      let container ← value base (values base)
      let found ← lift (Run.mapEntry container ((static scope index).adjust keyType key))
      pure [found.getD (.zero elem)]
    | _ => lift absent
  | .sliceLit elem elems span => do
    let elem ← lift (meaning (scope.resolve span elem))
    let items ← arguments (elems.map fun _ => elem) elems
    lift (one (Run.newSlice elem items))
  | .mapLit key elem contents span => do
    let key ← lift (meaning (scope.resolve span key))
    let elem ← lift (meaning (scope.resolve span elem))
    let ref ← lift (Run.updateHeap Heap.newMap)
    entries key elem ref contents
    pure [.map key elem ref]
  | .typeAssert operand written span => do
    let given ← value operand (values operand)
    let target ← lift (meaning (scope.resolve span written))
    if given.hasType target then pure [given]
    else lift (Run.fail (given.assertionFailure target))
  | .type _ _ => lift absent

def converted (target : Ty) : List Expr → Noted (List Value)
  | [arg] => do
    let given ← value arg (values arg)
    let known := static scope arg
    if known.type.assignableTo target then pure [known.adjust target given]
    else pure [given.convert target]
  | _ => lift absent

def made (type : Ty) : List Expr → Noted (List Value)
  | _ :: size :: _ =>
    match type with
    | .slice elem => do
      let length ← value size (values size)
      let length ← lift (Run.asInt length)
      let length ← lift (Run.ofExcept (checkedSize length "makeslice: len out of range"))
      lift (one (Run.newSlice elem (List.replicate length (.zero elem))))
    | .map key elem => lift (one (Run.newMap key elem))
    | .chan _ elem => do
      let capacity ← value size (values size)
      let capacity ← lift (Run.asInt capacity)
      let capacity ← lift (Run.ofExcept (checkedSize capacity "makechan: size out of range"))
      lift (one (Run.newChan elem capacity))
    | _ => lift absent
  | _ =>
    match type with
    | .map key elem => lift (one (Run.newMap key elem))
    | .chan _ elem => lift (one (Run.newChan elem 0))
    | _ => lift absent

def arguments (targets : List Ty) : List Expr → Noted (List Value)
  | [] => pure []
  | node :: rest => do
    let given ← value node (values node)
    let others ← arguments targets.tail rest
    pure ((static scope node).adjust (targets.headD .nil) given :: others)

def forwarded : List Expr → Noted (List Value)
  | [single] => operand single (values single)
  | _ => lift absent

def entries (key elem : Ty) (ref : MapRef) : List (Expr × Expr) → Noted Unit
  | [] => pure ()
  | (keyNode, valueNode) :: rest => do
    let index ← value keyNode (values keyNode)
    let given ← value valueNode (values valueNode)
    lift (Run.tryHeap (·.insertEntry ref ((static scope keyNode).adjust key index)
      ((static scope valueNode).adjust elem given)))
    entries key elem ref rest

end

variable {call scope env} in
theorem forget_values_func {head : FuncHead} {body : Block} {span : Span} {template : Template}
    (compiled : function scope head span body = .ok template) :
    (values call scope env (.func head body span)).forget = one (Run.closure template env) := by
  simp only [values, compiled, meaning, forget_bind, forget_lift, pure_bind]

def pair : Expr → Noted (List Value)
  | .index base index _ =>
    match (static scope base).type with
    | .map keyType elem => do
      let key ← value index (values call scope env index)
      let container ← value base (values call scope env base)
      match ← lift (Run.mapEntry container ((static scope index).adjust keyType key)) with
      | some found => pure [found, .bool true]
      | none => pure [.zero elem, .bool false]
    | _ => lift absent
  | .unary .recv channel _ => do
    let given ← value channel (values call scope env channel)
    let (received, flag) ← lift (Run.recvFrom given)
    pure [received, .bool flag]
  | .typeAssert operand written span => do
    let given ← value operand (values call scope env operand)
    let target ← lift (meaning (scope.resolve span written))
    if given.hasType target then pure [given, .bool true] else pure [.zero target, .bool false]
  | _ => lift absent

def location : Expr → Noted Location
  | .ident ident =>
    match identPlace scope ident with
    | .ok (.slot hops slot) => lift (Run.read fun world => .slot (world.up env hops) slot)
    | .ok .blank => pure .blank
    | _ => lift absent
  | .index base index span => do
    let container := (static scope base).type
    let given ← value base (values call scope env base)
    let position ← value index (values call scope env index)
    let keyType ← lift (meaning (elementIndexType container span))
    lift (Run.ofExcept (Location.element container given ((static scope index).adjust keyType position)))
  | _ => lift absent

end Reference

end MiniGo
