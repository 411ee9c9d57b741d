import MiniGo.Operand
/-!
Calls of functions and built-in functions, once their operands are compiled.
-/

namespace MiniGo

inductive Callee
  | builtin (builtin : Builtin)
  | conversion (target : Ty)
  | function

def Scope.callee (scope : Scope) : Expr → Compiled Callee
  | .ident ident =>
    match scope.lookup ident.name with
    | some (_, .builtin builtin) => pure (.builtin builtin)
    | some (_, .type type) => pure (.conversion type)
    | _ => pure .function
  | .type written span => do
    let type ← scope.resolve span written
    pure (.conversion type)
  | _ => pure .function

structure Invoke where
  call : Call
  results : List Ty
  span : Span

namespace Invoke

/-- The call as an operand: one result is a value, any other number a list. -/
def toOperand (invoke : Invoke) : Operand :=
  let values : Values := .call invoke.call.callee invoke.call.args invoke.call.spread
  match invoke.results with
  | [type] => .single type (.first values) invoke.span
  | results => .multi results values invoke.span

/-- Converts each operand to the type at its place. -/
def convertAll : List Operand → List Ty → Compiled (List Code)
  | operand :: operands, type :: types => do
    let operand ← operand.convertTo type
    let rest ← convertAll operands types
    pure (operand.toCode :: rest)
  | _, _ => pure []

/-- The types that `count` arguments are converted to, `fixed` of them by parameters of their own. -/
def argumentTypes (signature : Signature) (fixed count : Nat) : List Ty :=
  let rest := signature.variadicElem?.getD .any
  signature.params.take fixed ++ List.replicate (count - fixed) rest

def checkAll (span : Span) : List Ty → List Ty → Compiled Unit
  | type :: types, target :: targets =>
    if type.assignableTo target then checkAll span types targets
    else fault (.incompatible target type) span
  | _, _ => pure ()

/-- Results of one call that become the arguments of another. -/
def checkForwarded (signature : Signature) (types : List Ty) (span : Span) : Compiled Unit :=
  let fixed := signature.fixed
  let fits := if signature.variadic then fixed ≤ types.length else types.length = fixed
  if fits then checkAll span types (argumentTypes signature fixed types.length)
  else fault (.forwardedCount types.length signature.params.length) span

/-- Arguments given one by one, of which `fixed` have a parameter of their own. -/
def separate (signature : Signature) (args : List Operand) (ellipsis : Bool) (fixed : Nat)
    (span : Span) : Compiled Values := do
  if ellipsis && !signature.variadic then fault (.spreadCall signature) span
  let fits := if signature.variadic && !ellipsis then fixed ≤ args.length else args.length = fixed
  if ¬ fits then
    fault (.argumentCount args.length signature.params.length (args.length < fixed)) span
  let codes ← convertAll args (argumentTypes signature fixed args.length)
  pure (.each codes)

/-- Checks arguments against a signature. A single call with several results is forwarded. -/
def arguments (signature : Signature) (args : List Operand) (ellipsis : Bool) (span : Span) :
    Compiled Values :=
  let fixed := if ellipsis then signature.params.length else signature.fixed
  match args with
  | [single] =>
    if 1 < single.arity && !ellipsis then do
      checkForwarded signature single.types span
      pure single.toValues
    else separate signature args ellipsis fixed span
  | _ => separate signature args ellipsis fixed span

def function (callee : Operand) (signature : Signature) (args : List Operand) (ellipsis : Bool)
    (span : Span) : Compiled Invoke := do
  let args ← arguments signature args ellipsis span
  pure ⟨⟨callee.toCode, args, ellipsis⟩, signature.results, span⟩

/-- The signature of a callee, which must be a function. -/
def signature (callee : Operand) (span : Span) : Compiled Signature := do
  match ← callee.type with
  | .func params results variadic => pure ⟨params, results, variadic⟩
  | other => fault (.notFunction other) span

end Invoke

namespace Builtin

/-- Built-in functions without a result can be deferred or run as a task. -/
def discards : Builtin → Bool
  | append | cap | len | make => false
  | _ => true

/-- Number of arguments that a built-in function takes; none for any number. -/
def arity? : Builtin → Option Nat
  | close | panic | len | cap => some 1
  | delete => some 2
  | append | make | print | println => none

/-- Checks one argument after the other; `first` is the first one, once it is known. -/
def checkArgument (builtin : Builtin) (ellipsis : Bool) (count : Nat) (span : Span)
    (first : Option Operand) (operand : Operand) : Compiled Operand := do
  match builtin, first with
  | .close, _ => do
    let type ← operand.type
    let _ ← Operand.sendElem type span
    pure operand
  | .delete, none => do
    match ← operand.type with
    | .map _ _ => pure operand
    | other => fault (.notMap other) span
  | .delete, some base => do
    match ← base.type with
    | .map key _ => operand.convertTo key
    | _ => pure operand
  | .append, none => do
    match ← operand.type with
    | .slice _ => if ellipsis && count != 2 then fault .spreadNotLast span else pure operand
    | other => fault (.appendToOther other) span
  | .append, some base => do
    match ← base.type with
    | .slice elem => operand.convertTo (if ellipsis then .slice elem else elem)
    | _ => pure operand
  | .make, _ => operand.convertTo .int
  | .panic, _ | .print, _ | .println, _ => operand.convertTo .any
  | .len, _ => do
    match ← operand.type with
    | .string | .slice _ | .map _ _ | .chan _ _ => pure operand
    | other => fault (.builtinArgument .len other) span
  | .cap, _ => do
    match ← operand.type with
    | .slice _ | .chan _ _ => pure operand
    | other => fault (.builtinArgument .cap other) span

/-- Rejects a spread and a wrong number of arguments before any of them is compiled. -/
def checkUse (builtin : Builtin) (ellipsis : Bool) (count : Nat) (span : Span) : Compiled Unit := do
  if ellipsis && builtin != .append then fault (.builtinSpread builtin) span
  match builtin.arity? with
  | some wanted => if count != wanted then fault (.builtinArity builtin wanted count) span
  | none =>
    if count == 0 && (builtin == .append || builtin == .make) then
      fault (.builtinArity builtin 1 0) span

def operandTypes : List Operand → Compiled (List Ty)
  | [] => pure []
  | operand :: rest => do
    let type ← operand.type
    let types ← operandTypes rest
    pure (type :: types)

/-- A built-in function without a result, as a call of a function of its own. -/
def invoke (builtin : Builtin) (operands : List Operand) (span : Span) : Compiled Invoke := do
  let params ← operandTypes operands
  pure ⟨⟨.builtin builtin params, .each (operands.map Operand.toCode), false⟩, [], span⟩

/-- The result of `len`; a constant string has a constant length. -/
def length (operand : Operand) (span : Span) : Operand :=
  match operand.const? with
  | some (.str text) => .const (.int (Int64.ofNat (Text.byteLength text))) .int span
  | _ => .single .int (.length operand.toCode) span

def appended (ellipsis : Bool) (base : Operand) (extra : List Operand) (span : Span) :
    Compiled Operand := do
  let type ← base.type
  let elem := type.elem?.getD .any
  match ellipsis, extra with
  | true, slice :: _ => pure (.single type (.append elem base.toCode (.elements slice.toCode)) span)
  | _, extra =>
    pure (.single type (.append elem base.toCode (.each (extra.map Operand.toCode))) span)

/-- The result of `make`; the sizes are already converted. -/
def made (type : Ty) (sizes : List Operand) (span : Span) : Compiled Operand :=
  match type with
  | .slice elem =>
    match sizes with
    | [] => fault (.makeWithoutLength type) span
    | length :: _ => pure (.single type (.makeSlice elem length.toCode) span)
  | .map key value => pure (.single type (.makeMap key value) span)
  | .chan _ elem => pure (.single type (.makeChan elem (sizes.head?.map Operand.toCode)) span)
  | other => fault (.notMakeable other) span

/-- The type that `make` builds, given its number of sizes. -/
def madeType (scope : Scope) (written : Expr) (sizes : Nat) (span : Span) : Compiled Ty := do
  match ← scope.typeOperand written with
  | none => fault .nilType span
  | some type => if 2 < sizes then fault (.builtinArity .make 2 sizes) span else pure type

/-- A call of a built-in function as an expression; `make` has its own. -/
def toOperand (builtin : Builtin) (ellipsis : Bool) (operands : List Operand) (span : Span) :
    Compiled Operand :=
  match builtin, operands with
  | .len, operand :: _ => pure (length operand span)
  | .cap, operand :: _ => pure (.single .int (.capacity operand.toCode) span)
  | .append, base :: extra => appended ellipsis base extra span
  | builtin, operands => do
    let invoke ← builtin.invoke operands span
    pure invoke.toOperand

end Builtin

end MiniGo
