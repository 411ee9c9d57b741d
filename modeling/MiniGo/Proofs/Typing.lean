import MiniGo.Proofs.Layer
import MiniGo.Proofs.Sites
/-!
Typing of compiled code. A judgement gives code a type in the context of the position it stands at,
and an instruction the layers that it hands over to the positions it goes on at. A function is typed
when each of its instructions hands over what the instruction it leads to asks for.
-/

namespace MiniGo

/-- The operator is defined on two types and gives a third. -/
inductive BinaryOp.Takes (op : BinaryOp) : Ty → Ty → Ty → Prop
  | equality {left right : Ty} : op.isEquality = true → op.Takes left right .bool
  | same {type : Ty} : op.isEquality = false → op.isLogical = false →
    Operand.allows op type type = true →
    op.Takes type type (if op.isComparison then .bool else type)

inductive UnaryOp.Takes : UnaryOp → Ty → Prop
  | neg {type : Ty} : type.isNumeric = true → UnaryOp.Takes .neg type
  | not : UnaryOp.Takes .not .bool

namespace Ty

inductive Converts : Ty → Ty → Prop
  | number {source target : Ty} : source.isNumeric = true → target.isNumeric = true →
    Converts source target
  | codePoint : Converts .int .string

def isMeasured : Ty → Bool
  | .string | .slice _ | .map _ _ | .chan _ _ => true
  | _ => false

end Ty

namespace Signature

def Proper (signature : Signature) : Prop :=
  signature.variadic = true → signature.variadicElem?.isSome = true

def Accepts (signature : Signature) (spread : Bool) (types : List Ty) : Prop :=
  if spread then types = signature.params
  else
    types = Invoke.argumentTypes signature signature.fixed types.length ∧
      if signature.variadic then signature.fixed ≤ types.length
      else types.length = signature.fixed

end Signature

/-- A built-in function that is called like a function value can work on the given types. -/
def Builtin.Takes (builtin : Builtin) (params : List Ty) : Prop :=
  match builtin with
  | .delete => ∃ key value, params = [.map key value, key]
  | _ => True

/-- How a range loop goes over a type: the type of its key, and of its value if it has one. -/
inductive RangeKind.Over : RangeKind → Ty → Ty → Option Ty → Prop
  | int : RangeKind.Over .int .int .int none
  | slice {elem : Ty} : RangeKind.Over .slice (.slice elem) .int (some elem)
  | string : RangeKind.Over .string .string .int (some .int)
  | map {key value : Ty} : RangeKind.Over .map (.map key value) key (some value)
  | chan {direction : Direction} {elem : Ty} : RangeKind.Over .chan (.chan direction elem) elem none

/-- The iteration state of a range loop lies in one environment. -/
structure RangeSlots.In (state : RangeSlots) (level : Level) (subject key : Ty) : Prop where
  subject : level.Has state.subject ∧ state.subject.type = subject
  keys : level.Has state.keys ∧ state.keys.type = .slice key
  index : level.Has state.index ∧ state.index.type = .int
  limit : level.Has state.limit ∧ state.limit.type = .int
  step : level.Has state.step ∧ state.step.type = .int

def PlaceOf.inner? {τ : Type} : PlaceOf τ → Option Slot
  | .slot 0 target => some target
  | _ => none

def stored (slots : List Slot) : List Layer → List Layer
  | [] => []
  | layer :: layers => { layer with ready := slots ++ layer.ready } :: layers

/-- A value of a type has been parked in a slot of the innermost environment. -/
def parking (slot : Slot) (type : Ty) : List Layer → List Layer
  | [] => []
  | layer :: layers => { layer with parked := [(slot, type)] } :: layers

def receiving (slot : Slot) (elem : Option Ty) (layers : List Layer) : List Layer :=
  elem.elim layers fun type => parking slot type layers

/-- The frames of environments in their final form. -/
def finals (layers : List Layer) : List Frame := layers.map (·.level.frame)

def Ctx.site {strict : Prop} (ctx : Ctx strict) : Site := ⟨ctx.scope, finals ctx.layers⟩

/-- The layers of the environment of the operands of a task, which has no slots. -/
def Level.none : Level :=
  { frame := { owned := true }, objects := [], words := [], hidden := []
    objects_length := rfl, words_length := rfl
    objects_boxed := by simp, words_scalar := by simp, hidden_inside := by simp
    named := by simp, sound := by simp }

def Ctx.inner {strict : Prop} (ctx : Ctx strict) : Ctx strict where
  scope := { owned := true } :: ctx.scope
  layers := { level := Level.none } :: ctx.layers
  fits := .owned rfl ⟨rfl, List.suffix_refl _, Nat.le_refl _, Nat.le_refl _⟩ (by simp) ctx.fits

/-- A position that some layers can be handed over to: one of `stops`, which start at `here`, or the
one after them. -/
def Lands (here : Nat) (stops : List (List Layer)) (exit : List Layer) (position : Nat)
    (layers : List Layer) : Prop :=
  (∃ index target, position = here + index ∧ stops[index]? = some target ∧ Serves layers target) ∨
    (position = here + stops.length ∧ Serves layers exit)

/-- A value of a type can be stored through a place for values of another; a blank place takes
anything. -/
def Ty.StoresTo (type : Ty) (target : Option Ty) : Prop :=
  ∀ wanted, target = some wanted → type.assignableTo wanted = true

mutual

inductive CodeTyped (strict : Prop) : Ctx strict → Code → Ty → Prop
  | const {ctx value} : CodeTyped strict ctx (.const value) value.type
  | load {ctx hops slot name} :
    ctx.scope.lookup name = some (hops, .var slot) →
    CodeTyped strict ctx (.load hops slot) slot.type
  | binary {ctx op left right leftType rightType result} :
    CodeFits strict ctx left leftType →
    CodeFits strict ctx right rightType →
    op.Takes leftType rightType result →
    CodeTyped strict ctx (.binary op left right) result
  | logical {ctx stop left right} :
    CodeFits strict ctx left .bool →
    CodeFits strict ctx right .bool →
    CodeTyped strict ctx (.logical stop left right) .bool
  | unary {ctx op operand type} :
    CodeFits strict ctx operand type →
    op.Takes type →
    CodeTyped strict ctx (.unary op operand) type
  | convert {ctx target operand source} :
    CodeFits strict ctx operand source →
    source.Converts target →
    CodeTyped strict ctx (.convert target operand) target
  | receive {ctx channel direction elem} :
    CodeFits strict ctx channel (.chan direction elem) →
    CodeTyped strict ctx (.receive channel) elem
  | sliceIndex {ctx base index elem} :
    CodeFits strict ctx base (.slice elem) →
    CodeFits strict ctx index .int →
    CodeTyped strict ctx (.sliceIndex base index) elem
  | stringIndex {ctx base index} :
    CodeFits strict ctx base .string →
    CodeFits strict ctx index .int →
    CodeTyped strict ctx (.stringIndex base index) .int
  | mapIndex {ctx base key keyType value} :
    CodeFits strict ctx base (.map keyType value) →
    CodeFits strict ctx key keyType →
    CodeTyped strict ctx (.mapIndex value base key) value
  | sliceLit {ctx elem items} :
    CodesFit strict ctx items (List.replicate items.length elem) →
    CodeTyped strict ctx (.sliceLit elem items) (.slice elem)
  | mapLit {ctx key value entries} :
    key.isKey = true →
    EntriesFit strict ctx entries key value →
    CodeTyped strict ctx (.mapLit key value entries) (.map key value)
  | typeAssert {ctx target operand type} :
    CodeFits strict ctx operand type →
    CodeTyped strict ctx (.typeAssert target operand) target
  | closure {ctx template} :
    TemplateTyped strict ctx.lasting template →
    CodeTyped strict ctx (.closure template) template.signature.toTy
  | builtin {ctx builtin params} :
    builtin.Takes params →
    CodeTyped strict ctx (.builtin builtin params) (.func params [] false)
  | length {ctx operand type} :
    CodeFits strict ctx operand type →
    type.isMeasured = true →
    CodeTyped strict ctx (.length operand) .int
  | capacity {ctx operand type} :
    CodeFits strict ctx operand type →
    type.isMeasured = true →
    CodeTyped strict ctx (.capacity operand) .int
  | append {ctx elem base extra} :
    CodeFits strict ctx base (.slice elem) →
    ValuesEach strict ctx extra elem →
    CodeTyped strict ctx (.append elem base extra) (.slice elem)
  | makeSlice {ctx elem length} :
    CodeFits strict ctx length .int →
    CodeTyped strict ctx (.makeSlice elem length) (.slice elem)
  | makeMap {ctx key value} :
    key.isKey = true →
    CodeTyped strict ctx (.makeMap key value) (.map key value)
  | makeChan {ctx elem} : CodeTyped strict ctx (.makeChan elem none) (.chan .both elem)
  | makeChanSized {ctx elem size} :
    CodeFits strict ctx size .int →
    CodeTyped strict ctx (.makeChan elem (some size)) (.chan .both elem)
  | first {ctx values type types} :
    ValuesTyped strict ctx values (type :: types) →
    CodeTyped strict ctx (.first values) type

/-- Code gives values that can be stored where a type is declared. -/
inductive CodeFits (strict : Prop) : Ctx strict → Code → Ty → Prop
  | of {ctx code source target} :
    CodeTyped strict ctx code source →
    source.assignableTo target = true →
    CodeFits strict ctx code target

inductive CodesFit (strict : Prop) : Ctx strict → List Code → List Ty → Prop
  | nil {ctx} : CodesFit strict ctx [] []
  | cons {ctx code type codes types} :
    CodeFits strict ctx code type →
    CodesFit strict ctx codes types →
    CodesFit strict ctx (code :: codes) (type :: types)

inductive EntriesFit (strict : Prop) : Ctx strict → List (Code × Code) → Ty → Ty → Prop
  | nil {ctx key value} : EntriesFit strict ctx [] key value
  | cons {ctx keyCode valueCode entries key value} :
    CodeFits strict ctx keyCode key →
    CodeFits strict ctx valueCode value →
    EntriesFit strict ctx entries key value →
    EntriesFit strict ctx ((keyCode, valueCode) :: entries) key value

/-- Code gives values of some types, one after the other. -/
inductive ValuesTyped (strict : Prop) : Ctx strict → Values → List Ty → Prop
  | each {ctx items types} :
    CodesFit strict ctx items types →
    ValuesTyped strict ctx (.each items) types
  | call {ctx callee args spread results} :
    CallTyped strict ctx ⟨callee, args, spread⟩ results →
    ValuesTyped strict ctx (.call callee args spread) results
  | mapLookup {ctx base key keyType value} :
    CodeFits strict ctx base (.map keyType value) →
    CodeFits strict ctx key keyType →
    ValuesTyped strict ctx (.mapLookup value base key) [value, .bool]
  | receiveOk {ctx channel direction elem} :
    CodeFits strict ctx channel (.chan direction elem) →
    ValuesTyped strict ctx (.receiveOk channel) [elem, .bool]
  | typeAssertOk {ctx target operand type} :
    CodeFits strict ctx operand type →
    ValuesTyped strict ctx (.typeAssertOk target operand) [target, .bool]

/-- All values that code gives can be stored where one type is declared. -/
inductive ValuesEach (strict : Prop) : Ctx strict → Values → Ty → Prop
  | each {ctx items elem} :
    CodesFit strict ctx items (List.replicate items.length elem) →
    ValuesEach strict ctx (.each items) elem
  | elements {ctx slice elem} :
    CodeFits strict ctx slice (.slice elem) →
    ValuesEach strict ctx (.elements slice) elem

inductive CallTyped (strict : Prop) : Ctx strict → Call → List Ty → Prop
  | mk {ctx callee args spread} {signature : Signature} {sources targets} :
    CodeFits strict ctx callee signature.toTy →
    ValuesTyped strict ctx args sources →
    List.Forall₂ (fun source target => source.assignableTo target = true) sources targets →
    signature.Accepts spread targets →
    CallTyped strict ctx ⟨callee, args, spread⟩ signature.results

inductive PlaceTyped (strict : Prop) : Ctx strict → Place → Option Ty → Prop
  | known {ctx hops slot name} :
    ctx.scope.lookup name = some (hops, .var slot) →
    PlaceTyped strict ctx (.slot hops slot) (some slot.type)
  | item {ctx elem base index} :
    CodeFits strict ctx base (.slice elem) →
    CodeFits strict ctx index .int →
    PlaceTyped strict ctx (.element (.slice elem) base index) (some elem)
  | entry {ctx key value base index} :
    CodeFits strict ctx base (.map key value) →
    CodeFits strict ctx index key →
    PlaceTyped strict ctx (.element (.map key value) base index) (some value)
  | blank {ctx} : PlaceTyped strict ctx .blank none

/-- Places that values are stored to. Some may be variables whose declaration is being executed. -/
inductive PlacesTyped (strict : Prop) : Ctx strict → List Place → List (Option Ty) → Prop
  | nil {ctx} : PlacesTyped strict ctx [] []
  | cons {ctx place target places targets} :
    PlaceTyped strict ctx place target →
    PlacesTyped strict ctx places targets →
    PlacesTyped strict ctx (place :: places) (target :: targets)
  | fresh {ctx slot layer name places targets} :
    ctx.layers[0]? = some layer →
    (name, Symbol.var slot) ∈ layer.level.frame.symbols →
    PlacesTyped strict ctx places targets →
    PlacesTyped strict ctx (.slot 0 slot :: places) (some slot.type :: targets)

/-- The communications of a select, each with the type of what it receives. -/
inductive CommsTyped (strict : Prop) : Ctx strict → List Comm → List (Option Ty) → Prop
  | nil {ctx} : CommsTyped strict ctx [] []
  | send {ctx channel value direction elem comms received} :
    CodeFits strict ctx channel (.chan direction elem) →
    CodeFits strict ctx value elem →
    CommsTyped strict ctx comms received →
    CommsTyped strict ctx (.send channel value :: comms) (none :: received)
  | recv {ctx channel direction elem comms received} :
    CodeFits strict ctx channel (.chan direction elem) →
    CommsTyped strict ctx comms received →
    CommsTyped strict ctx (.recv channel :: comms) (some elem :: received)

/-- An instruction at a position, in a function created inside `base` environments. `lands` tells
which layers a position takes, `out` which the exits of the statements around take. -/
inductive InstrTyped (strict : Prop) :
    Nat → (Nat → List Layer → Prop) → (Nat → ExitKind → List Layer → Prop) → Nat → Ctx strict →
      Instr → Prop
  | skip {base lands out here ctx} :
    lands (here + 1) ctx.layers →
    InstrTyped strict base lands out here ctx .skip
  | interrupt {base lands out here ctx} :
    InstrTyped strict base lands out here ctx (.interrupt .ret)
  | eval {base lands out here ctx values types} :
    ValuesTyped strict ctx values types →
    lands (here + 1) ctx.layers →
    InstrTyped strict base lands out here ctx (.eval values)
  | goto {base lands out here ctx dest} :
    lands dest ctx.layers →
    InstrTyped strict base lands out here ctx (.goto dest)
  | jumpUnless {base lands out here ctx cond dest} :
    CodeFits strict ctx cond .bool →
    lands (here + 1) ctx.layers →
    lands dest ctx.layers →
    InstrTyped strict base lands out here ctx (.jumpUnless cond dest)
  | push {base lands out here ctx} {level : Level} :
    lands (here + 1) ({ level } :: ctx.layers) →
    InstrTyped strict base lands out here ctx (.push level.frame.objects level.frame.words)
  | pop {base lands out here ctx layer layers} :
    ctx.layers = layer :: layers →
    base < layers.length →
    lands (here + 1) layers →
    InstrTyped strict base lands out here ctx .pop
  | leave {base lands out here ctx hops dest} :
    base < (ctx.layers.drop hops).length →
    lands dest (ctx.layers.drop hops) →
    InstrTyped strict base lands out here ctx (.leave hops (.line dest))
  | exit {base lands out here ctx hops level kind} :
    out level kind (ctx.layers.drop hops) →
    InstrTyped strict base lands out here ctx (.leave hops (.exit level kind))
  | ret {base lands out here ctx hops layer results values types} :
    ctx.layers[hops]? = some layer →
    (∀ slot ∈ results, layer.level.Shared slot) →
    ValuesTyped strict ctx values types →
    List.Forall₂ (fun type (slot : Slot) => type.assignableTo slot.type = true) types results →
    InstrTyped strict base lands out here ctx (.ret hops results values)
  | defer {base lands out here ctx call results} :
    CallTyped strict ctx call results →
    lands (here + 1) ctx.layers →
    InstrTyped strict base lands out here ctx (.defer call)
  | go {base lands out here ctx call results} :
    CallTyped strict ctx.inner call results →
    lands (here + 1) ctx.layers →
    InstrTyped strict base lands out here ctx (.go call)
  | send {base lands out here ctx channel value direction elem} :
    CodeFits strict ctx channel (.chan direction elem) →
    CodeFits strict ctx value elem →
    lands (here + 1) ctx.layers →
    InstrTyped strict base lands out here ctx (.send channel value)
  | assign {base lands out here ctx places values types targets} :
    PlacesTyped strict ctx places targets →
    ValuesTyped strict ctx values types →
    List.Forall₂ Ty.StoresTo types targets →
    lands (here + 1) (stored (places.filterMap PlaceOf.inner?) ctx.layers) →
    InstrTyped strict base lands out here ctx (.assign places values)
  | update {base lands out here ctx op place operand type} :
    PlaceTyped strict ctx place (some type) →
    CodeFits strict ctx operand type →
    op.Takes type type type →
    lands (here + 1) ctx.layers →
    InstrTyped strict base lands out here ctx (.update op place operand)
  | init {base lands out here ctx layer slots values types} :
    ctx.layers[0]? = some layer →
    (∀ slot, some slot ∈ slots → layer.level.Shared slot) →
    ValuesTyped strict ctx values types →
    List.Forall₂ (fun type (slot : Option Slot) => type.StoresTo (slot.map (·.type))) types slots →
    lands (here + 1) (stored (slots.filterMap id) ctx.layers) →
    InstrTyped strict base lands out here ctx (.init slots values)
  | bind {base lands out here ctx layer slot template} :
    ctx.layers[0]? = some layer →
    layer.level.Shared slot →
    TemplateTyped strict ctx.lasting template →
    (strict → template.signature.toTy = slot.type) →
    lands (here + 1) (stored [slot] ctx.layers) →
    InstrTyped strict base lands out here ctx (.bind slot template)
  | callInit {base lands out here ctx template} :
    TemplateTyped strict ctx.lasting template →
    template.signature.params = [] →
    lands (here + 1) ctx.layers →
    InstrTyped strict base lands out here ctx (.callInit template)
  | switch {base lands out here ctx tag cases fallback tagType types} :
    CodeFits strict ctx tag tagType →
    CodesFit strict ctx (cases.map (·.1)) types →
    (∀ entry ∈ cases, lands entry.2 ctx.layers) →
    lands fallback ctx.layers →
    InstrTyped strict base lands out here ctx (.switch tag cases fallback)
  | typeSwitch {base lands out here ctx subject cases fallback type} :
    CodeFits strict ctx subject type →
    (∀ entry ∈ cases, lands entry.2 ctx.layers) →
    lands fallback ctx.layers →
    InstrTyped strict base lands out here ctx (.typeSwitch subject cases fallback none)
  | typeSwitchParked {base lands out here ctx layer subject cases fallback type} {slot : Slot} :
    CodeFits strict ctx subject type →
    ctx.layers[0]? = some layer →
    layer.level.Parks slot →
    (∀ entry ∈ cases, ∃ known, (known = .any ∨ entry.1 = some known) ∧
      lands entry.2 (parking slot known ctx.layers)) →
    lands fallback (parking slot .any ctx.layers) →
    InstrTyped strict base lands out here ctx (.typeSwitch subject cases fallback (some slot))
  | select {base lands out here ctx comms fallback received} :
    CommsTyped strict ctx (comms.map (·.1)) received →
    (∀ entry ∈ comms, lands entry.2 ctx.layers) →
    (∀ dest, fallback = some dest → lands dest ctx.layers) →
    InstrTyped strict base lands out here ctx (.select comms fallback none)
  | selectParked {base lands out here ctx layer comms fallback received} {value flag : Slot} :
    CommsTyped strict ctx (comms.map (·.1)) received →
    ctx.layers[0]? = some layer →
    layer.level.Parks value →
    layer.level.Has flag ∧ flag.slotClass = .word ∧ flag.type = .bool →
    List.Forall₂ (fun (entry : Comm × Nat) elem => lands entry.2 (receiving value elem ctx.layers))
      comms received →
    (∀ dest, fallback = some dest → lands dest ctx.layers) →
    InstrTyped strict base lands out here ctx (.select comms fallback (some (value, flag)))
  | adopt {base lands out here ctx inner outer layers pairs} :
    ctx.layers = inner :: outer :: layers →
    (∀ pair ∈ pairs, inner.level.Shared pair.2 ∧
      ((outer.level.Has pair.1 ∧ pair.1.slotClass = .word ∧
          pair.1.type.assignableTo pair.2.type = true) ∨
        (outer.level.Parks pair.1 ∧
          ∃ known, (pair.1, known) ∈ outer.parked ∧ known.assignableTo pair.2.type = true))) →
    lands (here + 1) (stored (pairs.map (·.2)) ctx.layers) →
    InstrTyped strict base lands out here ctx (.adopt pairs)
  | unpark {base lands out here ctx layer known place target flagPlace flagTarget} {value flag : Slot} :
    ctx.layers[0]? = some layer →
    layer.level.Parks value →
    (value, known) ∈ layer.parked →
    layer.level.Has flag ∧ flag.slotClass = .word ∧ flag.type = .bool →
    PlaceTyped strict ctx place target →
    known.StoresTo target →
    PlacesTyped strict ctx (Option.toList flagPlace) flagTarget →
    (∀ wanted ∈ flagTarget, Ty.StoresTo .bool wanted) →
    lands (here + 1) ctx.layers →
    InstrTyped strict base lands out here ctx (.unpark (value, flag) place flagPlace)
  | rangeStart {base lands out here ctx layer kind key value state subject} :
    ctx.layers[0]? = some layer →
    kind.Over state.subject.type key value →
    state.In layer.level state.subject.type key →
    CodeFits strict ctx subject state.subject.type →
    lands (here + 1) (stored [state.subject] ctx.layers) →
    InstrTyped strict base lands out here ctx (.rangeStart kind key state subject)
  | rangeNext {base lands out here ctx layer kind key value state keyPlace valuePlace dest keyTargets
      valueTargets} :
    ctx.layers[0]? = some layer →
    kind.Over state.subject.type key value →
    state.In layer.level state.subject.type key →
    (strict → state.subject.type = .string → state.subject ∈ layer.ready) →
    PlacesTyped strict ctx (Option.toList keyPlace) keyTargets →
    (∀ target ∈ keyTargets, key.StoresTo target) →
    PlacesTyped strict ctx (Option.toList valuePlace) valueTargets →
    (∀ target ∈ valueTargets, ∃ type, value = some type ∧ type.StoresTo target) →
    lands (here + 1) (stored ((keyPlace.toList ++ valuePlace.toList).filterMap PlaceOf.inner?)
      ctx.layers) →
    lands dest ctx.layers →
    InstrTyped strict base lands out here ctx (.rangeNext kind state keyPlace valuePlace dest)
  | rangeStep {base lands out here ctx layer state subject key} :
    ctx.layers[0]? = some layer →
    state.In layer.level subject key →
    lands (here + 1) ctx.layers →
    InstrTyped strict base lands out here ctx (.rangeStep state)

/-- A compiled function that is created in a context. -/
inductive TemplateTyped (strict : Prop) : Ctx strict → Template → Prop
  | mk {ctx template head span body} {level : Level} {positions : List (Ctx strict)}
      {exit : List Layer} :
    Compile.function ctx.scope head span body = .ok template →
    Compile.FunctionSites ctx.scope (finals ctx.layers) head span body (positions.map Ctx.site) →
    level.frame.objects = template.objects →
    level.frame.words = template.words →
    List.Forall₂ (fun (slot : Option Slot) type => ∀ found, slot = some found →
      level.Shared found ∧ found.type = type) template.params template.signature.params →
    List.Forall₂ (fun (slot : Slot) type => level.Shared slot ∧ slot.type = type)
      template.results template.signature.results →
    (strict → template.signature.Proper) →
    positions.length = template.program.lines.size →
    Lands 0 (positions.map (·.layers)) exit 0
      ({ level, ready := template.params.filterMap id ++ template.results } :: ctx.layers) →
    (∀ (index : Nat) line here, template.program.lines[index]? = some line →
      positions[index]? = some here →
      InstrTyped strict ctx.layers.length (Lands 0 (positions.map (·.layers)) exit)
        (fun _ _ _ => False) index here line.instr) →
    TemplateTyped strict ctx template

end

@[simp] theorem finals_cons (layer : Layer) (layers : List Layer) :
    finals (layer :: layers) = layer.level.frame :: finals layers := rfl

@[simp] theorem finals_stored (slots : List Slot) (layers : List Layer) :
    finals (stored slots layers) = finals layers := by
  cases layers <;> rfl

@[simp] theorem finals_lasting (layers : List Layer) :
    finals (layers.map Layer.lasting) = finals layers := by
  simp [finals]

theorem Serves.finals_eq {source target : List Layer} (serves : Serves source target) :
    finals source = finals target := by
  induction serves with
  | nil => rfl
  | cons head _ ih => rw [finals_cons, finals_cons, head.level, ih]

end MiniGo
