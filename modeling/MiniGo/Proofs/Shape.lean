import MiniGo.Machine
import MiniGo.Proofs.Typing
/-!
What the references of a running program stand for.

A `Shape` names the slots of each environment and the types of the contents of slices, maps and
channels. It only ever grows. A value is `Known` when all it refers to is, and a world is `Sound`
when it holds what its shape says.
-/

namespace MiniGo

/-- The signatures of the functions that a host provides, by number. -/
class Natives where
  signature? : Nat → Option Signature

/-- What is fixed of an environment when it is made. -/
structure EnvShape where
  level : Level
  outer : Option EnvRef
  program : Program
  thread : ThreadRef

/-- What is known of the references of a world. When `strict` holds, values have the types of the
places they are kept in. -/
structure Shape (strict : Prop) where
  env : EnvRef → Option EnvShape
  /-- Slots that hold a value of their type for good. -/
  ready : EnvRef → Slot → Prop
  slice : SliceRef → Option Ty
  /-- Slices that no value of the program refers to, and what they hold for good. -/
  keys : SliceRef → Option (Array Value) := fun _ => none
  /-- The lengths of slices, as far as they are noted. -/
  lengths : SliceRef → Option Nat := fun _ => none
  map : MapRef → Option (Ty × Ty)
  chan : ChanRef → Option Ty
  /-- The cases of a select that are sends. -/
  claim : ClaimRef → Option (List Nat)
  /-- The task that a thread was made by. -/
  owner : ThreadRef → Option ThreadRef
  /-- Threads that are tasks of their own. -/
  isTask : ThreadRef → Prop

variable {strict : Prop}

namespace Shape

/-- Whatever the first knows, the second knows too. -/
structure Grows (before after : Shape strict) : Prop where
  env : ∀ ref known, before.env ref = some known → after.env ref = some known
  ready : ∀ ref slot, before.ready ref slot → after.ready ref slot
  slice : ∀ ref elem, before.slice ref = some elem → after.slice ref = some elem
  keys : ∀ ref items, before.keys ref = some items → after.keys ref = some items
  lengths : ∀ ref size, before.lengths ref = some size → after.lengths ref = some size
  map : ∀ ref types, before.map ref = some types → after.map ref = some types
  chan : ∀ ref elem, before.chan ref = some elem → after.chan ref = some elem
  claim : ∀ ref sends, before.claim ref = some sends → after.claim ref = some sends
  owner : ∀ ref task, before.owner ref = some task → after.owner ref = some task
  isTask : ∀ ref, before.isTask ref → after.isTask ref

theorem Grows.refl (shape : Shape strict) : shape.Grows shape := by
  constructor <;> intros <;> assumption

theorem Grows.trans {first second third : Shape strict} (left : first.Grows second)
    (right : second.Grows third) : first.Grows third where
  env ref known found := right.env ref known (left.env ref known found)
  ready ref slot found := right.ready ref slot (left.ready ref slot found)
  slice ref elem found := right.slice ref elem (left.slice ref elem found)
  keys ref items found := right.keys ref items (left.keys ref items found)
  lengths ref size found := right.lengths ref size (left.lengths ref size found)
  map ref types found := right.map ref types (left.map ref types found)
  chan ref elem found := right.chan ref elem (left.chan ref elem found)
  claim ref sends found := right.claim ref sends (left.claim ref sends found)
  owner ref task found := right.owner ref task (left.owner ref task found)
  isTask ref found := right.isTask ref (left.isTask ref found)

/-- A task acts on its own thread, and on those it has made and not yet handed over. -/
def Owns (shape : Shape strict) (task ref : ThreadRef) : Prop :=
  ref = task ∨ (shape.owner ref = some task ∧ ¬shape.isTask ref)

end Shape

/-- The environment and those around it are as the layers say, and there are no more of them. -/
inductive Spans (shape : Shape strict) : Option EnvRef → List Layer → Prop
  | nil : Spans shape none []
  | cons {ref : EnvRef} {known : EnvShape} {layer : Layer} {layers : List Layer} :
    shape.env ref = some known →
    known.level = layer.level →
    (strict → ∀ slot ∈ layer.ready, shape.ready ref slot) →
    Spans shape known.outer layers →
    Spans shape (some ref) (layer :: layers)

namespace Spans

variable {before after shape : Shape strict} {ref : Option EnvRef} {layers : List Layer}

theorem known {ref : EnvRef} (spans : Spans shape (some ref) layers) :
    ∃ known, shape.env ref = some known := by
  cases spans with
  | cons found => exact ⟨_, found⟩

theorem grows (spans : Spans before ref layers) (grown : before.Grows after) :
    Spans after ref layers := by
  induction spans with
  | nil => exact .nil
  | cons known level ready _ ih =>
    exact .cons (grown.env _ _ known) level
      (fun isStrict slot member => grown.ready _ _ (ready isStrict slot member)) ih

theorem serves {target : List Layer} (spans : Spans shape ref layers) (serves : Serves layers target) :
    Spans shape ref target := by
  induction spans generalizing target with
  | nil =>
    cases serves
    exact .nil
  | cons known level ready _ ih =>
    cases serves with
    | cons head tail =>
      exact .cons known (level.trans head.level)
        (fun isStrict slot member => ready isStrict slot (head.ready member)) (ih tail)

theorem lasting (spans : Spans shape ref layers) : Spans shape ref (layers.map Layer.lasting) := by
  induction spans with
  | nil => exact .nil
  | cons known level ready _ ih => exact .cons known level ready ih

end Spans

section Values

variable [Natives] (shape : Shape strict)

/-- What a function runs fits its signature and the environment it was created in. -/
def FuncBody.Known (signature : Signature) : FuncBody → Prop
  | .closure template env =>
    template.signature = signature ∧
      ∃ ctx : Ctx strict, TemplateTyped strict ctx.lasting template ∧
        Spans shape (some env) ctx.layers
  | .native index => strict → Natives.signature? index = some signature
  | .builtin function =>
    strict → signature.results = [] ∧ signature.variadic = false ∧ function.Takes signature.params

def Value.Known : Value → Prop
  | .const _ => True
  | .slice elem ref => shape.slice ref = some elem
  | .map key elem ref => shape.map ref = some (key, elem)
  | .chan elem ref => shape.chan ref = some elem
  | .func function => function.body.Known shape function.signature

def Value.Is (value : Value) (type : Ty) : Prop := value.dynamicType.assignableTo type = true

def Value.Inhabits (value : Value) (type : Ty) : Prop :=
  value.Known shape ∧ (strict → value.Is type)

def Inhabit (values : List Value) (types : List Ty) : Prop :=
  (∀ value ∈ values, value.Known shape) ∧
    (strict → List.Forall₂ Value.Is values types)

/-- A call whose arguments are those that its function takes. -/
structure Invocation.Sound (call : Invocation) : Prop where
  callee : call.callee.Known shape
  args : ∀ value ∈ call.args, value.Known shape
  typed : strict → ∃ (signature : Signature) (targets : List Ty), call.callee.Is signature.toTy ∧
    List.Forall₂ Value.Is call.args targets ∧ signature.Accepts call.spread targets

end Values

section Growth

variable [Natives] {before after : Shape strict}

theorem Value.Known.grows {value : Value} (known : value.Known before)
    (grown : before.Grows after) : value.Known after := by
  rcases value with constant | ⟨elem, ref⟩ | ⟨key, elem, ref⟩ | ⟨elem, ref⟩ | ⟨signature, body⟩
  · exact trivial
  · exact grown.slice _ _ known
  · exact grown.map _ _ known
  · exact grown.chan _ _ known
  · cases body with
    | closure template env =>
      obtain ⟨same, ctx, typed, spans⟩ := known
      exact ⟨same, ctx, typed, spans.grows grown⟩
    | native index => exact known
    | builtin builtin => exact known

theorem Value.Inhabits.grows {value : Value} {type : Ty}
    (inhabits : value.Inhabits before type) (grown : before.Grows after) :
    value.Inhabits after type := ⟨inhabits.1.grows grown, inhabits.2⟩

theorem Inhabit.grows {values : List Value} {types : List Ty}
    (inhabit : Inhabit before values types) (grown : before.Grows after) :
    Inhabit after values types :=
  ⟨fun value member => (inhabit.1 value member).grows grown, inhabit.2⟩

theorem Invocation.Sound.grows {call : Invocation} (sound : call.Sound before)
    (grown : before.Grows after) : call.Sound after :=
  ⟨sound.callee.grows grown, fun value member => (sound.args value member).grows grown,
    sound.typed⟩

end Growth

namespace Value

theorem Is.assign {value : Value} {source target : Ty} (is : value.Is source)
    (assignable : source.assignableTo target = true) : value.Is target :=
  Ty.assignableTo_trans is assignable

theorem Inhabits.assign [Natives] {shape : Shape strict} {value : Value} {source target : Ty}
    (inhabits : value.Inhabits shape source)
    (assignable : source.assignableTo target = true) :
    value.Inhabits shape target :=
  ⟨inhabits.1, fun isStrict => (inhabits.2 isStrict).assign assignable⟩

@[simp] theorem known_const [Natives] {shape : Shape strict} (constant : Const) :
    (Value.const constant).Known shape := trivial

theorem is_any (value : Value) : value.Is .any := Ty.assignableTo_any _

theorem inhabits_const [Natives] {shape : Shape strict} {constant : Const} {type : Ty}
    (is : (Value.const constant).Is type) :
    (Value.const constant).Inhabits shape type := ⟨trivial, fun _ => is⟩

theorem eq_nil {value : Value} (same : value.dynamicType = .nil) : value = .nil := by
  rcases value with constant | ⟨elem, ref⟩ | ⟨key, elem, ref⟩ | ⟨elem, ref⟩ | ⟨signature, body⟩
  · cases constant <;> simp_all [dynamicType, Const.type]
  all_goals simp [dynamicType, Signature.toTy] at same

theorem Is.eq_or_nil {value : Value} {type : Ty} (is : value.Is type) (notAny : type ≠ .any)
    (notChan : ∀ direction elem, type ≠ .chan direction elem) :
    value.dynamicType = type ∨ (value = .nil ∧ type.isNillable = true) := by
  simp only [Is, Ty.assignableTo, Bool.or_eq_true, beq_iff_eq] at is
  rcases is with same | is
  · exact Or.inl same
  · split at is
    · rename_i isNil
      exact Or.inr ⟨eq_nil isNil, is⟩
    · exact absurd rfl notAny
    · exact absurd rfl (notChan _ _)
    · simp at is

theorem eq_const {value : Value} (plain : value.dynamicType.isNillable = false) :
    ∃ constant, value = .const constant ∧ constant.type = value.dynamicType := by
  rcases value with constant | ⟨elem, ref⟩ | ⟨key, elem, ref⟩ | ⟨elem, ref⟩ | ⟨signature, body⟩
  · exact ⟨constant, rfl, rfl⟩
  all_goals simp [dynamicType, Signature.toTy, Ty.isNillable] at plain

theorem Is.plain {value : Value} {type : Ty} (is : value.Is type) (plain : type.isNillable = false) :
    ∃ constant, value = .const constant ∧ constant.type = type := by
  have same : value.dynamicType = type := by
    refine (is.eq_or_nil ?_ ?_).resolve_right (by simp [plain])
    · rintro rfl
      simp [Ty.isNillable] at plain
    · rintro direction elem rfl
      simp [Ty.isNillable] at plain
  obtain ⟨constant, rfl, _⟩ := eq_const (same ▸ plain)
  exact ⟨constant, rfl, same⟩

theorem Is.eq_bool {value : Value} (is : value.Is .bool) : ∃ truth, value = .bool truth := by
  obtain ⟨constant, rfl, same⟩ := is.plain rfl
  cases constant <;> simp_all [Const.type]

theorem Is.eq_int {value : Value} (is : value.Is .int) : ∃ number, value = .int number := by
  obtain ⟨constant, rfl, same⟩ := is.plain rfl
  cases constant <;> simp_all [Const.type]

theorem Is.eq_float {value : Value} (is : value.Is .float) : ∃ number, value = .float number := by
  obtain ⟨constant, rfl, same⟩ := is.plain rfl
  cases constant <;> simp_all [Const.type]

theorem Is.eq_str {value : Value} (is : value.Is .string) : ∃ text, value = .str text := by
  obtain ⟨constant, rfl, same⟩ := is.plain rfl
  cases constant <;> simp_all [Const.type]

theorem Is.eq_slice {value : Value} {elem : Ty} (is : value.Is (.slice elem)) :
    value = .nil ∨ ∃ ref, value = .slice elem ref := by
  rcases is.eq_or_nil (by simp) (by simp) with same | ⟨rfl, _⟩
  · rcases value with constant | ⟨elem, ref⟩ | ⟨key, elem, ref⟩ | ⟨elem, ref⟩ | ⟨signature, body⟩
    · cases constant <;> simp [dynamicType, Const.type] at same
    all_goals simp_all [dynamicType, Signature.toTy]
  · exact Or.inl rfl

theorem Is.eq_map {value : Value} {key elem : Ty} (is : value.Is (.map key elem)) :
    value = .nil ∨ ∃ ref, value = .map key elem ref := by
  rcases is.eq_or_nil (by simp) (by simp) with same | ⟨rfl, _⟩
  · rcases value with constant | ⟨elem, ref⟩ | ⟨key, elem, ref⟩ | ⟨elem, ref⟩ | ⟨signature, body⟩
    · cases constant <;> simp [dynamicType, Const.type] at same
    all_goals simp_all [dynamicType, Signature.toTy]
  · exact Or.inl rfl

theorem Is.eq_func {value : Value} {signature : Signature} (is : value.Is signature.toTy) :
    value = .nil ∨ ∃ body, value = .func ⟨signature, body⟩ := by
  rcases is.eq_or_nil (by simp [Signature.toTy]) (by simp [Signature.toTy]) with same | ⟨rfl, _⟩
  · rcases value with constant | ⟨elem, ref⟩ | ⟨key, elem, ref⟩ | ⟨elem, ref⟩ | ⟨found, body⟩
    · cases constant <;> simp [dynamicType, Const.type, Signature.toTy] at same
    all_goals simp [dynamicType, Signature.toTy] at same
    refine Or.inr ⟨body, ?_⟩
    rcases found with ⟨params, results, variadic⟩
    rcases signature with ⟨params', results', variadic'⟩
    simp_all
  · exact Or.inl rfl

theorem Is.eq_chan {value : Value} {direction : Direction} {elem : Ty}
    (is : value.Is (.chan direction elem)) : value = .nil ∨ ∃ ref, value = .chan elem ref := by
  rcases value with constant | ⟨elem', ref⟩ | ⟨key, elem', ref⟩ | ⟨elem', ref⟩ | ⟨found, body⟩
  · cases constant <;> simp_all [Is, dynamicType, Const.type, Ty.assignableTo]
  · simp [Is, dynamicType, Ty.assignableTo] at is
  · simp [Is, dynamicType, Ty.assignableTo] at is
  · simp only [Is, dynamicType, Ty.assignableTo, Bool.or_eq_true, beq_iff_eq, Ty.chan.injEq] at is
    rcases is with ⟨_, rfl⟩ | rfl
    · exact Or.inr ⟨ref, rfl⟩
    · exact Or.inr ⟨ref, rfl⟩
  · simp [Is, dynamicType, Ty.assignableTo, Signature.toTy] at is

theorem zero_is (type : Ty) : (Value.zero type).Is type := by
  cases type <;> simp [Is, Value.zero, dynamicType, Const.zero, Const.type, Ty.assignableTo,
    Ty.isNillable]

theorem is_of_hasType {value : Value} {type : Ty} (passes : value.hasType type = true) :
    value.Is type := by
  unfold hasType at passes
  split at passes
  · exact value.is_any
  · have isNil : value = .nil := by
      cases value with
      | const constant => cases constant <;> simp_all [isNil]
      | _ => simp [isNil] at passes
    simp [isNil, Is, dynamicType, Const.type, Ty.assignableTo]
  · split at passes
    · simp_all [Is, dynamicType, Ty.assignableTo]
    · simp at passes
  · simp_all [Is, Ty.assignableTo]

end Value

end MiniGo
