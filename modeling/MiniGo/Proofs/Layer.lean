import Mathlib
import MiniGo.CompiledFile
import MiniGo.Value
/-!
What is known at compile time of the environments that a position of a program runs in.

A `Level` describes the slots of one environment by the frame they were allocated in, a `Layer` adds
what has been stored there so far, and `Fits` relates the scope at a position to the layers of the
environments around it.
-/

namespace MiniGo

def Ty.Keyed : Ty → Prop
  | .map key _ => key.isKey = true
  | _ => True

namespace Ty

theorem assignableTo_refl (type : Ty) : type.assignableTo type = true := by
  simp [assignableTo]

theorem assignableTo_any (type : Ty) : type.assignableTo .any = true := by
  cases type <;> simp [assignableTo, isNillable]

theorem assignableTo_trans {first second third : Ty} (left : first.assignableTo second = true)
    (right : second.assignableTo third = true) : first.assignableTo third = true := by
  simp only [assignableTo, Bool.or_eq_true, beq_iff_eq] at left right ⊢
  rcases left with same | left
  · subst same
    exact right
  · rcases right with same | right
    · subst same
      exact Or.inr left
    · split at left
      · split at right
        · simp [isNillable] at left
        · exact Or.inr rfl
        · exact Or.inr rfl
        · simp at right
      · split at right <;> simp_all
      · split at right <;> simp_all
      · simp at left

end Ty

def Symbol.Sound : Symbol → Prop
  | .const value declared => value.type.assignableTo declared = true
  | .type declared => declared.Keyed
  | .var _ | .builtin _ => True

def Slot.Among (slot : Slot) (objects words : List Ty) : Prop :=
  match slot.slotClass with
  | .object => objects[slot.index]? = some slot.type
  | .word => words[slot.index]? = some slot.type

/-- The slots of one environment: their types, the object slots that no name stands for, and slots
that no code stores to that is typed with the level. -/
structure Level where
  frame : Frame
  objects : List Ty
  words : List Ty
  hidden : List Nat
  sealed : List Slot := []
  objects_length : objects.length = frame.objects
  words_length : words.length = frame.words
  objects_boxed : ∀ type ∈ objects, type.isScalar = false
  words_scalar : ∀ type ∈ words, type.isScalar = true
  hidden_inside : ∀ index ∈ hidden, index < frame.objects
  sealed_among : ∀ slot ∈ sealed, slot.Among objects words := by simp
  named : ∀ name slot, (name, Symbol.var slot) ∈ frame.symbols →
    (slot.Among objects words ∧ slot ∉ sealed) ∧
      (slot.slotClass = .object → slot.index ∉ hidden)
  sound : ∀ entry ∈ frame.symbols, entry.2.Sound

namespace Level

def Has (level : Level) (slot : Slot) : Prop :=
  slot.Among level.objects level.words ∧ slot ∉ level.sealed

def Shared (level : Level) (slot : Slot) : Prop :=
  level.Has slot ∧ (slot.slotClass = .object → slot.index ∉ level.hidden)

def Parks (level : Level) (slot : Slot) : Prop :=
  level.Has slot ∧ slot.slotClass = .object ∧ slot.type = .any ∧ slot.index ∈ level.hidden

def Guards (level : Level) (slot : Slot) : Prop :=
  (slot.slotClass = .object ∧ slot.index ∈ level.hidden) ∨ slot ∈ level.sealed

/-- The same slots at a later time, when more of them may be allocated. -/
structure Grows (before after : Level) : Prop where
  owned : after.frame.owned = before.frame.owned
  symbols : before.frame.symbols <:+ after.frame.symbols
  objects : before.objects <+: after.objects
  words : before.words <+: after.words
  hidden : before.hidden ⊆ after.hidden
  sealed : before.sealed ⊆ after.sealed
  has : ∀ {slot : Slot}, before.Has slot → after.Has slot
  shared : ∀ slot, before.Shared slot → after.Shared slot

theorem Grows.refl (level : Level) : level.Grows level :=
  ⟨rfl, List.suffix_refl _, List.prefix_refl _, List.prefix_refl _, fun _ member => member,
    fun _ member => member, fun has => has, fun _ shared => shared⟩

theorem Grows.trans {first second third : Level} (left : first.Grows second)
    (right : second.Grows third) : first.Grows third :=
  ⟨right.owned.trans left.owned, left.symbols.trans right.symbols,
    left.objects.trans right.objects, left.words.trans right.words,
    fun _ member => right.hidden (left.hidden member),
    fun _ member => right.sealed (left.sealed member),
    fun has => right.has (left.has has),
    fun slot shared => right.shared slot (left.shared slot shared)⟩

theorem Grows.parks {before after : Level} (grows : before.Grows after) {slot : Slot}
    (parks : before.Parks slot) : after.Parks slot :=
  ⟨grows.has parks.1, parks.2.1, parks.2.2.1, grows.hidden parks.2.2.2⟩

structure Covers (level : Level) (frame : Frame) : Prop where
  owned : frame.owned = level.frame.owned
  symbols : frame.symbols <:+ level.frame.symbols
  objects : frame.objects ≤ level.frame.objects
  words : frame.words ≤ level.frame.words

theorem Grows.covers {before after : Level} (grows : before.Grows after) :
    after.Covers before.frame := by
  refine ⟨grows.owned.symm, grows.symbols, ?_, ?_⟩
  · rw [← before.objects_length, ← after.objects_length]
    exact grows.objects.length_le
  · rw [← before.words_length, ← after.words_length]
    exact grows.words.length_le

theorem Covers.shared {level : Level} {frame : Frame} (covers : level.Covers frame) {name : String}
    {slot : Slot} (member : (name, Symbol.var slot) ∈ frame.symbols) : level.Shared slot :=
  level.named name slot (covers.symbols.subset member)

theorem Covers.sound {level : Level} {frame : Frame} (covers : level.Covers frame)
    {entry : String × Symbol} (member : entry ∈ frame.symbols) : entry.2.Sound :=
  level.sound entry (covers.symbols.subset member)

end Level

/-- An environment at one position of a program: its slots, the named slots that are known to hold a
value of their type, what is known of the values that are parked for a clause, and the values that
sealed slots hold. -/
structure Layer where
  level : Level
  ready : List Slot := []
  parked : List (Slot × Ty) := []
  held : List (Slot × Value) := []

namespace Layer

def lasting (layer : Layer) : Layer := { layer with parked := [], held := [] }

@[simp] theorem lasting_level (layer : Layer) : layer.lasting.level = layer.level := rfl

@[simp] theorem lasting_ready (layer : Layer) : layer.lasting.ready = layer.ready := rfl

/-- Everything that is known of the second is known of the first. -/
structure Serves (source target : Layer) : Prop where
  level : source.level = target.level
  ready : target.ready ⊆ source.ready
  parked : target.parked ⊆ source.parked
  held : target.held ⊆ source.held

theorem Serves.refl (layer : Layer) : layer.Serves layer :=
  ⟨rfl, fun _ member => member, fun _ member => member, fun _ member => member⟩

theorem Serves.trans {first second third : Layer} (left : first.Serves second)
    (right : second.Serves third) : first.Serves third :=
  ⟨left.level.trans right.level, fun _ member => left.ready (right.ready member),
    fun _ member => left.parked (right.parked member),
    fun _ member => left.held (right.held member)⟩

end Layer

def Serves (source target : List Layer) : Prop := List.Forall₂ Layer.Serves source target

namespace Serves

theorem refl (layers : List Layer) : Serves layers layers := by
  induction layers with
  | nil => exact .nil
  | cons layer layers ih => exact .cons (.refl layer) ih

theorem trans {first second third : List Layer} (left : Serves first second)
    (right : Serves second third) : Serves first third := by
  induction left generalizing third with
  | nil => exact right
  | cons head _ ih =>
    cases right with
    | cons head' tail' => exact .cons (head.trans head') (ih tail')

theorem drop {source target : List Layer} (serves : Serves source target) (count : Nat) :
    Serves (source.drop count) (target.drop count) := by
  induction serves generalizing count with
  | nil => simpa using Serves.refl []
  | cons head tail ih =>
    cases count with
    | zero => exact .cons head tail
    | succ count => exact ih count

theorem length_eq {source target : List Layer} (serves : Serves source target) :
    source.length = target.length := List.Forall₂.length_eq serves

end Serves

/-- The layers are those of the frames of a scope that own an environment. When `strict` holds, the
string variables in scope have been stored; the slots of all other types start with a value of
theirs. -/
inductive Fits (strict : Prop) : Scope → List Layer → Prop
  | nil : Fits strict [] []
  | owned {frame : Frame} {scope : Scope} {layer : Layer} {layers : List Layer} :
    frame.owned = true →
    layer.level.Covers frame →
    (strict → ∀ name slot, (name, Symbol.var slot) ∈ frame.symbols → slot.type = .string →
      slot ∈ layer.ready) →
    Fits strict scope layers →
    Fits strict (frame :: scope) (layer :: layers)
  | bare {frame : Frame} {scope : Scope} {layers : List Layer} :
    frame.owned = false →
    (∀ name slot, (name, Symbol.var slot) ∉ frame.symbols) →
    (∀ entry ∈ frame.symbols, entry.2.Sound) →
    Fits strict scope layers →
    Fits strict (frame :: scope) layers

theorem Frame.symbol_mem {frame : Frame} {name : String} {symbol : Symbol}
    (found : frame.symbol? name = some symbol) : (name, symbol) ∈ frame.symbols := by
  unfold Frame.symbol? at found
  obtain ⟨before, after, same, _⟩ := List.lookup_eq_some_iff.mp found
  simp [same]

def Scope.Sound (scope : Scope) : Prop := ∀ frame ∈ scope, ∀ entry ∈ frame.symbols, entry.2.Sound

theorem Scope.Sound.declared {scope : Scope} (sound : scope.Sound) {name : String} {hops : Nat}
    {symbol : Symbol} (found : scope.declared? name = some (hops, symbol)) : symbol.Sound := by
  induction scope generalizing hops with
  | nil => simp [Scope.declared?] at found
  | cons frame scope ih =>
    simp only [Scope.declared?] at found
    split at found
    · rename_i symbol declared
      simp only [Option.some.injEq, Prod.mk.injEq] at found
      obtain ⟨rfl, rfl⟩ := found
      exact sound frame (by simp) _ (Frame.symbol_mem declared)
    · simp only [Option.map_eq_some_iff, Prod.exists, Prod.mk.injEq] at found
      obtain ⟨inner, symbol, declared, rfl, rfl⟩ := found
      exact ih (fun frame member => sound frame (by simp [member])) declared

namespace Fits

variable {strict : Prop} {scope : Scope} {layers : List Layer}

/-- The innermost declaration of a variable is in the environment as many hops outward as the scope
says. -/
theorem declared_var (fits : Fits strict scope layers) {name : String} {hops : Nat} {slot : Slot}
    (found : scope.declared? name = some (hops, .var slot)) :
    ∃ layer, layers[hops]? = some layer ∧ layer.level.Shared slot ∧
      (strict → slot.type = .string → slot ∈ layer.ready) := by
  induction fits generalizing hops with
  | nil => simp [Scope.declared?] at found
  | @owned frame scope layer layers owned covers ready rest ih =>
    simp only [Scope.declared?] at found
    split at found
    · rename_i symbol declared
      simp only [Option.some.injEq, Prod.mk.injEq] at found
      obtain ⟨rfl, rfl⟩ := found
      have member := Frame.symbol_mem declared
      exact ⟨layer, rfl, covers.shared member, fun strict => ready strict name slot member⟩
    · simp only [Option.map_eq_some_iff, Prod.exists, Prod.mk.injEq, Frame.cost, owned,
        if_true] at found
      obtain ⟨inner, symbol, declared, rfl, rfl⟩ := found
      obtain ⟨found, inside, known⟩ := ih declared
      refine ⟨found, ?_, known⟩
      simpa [Nat.add_comm] using inside
  | @bare frame scope layers bare none sound rest ih =>
    simp only [Scope.declared?] at found
    split at found
    · rename_i symbol declared
      simp only [Option.some.injEq, Prod.mk.injEq] at found
      obtain ⟨rfl, rfl⟩ := found
      exact absurd (Frame.symbol_mem declared) (none name slot)
    · simp only [Option.map_eq_some_iff, Prod.exists, Prod.mk.injEq, Frame.cost, bare] at found
      obtain ⟨inner, symbol, declared, rfl, rfl⟩ := found
      simpa using ih declared

theorem sound (fits : Fits strict scope layers) : scope.Sound := by
  induction fits with
  | nil => simp [Scope.Sound]
  | owned _ covers _ _ ih =>
    exact List.forall_mem_cons.mpr ⟨fun entry member => covers.sound member, ih⟩
  | bare _ _ sound _ ih => exact List.forall_mem_cons.mpr ⟨sound, ih⟩

end Fits

theorem universe_sound {name : String} {symbol : Symbol} (found : universe? name = some symbol) :
    symbol.Sound ∧ ∀ slot, symbol ≠ .var slot := by
  unfold universe? at found
  split at found <;> simp only [Option.some.injEq, Option.map_eq_some_iff] at found
  all_goals first
    | (subst found; exact ⟨by simp [Symbol.Sound, Const.type, Ty.assignableTo, Ty.Keyed], by simp⟩)
    | (obtain ⟨builtin, -, rfl⟩ := found; exact ⟨trivial, by simp⟩)

theorem Scope.Sound.lookup {scope : Scope} (sound : scope.Sound) {name : String} {hops : Nat}
    {symbol : Symbol} (found : scope.lookup name = some (hops, symbol)) : symbol.Sound := by
  unfold Scope.lookup at found
  rcases Option.or_eq_some_iff.mp found with declared | ⟨_, predeclared⟩
  · exact sound.declared declared
  · simp only [Option.map_eq_some_iff, Prod.mk.injEq] at predeclared
    obtain ⟨symbol, known, rfl, rfl⟩ := predeclared
    exact (universe_sound known).1

namespace Fits

variable {strict : Prop} {scope : Scope} {layers : List Layer}

theorem lookup_var (fits : Fits strict scope layers) {name : String} {hops : Nat} {slot : Slot}
    (found : scope.lookup name = some (hops, .var slot)) :
    ∃ layer, layers[hops]? = some layer ∧ layer.level.Shared slot ∧
      (strict → slot.type = .string → slot ∈ layer.ready) := by
  unfold Scope.lookup at found
  rcases Option.or_eq_some_iff.mp found with declared | ⟨_, predeclared⟩
  · exact fits.declared_var declared
  · simp only [Option.map_eq_some_iff, Prod.mk.injEq] at predeclared
    obtain ⟨symbol, known, rfl, rfl⟩ := predeclared
    exact absurd rfl ((universe_sound known).2 slot)

theorem serves {given : List Layer} (fits : Fits strict scope layers) (served : Serves given layers) :
    Fits strict scope given := by
  induction fits generalizing given with
  | nil =>
    cases served
    exact .nil
  | owned owned covers ready _ ih =>
    cases served with
    | cons head tail =>
      exact .owned owned (head.level ▸ covers)
        (fun isStrict name slot member string => head.ready (ready isStrict name slot member string))
        (ih tail)
  | bare bare none sound _ ih => exact .bare bare none sound (ih served)

theorem lasting (fits : Fits strict scope layers) :
    Fits strict scope (layers.map Layer.lasting) := by
  induction fits with
  | nil => exact .nil
  | owned owned covers ready _ ih => exact .owned owned covers ready ih
  | bare bare none sound _ ih => exact .bare bare none sound ih

end Fits

/-- A position of a program as the compiler sees it: the scope, and the environments around it. -/
structure Ctx (strict : Prop) where
  scope : Scope
  layers : List Layer
  fits : Fits strict scope layers

namespace Ctx

variable {strict : Prop}

theorem sound (ctx : Ctx strict) : ctx.scope.Sound := ctx.fits.sound

def serving (ctx : Ctx strict) {layers : List Layer} (served : Serves layers ctx.layers) :
    Ctx strict :=
  ⟨ctx.scope, layers, ctx.fits.serves served⟩

def lasting (ctx : Ctx strict) : Ctx strict :=
  ⟨ctx.scope, ctx.layers.map Layer.lasting, ctx.fits.lasting⟩

end Ctx

end MiniGo
