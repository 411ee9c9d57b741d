import MiniGo.Proofs.Config
/-!
What the operations on a world do to a sound state. Each operation has one statement: the state it
leads to is sound again, and how it differs from the one before.
-/

namespace MiniGo

variable {strict : Prop}

namespace World

/-- The worlds differ in the counts of references and in the pools only. -/
structure Alike (before after : World) : Prop where
  heap : after.heap = before.heap
  exchange : after.exchange = before.exchange
  pending : after.pending = before.pending
  blocks : after.entered = before.entered ∧ after.exited = before.exited
  threads : after.threads.size = before.threads.size
  left : ∀ ref, (after.thread ref).left = (before.thread ref).left
  size : after.envs.size = before.envs.size
  envs : ∀ ref env, before.env? ref = some env →
    ∃ holders, after.env? ref = some { env with holders }

namespace Alike

theorem refl (world : World) : world.Alike world :=
  ⟨rfl, rfl, rfl, ⟨rfl, rfl⟩, rfl, fun _ => rfl, rfl, fun _ env found => ⟨env.holders, found⟩⟩

theorem trans {first second third : World} (left : first.Alike second)
    (right : second.Alike third) : first.Alike third where
  heap := right.heap.trans left.heap
  exchange := right.exchange.trans left.exchange
  pending := right.pending.trans left.pending
  blocks := ⟨right.blocks.1.trans left.blocks.1, right.blocks.2.trans left.blocks.2⟩
  threads := right.threads.trans left.threads
  left ref := (right.left ref).trans (left.left ref)
  size := right.size.trans left.size
  envs ref env found := by
    obtain ⟨_, middle⟩ := left.envs ref env found
    obtain ⟨holders, present⟩ := right.envs ref _ middle
    exact ⟨holders, present⟩

end Alike

theorem env?_updateEnv (world : World) (ref other : EnvRef) (change : Env → Env) :
    (world.updateEnv ref change).env? other =
      if other = ref then (world.env? other).map change else world.env? other := by
  have sameIndex : ref.index = other.index ↔ other = ref := by
    constructor
    · intro same
      cases ref
      cases other
      simp_all
    · rintro rfl
      rfl
  simp only [updateEnv, env?, Array.getElem?_modify, sameIndex]

theorem thread_updateThread (world : World) (ref other : ThreadRef) (change : Thread → Thread) :
    (world.updateThread ref change).thread other =
      if other = ref ∧ ref.index < world.threads.size then change (world.thread other)
      else world.thread other := by
  have sameIndex : ref.index = other.index ↔ other = ref := by
    constructor
    · intro same
      cases ref
      cases other
      simp_all
    · rintro rfl
      rfl
  simp only [updateThread, thread, Array.getD_eq_getD_getElem?, Array.getElem?_modify, sameIndex]
  by_cases same : other = ref
  · subst other
    by_cases inside : ref.index < world.threads.size
    · simp [inside]
    · simp [inside]
  · simp [same]

theorem alike_updateEnv (world : World) (ref : EnvRef) (count : Nat → Nat) :
    world.Alike (world.updateEnv ref fun env => { env with holders := count env.holders }) where
  heap := rfl
  exchange := rfl
  pending := rfl
  blocks := ⟨rfl, rfl⟩
  threads := rfl
  left _ := rfl
  size := by simp [updateEnv]
  envs other env found := by
    rw [env?_updateEnv, found]
    by_cases same : other = ref
    · exact ⟨count env.holders, by simp [same]⟩
    · exact ⟨env.holders, by simp [same]⟩

theorem alike_updateThread (world : World) (ref : ThreadRef) {change : Thread → Thread}
    (left : ∀ thread, (change thread).left = thread.left) :
    world.Alike (world.updateThread ref change) where
  heap := rfl
  exchange := rfl
  pending := rfl
  blocks := ⟨rfl, rfl⟩
  threads := by simp [updateThread]
  left other := by
    rw [thread_updateThread]
    split
    · exact left _
    · rfl
  size := rfl
  envs _ env found := ⟨env.holders, found⟩

theorem alike_retain (world : World) (ref : EnvRef) : world.Alike (world.retain ref) :=
  alike_updateEnv world ref (· + 1)

theorem alike_dropWithin (world : World) (ref : EnvRef) (depth : Nat) :
    world.Alike (dropWithin ref world depth) := by
  induction depth generalizing world ref with
  | zero => exact .refl world
  | succ depth ih =>
    unfold dropWithin
    split
    · exact .refl world
    · rename_i env found
      have given := alike_updateEnv world ref (· - 1)
      split
      · rename_i outer isOuter
        by_cases last : env.holders = 1
        · simp only [last, if_true]
          exact given.trans (ih _ outer)
        · simp only [last, if_false]
          exact given
      · exact given

theorem alike_drop (world : World) (ref : EnvRef) : world.Alike (world.drop ref) :=
  alike_dropWithin world ref _

theorem alike_recycle (world : World) (thread : ThreadRef) (ref : EnvRef) :
    world.Alike (world.recycle thread ref) := by
  unfold recycle
  split
  · exact .refl world
  · refine Alike.trans ?_ (alike_drop _ ref)
    split
    · exact alike_updateThread world thread fun _ => rfl
    · exact .refl world

def Leaves (before after : World) : Prop :=
  ∃ refs, Alike { before with exited := refs ++ before.exited } after

theorem Leaves.refl (world : World) : world.Leaves world := ⟨[], .refl world⟩

theorem Alike.leaves {first second : World} (alike : first.Alike second)
    (refs : List EnvRef) : Alike { first with exited := refs ++ first.exited }
      { second with exited := refs ++ second.exited } :=
  { alike with blocks := ⟨alike.blocks.1, congrArg (refs ++ ·) alike.blocks.2⟩ }

theorem Leaves.trans {first second third : World} (left : first.Leaves second)
    (right : second.Leaves third) : first.Leaves third := by
  obtain ⟨earlier, begin⟩ := left
  obtain ⟨later, finish⟩ := right
  refine ⟨later ++ earlier, ?_⟩
  have middle := begin.leaves later
  simp only [← List.append_assoc] at middle
  exact middle.trans finish

theorem alike_release (world : World) (thread : ThreadRef) (ref : EnvRef) :
    Alike { world with exited := ref :: world.exited } (world.release thread ref) :=
  alike_recycle _ thread ref

theorem alike_releaseTo (world : World) (ref outer : EnvRef) :
    Alike { world with exited := ref :: world.exited } (world.releaseTo ref outer) :=
  ((alike_retain world outer).leaves [ref]).trans (alike_release _ _ ref)

theorem leaves_leave (world : World) (ref : EnvRef) (hops : Nat) :
    world.Leaves (world.leave ref hops).2 := by
  induction hops generalizing world ref with
  | zero => exact .refl world
  | succ hops ih =>
    unfold leave
    split
    · exact .refl world
    · rename_i outer _
      exact .trans ⟨[ref], alike_releaseTo world ref outer⟩ (ih _ outer)

theorem leaves_unwindWithin (world : World) (root ref : EnvRef) (depth : Nat) :
    world.Leaves (unwindWithin root ref world depth).2 := by
  induction depth generalizing world ref with
  | zero => exact .refl world
  | succ depth ih =>
    unfold unwindWithin
    split
    · exact .refl world
    · split
      · exact .refl world
      · rename_i outer _
        exact .trans ⟨[ref], alike_releaseTo world ref outer⟩ (ih _ outer)

theorem alike_write (world : World) (text : String) : world.Alike (world.write text) := by
  unfold write
  split <;>
    exact ⟨rfl, rfl, rfl, ⟨rfl, rfl⟩, rfl, fun _ => rfl, rfl, fun _ env found => ⟨env.holders, found⟩⟩

namespace Alike

variable {before after : World}

theorem ip {ref : EnvRef} {env : Env} (alike : before.Alike after)
    (found : before.env? ref = some env) : after.ip ref = before.ip ref := by
  obtain ⟨holders, present⟩ := alike.envs ref env found
  simp [World.ip, found, present]

theorem load {ref : EnvRef} {env : Env} (alike : before.Alike after)
    (found : before.env? ref = some env) (slot : Slot) :
    after.load ref slot = before.load ref slot := by
  obtain ⟨holders, present⟩ := alike.envs ref env found
  simp [World.load, found, present]

end Alike

end World

namespace Config

variable [Natives]

/-- The same shape for a world that differs in counts of references and pools only. -/
def alike (config : Config strict) {world : World} (same : config.world.Alike world) :
    Config strict where
  shape := config.shape
  world := world
  sound := by
    refine config.sound.carry (.refl _) same.heap same.exchange same.pending same.blocks same.threads
      same.left ⟨rfl, rfl, rfl, rfl, rfl, rfl⟩ ?_ config.sound.ready
    intro ref known found
    obtain ⟨inside, env, present, sound⟩ := config.sound.envs ref known found
    obtain ⟨holders, still⟩ := same.envs ref env present
    exact ⟨inside, _, still, { sound with }⟩

theorem calm_alike (config : Config strict) {world : World} (same : config.world.Alike world) :
    config.Calm (config.alike same) where
  grows := .refl _
  envs := Nat.le_of_eq same.size.symm
  owner := rfl
  isTask := rfl
  kept ref known found := by
    obtain ⟨_, env, present, _⟩ := config.sound.envs ref known found
    exact ⟨same.ip present, fun slot _ => same.load present slot⟩
  left := same.left
  blocks := same.blocks
  pending := same.pending

end Config

namespace Slots

theorem object_store (slots : Slots) (slot : Slot) (value : Value) (index : Nat) :
    (slots.store slot value).object index =
      if slot.slotClass = .object ∧ slot.index = index ∧ index < slots.objects.size then value
      else slots.object index := by
  unfold store
  split <;> rename_i slotClass
  · simp only [object, setObject, Array.getD_eq_getD_getElem?, Array.getElem?_setIfInBounds, slotClass,
      true_and]
    by_cases same : slot.index = index
    · subst same
      by_cases inside : slot.index < slots.objects.size <;> simp [inside]
    · simp [same]
  · simp [object, setWord, slotClass]

theorem word_store (slots : Slots) (slot : Slot) (value : Value) (index : Nat) :
    (slots.store slot value).word index =
      if slot.slotClass = .word ∧ slot.index = index ∧ index < slots.words.size then value.toBits
      else slots.word index := by
  unfold store
  split <;> rename_i slotClass
  · simp [word, setObject, slotClass]
  · simp only [word, setWord, Array.getD_eq_getD_getElem?, Array.getElem?_setIfInBounds, slotClass,
      true_and]
    by_cases same : slot.index = index
    · subst same
      by_cases inside : slot.index < slots.words.size <;> simp [inside]
    · simp [same]

theorem load_store_of_ne (slots : Slots) {slot other : Slot} (value : Value)
    (differs : ¬(other.slotClass = slot.slotClass ∧ other.index = slot.index)) :
    (slots.store slot value).load other = slots.load other := by
  unfold load
  split <;> rename_i slotClass
  · rw [object_store, if_neg]
    rintro ⟨isObject, same, _⟩
    exact differs ⟨slotClass.trans isObject.symm, same.symm⟩
  · rw [word_store, if_neg]
    rintro ⟨isWord, same, _⟩
    exact differs ⟨slotClass.trans isWord.symm, same.symm⟩

@[simp] theorem size_objects_store (slots : Slots) (slot : Slot) (value : Value) :
    (slots.store slot value).objects.size = slots.objects.size := by
  unfold store
  split <;> simp [setObject, setWord]

@[simp] theorem size_words_store (slots : Slots) (slot : Slot) (value : Value) :
    (slots.store slot value).words.size = slots.words.size := by
  unfold store
  split <;> simp [setObject, setWord]

end Slots

theorem Slot.Among.unique {slot other : Slot} {objects words : List Ty}
    (first : slot.Among objects words) (second : other.Among objects words)
    (slotClass : other.slotClass = slot.slotClass) (index : other.index = slot.index) :
    other = slot := by
  rcases slot with ⟨firstClass, firstIndex, firstType⟩
  rcases other with ⟨secondClass, secondIndex, secondType⟩
  simp only at slotClass index
  subst slotClass index
  cases secondClass <;> simp_all [Slot.Among]

theorem Value.ofBits_is (bits : UInt64) {type : Ty} (scalar : type.isScalar = true) :
    (Value.ofBits bits type).Is type := by
  cases type <;> simp_all [Ty.isScalar, Value.ofBits, Const.ofBits, Value.Is, Value.dynamicType,
    Const.type, Ty.assignableTo]

namespace Level

theorem Has.ne_sealed {level : Level} {slot other : Slot} (has : level.Has slot)
    (isSealed : other ∈ level.sealed) :
    ¬(other.slotClass = slot.slotClass ∧ other.index = slot.index) := by
  rintro ⟨slotClass, index⟩
  exact has.2 (has.1.unique (level.sealed_among other isSealed) slotClass index ▸ isSealed)

theorem Has.object {level : Level} {slot : Slot} (has : level.Has slot)
    (object : slot.slotClass = .object) : level.objects[slot.index]? = some slot.type := by
  simpa [Slot.Among, object] using has.1

theorem Has.word {level : Level} {slot : Slot} (has : level.Has slot)
    (word : slot.slotClass = .word) : level.words[slot.index]? = some slot.type := by
  simpa [Slot.Among, word] using has.1

theorem Has.object_lt {level : Level} {slot : Slot} (has : level.Has slot)
    (object : slot.slotClass = .object) : slot.index < level.frame.objects := by
  rw [← level.objects_length]
  exact (List.getElem?_eq_some_iff.mp (has.object object)).1

theorem Has.word_lt {level : Level} {slot : Slot} (has : level.Has slot)
    (word : slot.slotClass = .word) : slot.index < level.frame.words := by
  rw [← level.words_length]
  exact (List.getElem?_eq_some_iff.mp (has.word word)).1

theorem Has.scalar {level : Level} {slot : Slot} (has : level.Has slot)
    (word : slot.slotClass = .word) : slot.type.isScalar = true :=
  level.words_scalar _ (List.mem_of_getElem? (has.word word))

theorem Has.boxed {level : Level} {slot : Slot} (has : level.Has slot)
    (object : slot.slotClass = .object) : slot.type.isScalar = false :=
  level.objects_boxed _ (List.mem_of_getElem? (has.object object))

end Level

namespace Shape

def withReady (shape : Shape strict) (ref : EnvRef) (slot : Slot) : Shape strict :=
  { shape with ready := fun other target => (other = ref ∧ target = slot) ∨ shape.ready other target }

theorem grows_withReady (shape : Shape strict) (ref : EnvRef) (slot : Slot) :
    shape.Grows (shape.withReady ref slot) :=
  { Grows.refl shape with ready := fun _ _ isReady => Or.inr isReady }

def withEnv (shape : Shape strict) (ref : EnvRef) (known : EnvShape) : Shape strict :=
  { shape with env := fun other => if other = ref then some known else shape.env other }

theorem grows_withEnv (shape : Shape strict) {ref : EnvRef} (known : EnvShape)
    (fresh : shape.env ref = none) : shape.Grows (shape.withEnv ref known) :=
  { Grows.refl shape with
    env := by
      intro other found present
      simp only [withEnv]
      split
      · rename_i same
        simp [same, fresh] at present
      · exact present }

end Shape

namespace Env.Sound

variable [Natives] {shape : Shape strict} {ref : EnvRef} {known : EnvShape} {env : Env}

theorem load_stored (sound : env.Sound shape ref known) {slot : Slot} {value : Value}
    (has : known.level.Has slot) (is : value.Is slot.type) :
    ((env.slots.store slot value).load slot).Is slot.type := by
  unfold Slots.load
  split <;> rename_i slotClass
  · rw [Slots.object_store, if_pos ⟨slotClass, rfl, sound.objects ▸ has.object_lt slotClass⟩]
    exact is
  · exact Value.ofBits_is _ (has.scalar slotClass)

theorem load_rests (sound : env.Sound shape ref known) {slot : Slot} (has : known.level.Has slot) :
    (env.slots.load slot).Rests shape slot.type := by
  unfold Slots.load
  split <;> rename_i slotClass
  · refine sound.values _ _ (has.object slotClass) ?_
    rw [← slotClass]
    exact has.2
  · exact ⟨trivial, fun _ => Or.inl (Value.ofBits_is _ (has.scalar slotClass))⟩

theorem store (sound : env.Sound shape ref known) {slot : Slot} {value : Value}
    (has : known.level.Has slot) (inhabits : value.Inhabits shape slot.type) :
    ({ env with slots := env.slots.store slot value } : Env).Sound (shape.withReady ref slot) ref
      known := by
  have grown := shape.grows_withReady ref slot
  refine { sound with objects := ?_, words := ?_, values := ?_, ready := ?_ }
  · simpa using sound.objects
  · simpa using sound.words
  · intro index type found unsealed
    dsimp only
    rw [Slots.object_store]
    split
    · rename_i here
      obtain rfl : slot.type = type := by
        have same := has.object here.1
        rw [here.2.1] at same
        exact Option.some.inj (same.symm.trans found)
      exact inhabits.rests.grows grown
    · exact (sound.values index type found unsealed).grows grown
  · rintro target (⟨_, rfl⟩ | isReady)
    · exact ⟨has, fun isStrict => sound.load_stored has (inhabits.2 isStrict)⟩
    · obtain ⟨targetHas, is⟩ := sound.ready target isReady
      refine ⟨targetHas, fun isStrict => ?_⟩
      by_cases same : target.slotClass = slot.slotClass ∧ target.index = slot.index
      · obtain rfl := has.1.unique targetHas.1 same.1 same.2
        exact sound.load_stored has (inhabits.2 isStrict)
      · dsimp only
        rw [Slots.load_store_of_ne _ _ same]
        exact is isStrict

theorem storeSealed (sound : env.Sound shape ref known) {slot : Slot} {value : Value}
    (isSealed : slot ∈ known.level.sealed) :
    ({ env with slots := env.slots.store slot value } : Env).Sound shape ref known := by
  refine { sound with objects := ?_, words := ?_, values := ?_, ready := ?_ }
  · simpa using sound.objects
  · simpa using sound.words
  · intro index type found unsealed
    dsimp only
    rw [Slots.object_store, if_neg]
    · exact sound.values index type found unsealed
    · rintro ⟨object, rfl, -⟩
      have among := known.level.sealed_among slot isSealed
      simp only [Slot.Among, object] at among
      obtain rfl := Option.some.inj (among.symm.trans found)
      exact unsealed (object ▸ isSealed)
  · intro target isReady
    obtain ⟨has, is⟩ := sound.ready target isReady
    refine ⟨has, fun isStrict => ?_⟩
    dsimp only
    rw [Slots.load_store_of_ne _ _ fun same =>
      has.ne_sealed isSealed ⟨same.1.symm, same.2.symm⟩]
    exact is isStrict

end Env.Sound

namespace World

theorem load_store_ne (world : World) {ref other : EnvRef} {slot target : Slot} (value : Value)
    (differs : ¬(other = ref ∧ target.slotClass = slot.slotClass ∧ target.index = slot.index)) :
    (world.store ref slot value).load other target = world.load other target := by
  simp only [World.store, World.load, World.env?_updateEnv]
  by_cases same : other = ref
  · subst same
    cases world.env? other with
    | none => simp
    | some env =>
      simp only [if_true, Option.map_some]
      exact Slots.load_store_of_ne _ _ fun both => differs ⟨rfl, both⟩
  · simp [same]

theorem ip_store (world : World) (ref other : EnvRef) (slot : Slot) (value : Value) :
    (world.store ref slot value).ip other = world.ip other := by
  simp only [World.store, World.ip, World.env?_updateEnv]
  by_cases same : other = ref
  · subst same
    cases world.env? other <;> simp
  · simp [same]

end World

namespace Config

variable [Natives]

def store (config : Config strict) {ref : EnvRef} {known : EnvShape} {slot : Slot} {value : Value}
    (found : config.shape.env ref = some known) (has : known.level.Has slot)
    (inhabits : value.Inhabits config.shape slot.type) : Config strict where
  shape := config.shape.withReady ref slot
  world := config.world.store ref slot value
  sound := by
    have grown := config.shape.grows_withReady ref slot
    refine config.sound.carry grown rfl rfl rfl ⟨rfl, rfl⟩ rfl (fun _ => rfl)
      ⟨rfl, rfl, rfl, rfl, rfl, rfl⟩ ?_ ?_
    · intro other otherKnown otherFound
      obtain ⟨inside, env, present, sound⟩ := config.sound.envs other otherKnown otherFound
      refine ⟨inside, ?_⟩
      by_cases same : other = ref
      · subst same
        obtain rfl : otherKnown = known := Option.some.inj (otherFound.symm.trans found)
        refine ⟨{ env with slots := env.slots.store slot value }, ?_, ?_⟩
        · simp [World.store, World.env?_updateEnv, present]
        · exact sound.store has inhabits
      · refine ⟨env, by simp [World.store, World.env?_updateEnv, same, present], ?_⟩
        refine sound.grows grown fun target isReady => ?_
        exact isReady.resolve_left fun both => same both.1
    · rintro other target (⟨rfl, rfl⟩ | isReady)
      · simp [Shape.withReady, found]
      · exact config.sound.ready other target isReady

section Store

variable {config : Config strict} {ref : EnvRef} {known : EnvShape} {slot : Slot} {value : Value}
  {found : config.shape.env ref = some known} {inhabits : value.Inhabits config.shape slot.type}

theorem moves_store {has : known.level.Has slot} :
    config.Moves ref (config.store found has inhabits) where
  grows := config.shape.grows_withReady ref slot
  envs := by simp [store, World.store, World.updateEnv]
  owner := rfl
  isTask := rfl
  kept other otherKnown _ differs :=
    ⟨World.ip_store _ _ _ _ _, fun target _ => World.load_store_ne _ _ fun same => differs same.1⟩
  left _ := rfl
  blocks := ⟨rfl, rfl⟩
  pending := rfl

theorem calm_store (shared : known.level.Shared slot) :
    config.Calm (config.store found shared.1 inhabits) where
  grows := config.shape.grows_withReady ref slot
  envs := by simp [store, World.store, World.updateEnv]
  owner := rfl
  isTask := rfl
  kept other otherKnown otherFound := by
    refine ⟨World.ip_store _ _ _ _ _, fun target guards => World.load_store_ne _ _ ?_⟩
    rintro ⟨rfl, slotClass, index⟩
    obtain rfl : otherKnown = known := Option.some.inj (otherFound.symm.trans found)
    rcases guards with ⟨object, hidden⟩ | isSealed
    · exact shared.2 (slotClass.symm.trans object) (index ▸ hidden)
    · exact shared.1.ne_sealed isSealed ⟨slotClass, index⟩
  left _ := rfl
  blocks := ⟨rfl, rfl⟩
  pending := rfl

end Store

def storeSealed (config : Config strict) {ref : EnvRef} {known : EnvShape} {slot : Slot} (value : Value)
    (found : config.shape.env ref = some known) (isSealed : slot ∈ known.level.sealed) :
    Config strict where
  shape := config.shape
  world := config.world.store ref slot value
  sound := by
    refine config.sound.carry (.refl _) rfl rfl rfl ⟨rfl, rfl⟩ rfl (fun _ => rfl)
      ⟨rfl, rfl, rfl, rfl, rfl, rfl⟩ ?_ config.sound.ready
    intro other otherKnown otherFound
    obtain ⟨inside, env, present, sound⟩ := config.sound.envs other otherKnown otherFound
    refine ⟨inside, ?_⟩
    by_cases same : other = ref
    · subst same
      obtain rfl : otherKnown = known := Option.some.inj (otherFound.symm.trans found)
      refine ⟨{ env with slots := env.slots.store slot value }, ?_, sound.storeSealed isSealed⟩
      simp [World.store, World.env?_updateEnv, present]
    · exact ⟨env, by simp [World.store, World.env?_updateEnv, same, present], sound⟩

theorem moves_storeSealed (config : Config strict) {ref : EnvRef} {known : EnvShape} {slot : Slot}
    (value : Value) (found : config.shape.env ref = some known) (isSealed : slot ∈ known.level.sealed) :
    config.Moves ref (config.storeSealed value found isSealed) where
  grows := .refl _
  envs := by simp [storeSealed, World.store, World.updateEnv]
  owner := rfl
  isTask := rfl
  kept other otherKnown _ differs :=
    ⟨World.ip_store _ _ _ _ _, fun target _ => World.load_store_ne _ _ fun same => differs same.1⟩
  left _ := rfl
  blocks := ⟨rfl, rfl⟩
  pending := rfl

def setIp (config : Config strict) (ref : EnvRef) (ip : Nat) : Config strict where
  shape := config.shape
  world := config.world.setIp ref ip
  sound := by
    refine config.sound.carry (.refl _) rfl rfl rfl ⟨rfl, rfl⟩ rfl (fun _ => rfl)
      ⟨rfl, rfl, rfl, rfl, rfl, rfl⟩ ?_
      config.sound.ready
    intro other known found
    obtain ⟨inside, env, present, sound⟩ := config.sound.envs other known found
    refine ⟨inside, ?_⟩
    by_cases same : other = ref
    · subst same
      exact ⟨{ env with ip }, by simp [World.setIp, World.env?_updateEnv, present], { sound with }⟩
    · exact ⟨env, by simp [World.setIp, World.env?_updateEnv, same, present], sound⟩

theorem moves_setIp (config : Config strict) (ref : EnvRef) (ip : Nat) :
    config.Moves ref (config.setIp ref ip) where
  grows := .refl _
  envs := by simp [setIp, World.setIp, World.updateEnv]
  owner := rfl
  isTask := rfl
  kept other known _ differs := by
    simp [Kept, setIp, World.setIp, World.ip, World.load, World.env?_updateEnv, differs]
  left _ := rfl
  blocks := ⟨rfl, rfl⟩
  pending := rfl

end Config

namespace World

theorem env?_push (world : World) (env : Env) (ref : EnvRef) :
    ({ world with envs := world.envs.push env } : World).env? ref =
      if ref = ⟨world.envs.size⟩ then some env else world.env? ref := by
  rcases ref with ⟨index⟩
  simp only [env?, Array.getElem?_push, EnvRef.mk.injEq]

theorem acquire_spec (world : World) (thread : ThreadRef) (outer : Option EnvRef) (program : Program)
    (ip objects words : Nat) :
    ∃ middle, world.Alike middle ∧ world.acquire thread outer program ip objects words =
      (⟨world.envs.size⟩, { middle with
        envs := middle.envs.push ⟨Slots.fresh objects words, ip, program, outer, thread, 1⟩ }) := by
  have taken := @alike_updateThread world thread
    ({ · with pool := (world.thread thread).pool.tail }) fun _ => rfl
  cases outer with
  | none =>
    refine ⟨_, taken, ?_⟩
    simp [acquire, Slots.resize_eq_fresh, updateThread]
  | some outer =>
    have both := taken.trans (alike_retain _ outer)
    refine ⟨_, both, ?_⟩
    simp [acquire, Slots.resize_eq_fresh, ← both.size]

end World

namespace Config

variable [Natives]

theorem env_none_of_size (config : Config strict) (ref : EnvRef)
    (outside : config.world.envs.size ≤ ref.index) : config.shape.env ref = none := by
  cases found : config.shape.env ref with
  | none => rfl
  | some known =>
    obtain ⟨_, env, present, _⟩ := config.sound.envs ref known found
    have inside := (Array.getElem?_eq_some_iff.mp present).1
    omega

theorem fresh_rests (shape : Shape strict) (level : Level) {index : Nat} {type : Ty}
    (found : level.objects[index]? = some type) (objects words : Nat) :
    ((Slots.fresh objects words).object index).Rests shape type := by
  have isNil : (Slots.fresh objects words).object index = .nil := by
    simp only [Slots.fresh, Slots.object, Array.getD_eq_getD_getElem?, Array.getElem?_replicate]
    split <;> rfl
  rw [isNil]
  refine ⟨trivial, fun _ => ?_⟩
  have boxed := level.objects_boxed type (List.mem_of_getElem? found)
  cases type <;> simp_all [Ty.isScalar, Value.Is, Value.dynamicType, Const.type, Ty.assignableTo,
    Ty.isNillable]

def addEnv (config : Config strict) (env : Env) (known : EnvShape)
    (inside : (config.shape.owner known.thread).isSome = true)
    (sound : ∀ shape : Shape strict,
      (∀ slot, ¬shape.ready ⟨config.world.envs.size⟩ slot) →
      env.Sound shape ⟨config.world.envs.size⟩ known) : Config strict where
  shape := config.shape.withEnv ⟨config.world.envs.size⟩ known
  world := { config.world with envs := config.world.envs.push env }
  sound := by
    have fresh := config.env_none_of_size ⟨config.world.envs.size⟩ (Nat.le_refl _)
    have grown := config.shape.grows_withEnv known fresh
    have unready : ∀ slot, ¬config.shape.ready ⟨config.world.envs.size⟩ slot := by
      intro slot isReady
      have isSome := config.sound.ready _ slot isReady
      simp [fresh] at isSome
    refine config.sound.carry grown rfl rfl rfl ⟨rfl, rfl⟩ rfl (fun _ => rfl)
      ⟨rfl, rfl, rfl, rfl, rfl, rfl⟩ ?_ ?_
    · intro ref found present
      simp only [Shape.withEnv] at present
      rw [World.env?_push]
      split at present <;> rename_i isNew
      · subst isNew
        obtain rfl := Option.some.inj present
        exact ⟨inside, env, by simp, sound _ unready⟩
      · obtain ⟨inside, env, present, sound⟩ := config.sound.envs ref found present
        exact ⟨inside, env, by simp [isNew, present], sound.grows grown fun _ isReady => isReady⟩
    · intro ref slot isReady
      have isSome := config.sound.ready ref slot isReady
      simp only [Shape.withEnv]
      split
      · rfl
      · exact isSome

theorem calm_addEnv {config : Config strict} {env : Env} {known : EnvShape} {inside}
    {sound : ∀ shape : Shape strict, (∀ slot, ¬shape.ready ⟨config.world.envs.size⟩ slot) →
      env.Sound shape ⟨config.world.envs.size⟩ known} :
    config.Calm (config.addEnv env known inside sound) where
  grows := config.shape.grows_withEnv known (config.env_none_of_size _ (Nat.le_refl _))
  envs := by simp [addEnv]
  owner := rfl
  isTask := rfl
  kept ref found present := by
    have isOld : ref ≠ ⟨config.world.envs.size⟩ := by
      rintro rfl
      simp [config.env_none_of_size ⟨config.world.envs.size⟩ (Nat.le_refl _)] at present
    simp [Kept, addEnv, World.ip, World.load, World.env?_push, isOld]
  left _ := rfl
  blocks := ⟨rfl, rfl⟩
  pending := rfl

theorem acquire (config : Config strict) {thread : ThreadRef} {outer : Option EnvRef}
    (program : Program) (ip : Nat) (level : Level)
    (inside : (config.shape.owner thread).isSome = true)
    (older : ∀ ref, outer = some ref → ref.index < config.world.envs.size) :
    ∃ after : Config strict,
      config.world.acquire thread outer program ip level.frame.objects level.frame.words =
        (⟨config.world.envs.size⟩, after.world) ∧ config.Calm after ∧
      after.shape.env ⟨config.world.envs.size⟩ = some ⟨level, outer, program, thread⟩ ∧
      after.world.ip ⟨config.world.envs.size⟩ = ip ∧
      after.world.envs.size = config.world.envs.size + 1 := by
  obtain ⟨middle, same, acquired⟩ := config.world.acquire_spec thread outer program ip
    level.frame.objects level.frame.words
  have sound : ∀ shape : Shape strict, (∀ slot, ¬shape.ready ⟨middle.envs.size⟩ slot) →
      (⟨Slots.fresh level.frame.objects level.frame.words, ip, program, outer, thread, 1⟩ : Env).Sound
        shape ⟨middle.envs.size⟩ ⟨level, outer, program, thread⟩ := by
    intro shape unready
    refine ⟨rfl, ?_, rfl, rfl, by simp [Slots.fresh], by simp [Slots.fresh], ?_, ?_⟩
    · intro ref isOuter
      rw [same.size]
      exact older ref isOuter
    · intro index type found _
      exact fresh_rests _ level found _ _
    · intro slot isReady
      exact absurd isReady (unready slot)
  refine ⟨(config.alike same).addEnv _ ⟨level, outer, program, thread⟩ inside sound, acquired,
    (config.calm_alike same).trans calm_addEnv, ?_, ?_, ?_⟩
  · simp [addEnv, Shape.withEnv, alike, same.size]
  · simp [addEnv, World.ip, World.env?_push, alike, same.size]
  · simp [addEnv, alike, same.size]

def withHeap (config : Config strict) (heap : Heap) (shape : Shape strict)
    (grown : config.shape.Grows shape)
    (same : shape.env = config.shape.env ∧ shape.ready = config.shape.ready ∧
      shape.chan = config.shape.chan ∧ shape.claim = config.shape.claim ∧
      shape.owner = config.shape.owner ∧
      shape.isTask = config.shape.isTask)
    (sound : heap.Sound shape) : Config strict where
  shape := shape
  world := { config.world with heap }
  sound := {
    envs := by
      intro ref known found
      obtain ⟨inside, env, present, sound⟩ := config.sound.envs ref known (same.1 ▸ found)
      exact ⟨same.2.2.2.2.1 ▸ inside, env, present,
        sound.grows grown fun slot isReady => same.2.1 ▸ isReady⟩
    ready := fun ref slot isReady => same.1 ▸ config.sound.ready ref slot (same.2.1 ▸ isReady)
    threads := fun ref => same.2.2.2.2.1 ▸ config.sound.threads ref
    tasks := fun ref isTask =>
      same.2.2.2.2.1 ▸ config.sound.tasks ref (same.2.2.2.2.2 ▸ isTask)
    owners := fun ref task owned =>
      same.2.2.2.2.2 ▸ config.sound.owners ref task (same.2.2.2.2.1 ▸ owned)
    blocks := config.sound.blocks.grows grown ⟨rfl, rfl⟩
    heap := sound
    exchange := config.sound.exchange.grows grown same.2.2.1 same.2.2.2.1
    pending := fun spawn member => (config.sound.pending spawn member).grows grown
    deferred := fun ref call found => (config.sound.deferred ref call found).grows grown }

def withExchange (config : Config strict) (exchange : Exchange) (shape : Shape strict)
    (grown : config.shape.Grows shape)
    (same : shape.env = config.shape.env ∧ shape.ready = config.shape.ready ∧
      shape.slice = config.shape.slice ∧ shape.map = config.shape.map ∧
      shape.owner = config.shape.owner ∧
      shape.isTask = config.shape.isTask)
    (sound : exchange.Sound shape) (keys : shape.keys = config.shape.keys := by rfl)
    (lengths : shape.lengths = config.shape.lengths := by rfl) : Config strict where
  shape := shape
  world := { config.world with exchange }
  sound := {
    envs := by
      intro ref known found
      obtain ⟨inside, env, present, sound⟩ := config.sound.envs ref known (same.1 ▸ found)
      exact ⟨same.2.2.2.2.1 ▸ inside, env, present,
        sound.grows grown fun slot isReady => same.2.1 ▸ isReady⟩
    ready := fun ref slot isReady => same.1 ▸ config.sound.ready ref slot (same.2.1 ▸ isReady)
    threads := fun ref => same.2.2.2.2.1 ▸ config.sound.threads ref
    tasks := fun ref isTask =>
      same.2.2.2.2.1 ▸ config.sound.tasks ref (same.2.2.2.2.2 ▸ isTask)
    owners := fun ref task owned =>
      same.2.2.2.2.2 ▸ config.sound.owners ref task (same.2.2.2.2.1 ▸ owned)
    blocks := config.sound.blocks.grows grown ⟨rfl, rfl⟩
    heap := config.sound.heap.grows grown same.2.2.1 same.2.2.2.1 keys lengths
    exchange := sound
    pending := fun spawn member => (config.sound.pending spawn member).grows grown
    deferred := fun ref call found => (config.sound.deferred ref call found).grows grown }

section Contents

variable {config : Config strict} {shape : Shape strict} {grown : config.shape.Grows shape}

theorem calm_withHeap {heap : Heap} {same} {sound : heap.Sound shape} :
    config.Calm (config.withHeap heap shape grown same sound) :=
  ⟨grown, Nat.le_refl _, same.2.2.2.2.1, same.2.2.2.2.2, fun _ _ _ => .refl _ _ _,
    fun _ => rfl, ⟨rfl, rfl⟩, rfl⟩

theorem calm_withExchange {exchange : Exchange} {same} {sound : exchange.Sound shape} {keys} {lengths} :
    config.Calm (config.withExchange exchange shape grown same sound keys lengths) :=
  ⟨grown, Nat.le_refl _, same.2.2.2.2.1, same.2.2.2.2.2, fun _ _ _ => .refl _ _ _,
    fun _ => rfl, ⟨rfl, rfl⟩, rfl⟩

end Contents

def leaves (config : Config strict) (ref : ThreadRef) (change : Thread → Thread)
    (sound : ∀ thread call, (change thread).deferred = some call →
      thread.deferred = some call ∨ call.Sound config.shape) : Config strict where
  shape := config.shape
  world := config.world.updateThread ref change
  sound :=
    { config.sound with
      threads := by simpa [World.updateThread] using config.sound.threads
      blocks := config.sound.blocks.grows (.refl _) ⟨rfl, rfl⟩
      deferred := by
        intro other call found
        rw [World.thread_updateThread] at found
        split at found
        · exact (sound _ call found).elim (config.sound.deferred other call) id
        · exact config.sound.deferred other call found }

section Leaves

variable {config : Config strict} {task ref : ThreadRef} {change : Thread → Thread}
  {sound : ∀ thread call, (change thread).deferred = some call →
    thread.deferred = some call ∨ call.Sound config.shape}

theorem since_leaves {floor : Nat} : config.Since task floor (config.leaves ref change sound) :=
  ⟨⟨.refl _, Nat.le_refl _, fun _ own => own, fun _ _ _ _ _ => .refl _ _ _⟩,
    fun _ _ _ _ => Iff.rfl⟩

theorem advances_leaves (own : config.shape.Owns task ref) :
    config.Advances task (config.leaves ref change sound) := by
  refine ⟨.refl _, Nat.le_refl _, fun _ none => Or.inl none, fun other _ foreign => ⟨id, ?_⟩,
    fun _ _ _ _ => .refl _ _ _, fun _ _ _ _ _ => Iff.rfl, [], by simp [leaves, World.updateThread]⟩
  have differs : other ≠ ref := by
    rintro rfl
    exact foreign own
  simp [leaves, World.thread_updateThread, differs]

theorem thread_leaves (inside : (config.shape.owner ref).isSome = true) :
    (config.leaves ref change sound).world.thread ref = change (config.world.thread ref) := by
  simp [leaves, World.thread_updateThread, (config.sound.threads ref).mp inside]

theorem thread_leaves_ne {other : ThreadRef} (differs : other ≠ ref) :
    (config.leaves ref change sound).world.thread other = config.world.thread other := by
  simp [leaves, World.thread_updateThread, differs]

end Leaves

theorem newThread (config : Config strict) {task : ThreadRef} (quiet : config.Quiet task)
    (thread : Thread) (left : thread.left = (.none, none, none)) :
    ∃ after : Config strict, config.world.newThread thread =
        (⟨config.world.threads.size⟩, after.world) ∧ config.Advances task after ∧
      (∀ floor, config.Since task floor after) ∧ after.Quiet task ∧
      after.shape.owner ⟨config.world.threads.size⟩ = some task ∧
      ¬after.shape.isTask ⟨config.world.threads.size⟩ ∧
      config.shape.owner ⟨config.world.threads.size⟩ = none := by
  set new : ThreadRef := ⟨config.world.threads.size⟩ with isNew
  have fresh : config.shape.owner new = none := by
    have outside := config.sound.threads new
    simpa [isNew] using outside
  have noTask : ¬config.shape.isTask new := by
    intro isTask
    have present := config.sound.tasks new isTask
    simp [fresh] at present
  set shape : Shape strict :=
    { config.shape with
      owner := fun ref => if ref = new then some task else config.shape.owner ref } with isShape
  have grown : config.shape.Grows shape :=
    { Shape.Grows.refl config.shape with
      owner := by
        intro ref owner found
        simp only [isShape]
        split
        · rename_i same
          simp [same, fresh] at found
        · exact found }
  have same : ∀ ref, ((config.world.newThread thread).2.thread ref).left =
      (config.world.thread ref).left := by
    intro ref
    simp only [World.newThread, World.thread, Array.getD_eq_getD_getElem?, Array.getElem?_push]
    split
    · rename_i isNew
      simp [isNew, left]
      rfl
    · rfl
  have present : ∀ ref, (config.shape.owner ref).isSome = true → (shape.owner ref).isSome = true := by
    intro ref isSome
    obtain ⟨owner, isOwner⟩ := Option.isSome_iff_exists.mp isSome
    simp [grown.owner _ _ isOwner]
  have sound : (config.world.newThread thread).2.Sound shape := {
    envs := by
      intro ref known found
      obtain ⟨inside, env, isEnv, sound⟩ := config.sound.envs ref known found
      exact ⟨present _ inside, env, isEnv, sound.grows grown fun _ isReady => isReady⟩
    ready := config.sound.ready
    threads := by
      intro ref
      have old := config.sound.threads ref
      have size : (config.world.newThread thread).2.threads.size = config.world.threads.size + 1 := by
        simp [World.newThread]
      rw [size]
      simp only [isShape]
      split
      · rename_i same
        simp [same, isNew]
      · rename_i differs
        have unequal : ref.index ≠ config.world.threads.size := by
          intro equal
          exact differs (by cases ref; simp_all)
        rw [old]
        omega
    tasks := fun ref isTask => present ref (config.sound.tasks ref isTask)
    owners := by
      intro ref owner owned
      simp only [isShape] at owned
      split at owned
      · exact Option.some.inj owned ▸ quiet.isTask
      · exact config.sound.owners ref owner owned
    blocks := config.sound.blocks.grows grown ⟨rfl, rfl⟩
    heap := config.sound.heap.grows grown rfl rfl rfl rfl
    exchange := config.sound.exchange.grows grown rfl rfl
    pending := fun spawn member => (config.sound.pending spawn member).grows grown
    deferred := by
      intro ref call found
      have equal := same ref
      simp only [Thread.left, Prod.mk.injEq] at equal
      exact (config.sound.deferred ref call (equal.2.1 ▸ found)).grows grown }
  refine ⟨⟨shape, (config.world.newThread thread).2, sound⟩, rfl, ?_, ?_, ?_, by simp [isShape],
    noTask, fresh⟩
  · refine ⟨grown, Nat.le_refl _, fun ref none => ?_, fun ref _ _ => ⟨id, same ref⟩,
      fun _ _ _ _ => .refl _ _ _, fun _ _ _ _ _ => Iff.rfl, [], by simp [World.newThread, isShape]⟩
    by_cases isNew : ref = new
    · exact Or.inr (by simp [isShape, isNew])
    · exact Or.inl (by simp [isShape, isNew, none])
  · intro floor
    refine ⟨⟨grown, Nat.le_refl _, fun ref own => ?_, fun _ _ _ _ _ => .refl _ _ _⟩,
      fun _ _ _ _ => Iff.rfl⟩
    rcases own with rfl | ⟨owner, noTask⟩
    · exact Or.inl rfl
    · exact Or.inr ⟨grown.owner _ _ owner, noTask⟩
  · refine ⟨quiet.isTask, fun ref own => (same ref).trans ?_⟩
    by_cases isNew : ref = new
    · subst isNew
      have default : config.world.thread new = {} := by simp [World.thread, new]
      rw [default]
      rfl
    · refine quiet.left ref (own.imp_right fun owned => ⟨?_, owned.2⟩)
      simpa [isShape, isNew] using owned.1

end Config

end MiniGo
