import MiniGo.Proofs.Steering
/-!
What a run may rely on while other code goes on: the values of sealed slots, the contents of a slice
that no value refers to, and the lengths of slices.
-/

namespace MiniGo

variable [Natives] {strict : Prop}

namespace Course.Busy

variable {course : Course strict} {start now : Config strict} {task : ThreadRef} {floor : Nat}
  {env : EnvRef} {blocks : List EnvRef} {layer : Layer} {layers : List Layer}

theorem recalls (busy : course.Busy start task floor env blocks (layer :: layers) now)
    {slots : List Slot} (isSealed : ∀ slot ∈ slots, slot ∈ layer.level.sealed) :
    course.Busy start task floor env blocks
      ({ layer with held := slots.map fun slot => (slot, now.world.load env slot) } :: layers) now := by
  refine { busy with within := busy.within.top fun known found described =>
    ⟨described.level, described.ready, described.parked, fun entry member => ?_⟩ }
  obtain ⟨slot, isSlot, rfl⟩ := List.mem_map.mp member
  exact ⟨isSealed slot isSlot, rfl⟩

theorem held (busy : course.Busy start task floor env blocks (layer :: layers) now)
    {slot : Slot} {value : Value} (member : (slot, value) ∈ layer.held) :
    now.world.load env slot = value := by
  obtain ⟨known, _, _, -, -, same, described⟩ := busy.within.innermost
  obtain ⟨rfl, rfl⟩ := List.cons.inj same
  exact (described.held _ member).2

theorem puts (busy : course.Busy start task floor env blocks (layer :: layers) now)
    {slot : Slot} {value : Value} (isSealed : slot ∈ layer.level.sealed) (is : value.Is slot.type) :
    ∃ later : Config strict, later.world = now.world.store env slot value ∧
      now.Advances task later ∧ (now.Quiet task → later.Quiet task) ∧
      course.Busy start task floor env blocks ({ layer with held := [] } :: layers) later ∧
      later.shape = now.shape ∧ later.world.ip env = now.world.ip env ∧
      later.world.load env slot = value ∧
      ∀ other ∈ layer.level.sealed, other ≠ slot →
        later.world.load env other = now.world.load env other := by
  obtain ⟨later, same, advances, quiets, busy', shape, ip⟩ := busy.seals value isSealed
  have among := layer.level.sealed_among slot isSealed
  refine ⟨later, same, advances, quiets, busy'.serves ?_, shape, ip, ?_, fun other isOther differs => ?_⟩
  · refine .cons ⟨rfl, fun _ member => member, fun _ member => member, ?_⟩ (Serves.refl _)
    exact List.nil_subset _
  · rw [busy'.held (.head _), among.kept is]
  · rw [same]
    refine World.load_store_ne _ _ fun isSame => differs ?_
    exact among.unique (layer.level.sealed_among other isOther) isSame.2.1 isSame.2.2

end Course.Busy

namespace Shape

def withKeys (shape : Shape strict) (ref : SliceRef) (items : Array Value) : Shape strict :=
  { shape with keys := fun other => if other = ref then some items else shape.keys other }

def withLengths (shape : Shape strict) (heap : Heap) : Shape strict :=
  { shape with lengths := fun ref => heap.slices[ref.index]?.map (·.size) }

end Shape

theorem Heap.Sound.grows_withLengths {shape : Shape strict} {heap : Heap} (sound : heap.Sound shape) :
    shape.Grows (shape.withLengths heap) :=
  { Shape.Grows.refl shape with
    lengths := fun ref size noted => by
      obtain ⟨items, present, rfl⟩ := sound.lengths ref size noted
      simp [Shape.withLengths, present] }

theorem Heap.Sound.withLengths {shape : Shape strict} {heap : Heap} (sound : heap.Sound shape) :
    heap.Sound (shape.withLengths heap) where
  slices ref elem found := by
    obtain ⟨items, present, inhabit⟩ := sound.slices ref elem found
    exact ⟨items, present, fun value member => (inhabit value member).grows sound.grows_withLengths⟩
  keys := sound.keys
  lengths ref size noted := by simpa [Shape.withLengths] using noted
  maps ref key elem found := by
    obtain ⟨isKey, entries, present, holds⟩ := sound.maps ref key elem found
    exact ⟨isKey, entries, present, holds.grows sound.grows_withLengths⟩
  ordered := sound.ordered

namespace Config

def measured (config : Config strict) : Config strict :=
  config.withHeap config.world.heap (config.shape.withLengths config.world.heap)
    config.sound.heap.grows_withLengths ⟨rfl, rfl, rfl, rfl, rfl, rfl⟩ config.sound.heap.withLengths

variable {config : Config strict}

theorem calm_measured : config.Calm config.measured := Config.calm_withHeap

@[simp] theorem world_measured : config.measured.world = config.world := rfl

theorem size_items {later : Config strict} (grows : config.measured.shape.Grows later.shape)
    {ref : SliceRef} (inside : ref.index < config.world.heap.slices.size) :
    (later.world.heap.items ref).size = (config.world.heap.items ref).size := by
  have noted : config.measured.shape.lengths ref = some config.world.heap.slices[ref.index].size := by
    simp [measured, withHeap, Shape.withLengths, inside]
  obtain ⟨items, present, isSize⟩ := later.sound.heap.lengths ref _ (grows.lengths _ _ noted)
  simp [Heap.items, Array.getD_eq_getD_getElem?, present, inside, isSize]

theorem exists_keys (config : Config strict) (items : Array Value) :
    ∃ later : Config strict,
      later.world = { config.world with heap := (config.world.heap.newSlice items).2 } ∧
      config.Calm later ∧
      later.shape.keys (config.world.heap.newSlice items).1 = some items := by
  let ref : SliceRef := ⟨config.world.heap.slices.size⟩
  have isNew : ∀ other : SliceRef, other.index < config.world.heap.slices.size → other ≠ ref := by
    rintro other inside rfl
    exact Nat.lt_irrefl _ inside
  have kept {other : SliceRef} {old : Array Value}
      (present : config.world.heap.slices[other.index]? = some old) :
      (config.world.heap.newSlice items).2.slices[other.index]? = some old := by
    have inside := (Array.getElem?_eq_some_iff.mp present).1
    simp only [Heap.newSlice, Array.getElem?_push]
    rw [if_neg (by omega)]
    exact present
  have grown : config.shape.Grows (config.shape.withKeys ref items) :=
    { Shape.Grows.refl config.shape with
      keys := fun other old found => by
        obtain ⟨-, present⟩ := config.sound.heap.keys other old found
        have inside := (Array.getElem?_eq_some_iff.mp present).1
        simp [Shape.withKeys, isNew other inside, found] }
  refine ⟨config.withHeap (config.world.heap.newSlice items).2 (config.shape.withKeys ref items) grown
    ⟨rfl, rfl, rfl, rfl, rfl, rfl⟩ ⟨?_, ?_, ?_, ?_, config.sound.heap.ordered⟩, rfl,
    Config.calm_withHeap, by simp [withHeap, Shape.withKeys, Heap.newSlice, ref]⟩
  · intro other elem found
    obtain ⟨old, present, inhabit⟩ := config.sound.heap.slices other elem found
    exact ⟨old, kept present, fun value member => (inhabit value member).grows grown⟩
  · intro other old found
    simp only [Shape.withKeys] at found
    split at found
    · rename_i same
      obtain rfl := Option.some.inj found
      subst same
      exact ⟨config.sound.heap.slice_fresh, by simp [Heap.newSlice, ref]⟩
    · obtain ⟨unknown, present⟩ := config.sound.heap.keys other old found
      exact ⟨unknown, kept present⟩
  · intro other size noted
    obtain ⟨old, present, isSize⟩ := config.sound.heap.lengths other size noted
    exact ⟨old, kept present, isSize⟩
  · intro other key elem found
    obtain ⟨isKey, entries, present, holds⟩ := config.sound.heap.maps other key elem found
    exact ⟨isKey, entries, present, holds.grows grown⟩

end Config

end MiniGo
