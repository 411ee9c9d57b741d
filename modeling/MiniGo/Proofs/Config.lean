import MiniGo.Proofs.Shape
/-!
Sound states. A world is sound for a shape when each environment, slice, map, channel and thread holds
what the shape says; a `Config` is a world together with such a shape.
-/

namespace MiniGo

variable {strict : Prop}

section Soundness

variable [Natives]

/-- What an object slot of a type holds. The slot of a string holds nil until its variable is
declared. -/
def Value.Rests (shape : Shape strict) (value : Value) (type : Ty) : Prop :=
  value.Known shape ∧ (strict → value.Is type ∨ (type = .string ∧ value = .nil))

structure Env.Sound (shape : Shape strict) (ref : EnvRef) (known : EnvShape) (env : Env) : Prop where
  outer : env.outer = known.outer
  older : ∀ outer, known.outer = some outer → outer.index < ref.index
  program : env.program = known.program
  thread : env.thread = known.thread
  objects : env.slots.objects.size = known.level.frame.objects
  words : env.slots.words.size = known.level.frame.words
  values : ∀ index type, known.level.objects[index]? = some type →
    ⟨.object, index, type⟩ ∉ known.level.sealed → (env.slots.object index).Rests shape type
  ready : ∀ slot, shape.ready ref slot →
    known.level.Has slot ∧ (strict → (env.slots.load slot).Is slot.type)

def Entries.Sound (shape : Shape strict) (key elem : Ty) (entries : Entries) : Prop :=
  ∀ entry ∈ entries, (strict → entry.1.toValue.Is key) ∧ entry.2.Inhabits shape elem

def Entries.Ascending (entries : Entries) : Prop :=
  entries.keys.Pairwise fun left right => left.less right = true

structure Heap.Sound (shape : Shape strict) (heap : Heap) : Prop where
  slices : ∀ ref elem, shape.slice ref = some elem →
    ∃ items, heap.slices[ref.index]? = some items ∧ ∀ value ∈ items, value.Inhabits shape elem
  keys : ∀ ref items, shape.keys ref = some items →
    shape.slice ref = none ∧ heap.slices[ref.index]? = some items
  lengths : ∀ ref size, shape.lengths ref = some size →
    ∃ items, heap.slices[ref.index]? = some items ∧ items.size = size
  maps : ∀ ref key elem, shape.map ref = some (key, elem) →
    (strict → key.isKey = true) ∧
      ∃ entries, heap.maps[ref.index]? = some entries ∧ entries.Sound shape key elem
  ordered : ∀ entries ∈ heap.maps, entries.Ascending

/-- An offer holds out a value that fits, for a case that is a send. -/
structure Offer.Sound (shape : Shape strict) (elem : Ty) (offer : Offer) : Prop where
  value : offer.value.Inhabits shape elem
  case : ∃ sends, shape.claim offer.claim = some sends ∧ offer.case ∈ sends

structure Channel.Sound (shape : Shape strict) (elem : Ty) (channel : Channel) : Prop where
  buffer : ∀ value ∈ channel.buffer, value.Inhabits shape elem
  offers : ∀ offer ∈ channel.offers, offer.Sound shape elem

structure Exchange.Sound (shape : Shape strict) (exchange : Exchange) : Prop where
  channels : ∀ ref elem, shape.chan ref = some elem →
    ∃ channel, exchange.channels[ref.index]? = some channel ∧ channel.Sound shape elem
  claims : ∀ ref sends, shape.claim ref = some sends →
    ∃ claim, exchange.claims[ref.index]? = some claim ∧ ∀ case ∈ claim, case ∈ sends

end Soundness

def Thread.left (thread : Thread) : Signal × Option Invocation × Option RuntimeError :=
  (thread.signal, thread.deferred, thread.panic)

def World.IsOpen (world : World) (ref : EnvRef) : Prop := ref ∈ world.entered ∧ ref ∉ world.exited

/-- Every block environment is entered once, and left at most once. -/
structure World.Blocks (shape : Shape strict) (world : World) : Prop where
  entered : world.entered.Nodup
  exited : world.exited.Nodup
  left : world.exited ⊆ world.entered
  known : ∀ ref ∈ world.entered, (shape.env ref).isSome = true

theorem World.isOpen_congr {before after : World}
    (blocks : after.entered = before.entered ∧ after.exited = before.exited) (ref : EnvRef) :
    after.IsOpen ref ↔ before.IsOpen ref := by
  rw [World.IsOpen, World.IsOpen, blocks.1, blocks.2]

theorem World.Blocks.grows {before after : Shape strict} {world changed : World}
    (blocks : world.Blocks before)
    (grown : before.Grows after)
    (same : changed.entered = world.entered ∧ changed.exited = world.exited) :
    changed.Blocks after := by
  refine ⟨same.1 ▸ blocks.entered, same.2 ▸ blocks.exited, ?_, fun ref member => ?_⟩
  · rw [same.1, same.2]
    exact blocks.left
  · obtain ⟨known, found⟩ := Option.isSome_iff_exists.mp (blocks.known ref (same.1 ▸ member))
    simp [grown.env ref known found]

structure World.Sound [Natives] (shape : Shape strict) (world : World) : Prop where
  envs : ∀ ref known, shape.env ref = some known →
    (shape.owner known.thread).isSome = true ∧
      ∃ env, world.env? ref = some env ∧ env.Sound shape ref known
  ready : ∀ ref slot, shape.ready ref slot → (shape.env ref).isSome = true
  threads : ∀ ref, (shape.owner ref).isSome = true ↔ ref.index < world.threads.size
  tasks : ∀ ref, shape.isTask ref → (shape.owner ref).isSome = true
  owners : ∀ ref task, shape.owner ref = some task → shape.isTask task
  blocks : world.Blocks shape
  heap : world.heap.Sound shape
  exchange : world.exchange.Sound shape
  pending : ∀ spawn ∈ world.pending, spawn.invocation.Sound shape
  deferred : ∀ ref call, (world.thread ref).deferred = some call → call.Sound shape

structure Config [Natives] (strict : Prop) where
  shape : Shape strict
  world : World
  sound : world.Sound shape

section Growth

variable [Natives] {before after : Shape strict}

theorem Value.Rests.grows {value : Value} {type : Ty} (rests : value.Rests before type)
    (grown : before.Grows after) : value.Rests after type := ⟨rests.1.grows grown, rests.2⟩

theorem Value.Inhabits.rests {shape : Shape strict} {value : Value} {type : Ty}
    (inhabits : value.Inhabits shape type) : value.Rests shape type :=
  ⟨inhabits.1, fun isStrict => Or.inl (inhabits.2 isStrict)⟩

theorem Env.Sound.grows {ref : EnvRef} {known : EnvShape} {env : Env}
    (sound : env.Sound before ref known) (grown : before.Grows after)
    (ready : ∀ slot, after.ready ref slot → before.ready ref slot) : env.Sound after ref known :=
  { sound with
    values := fun index type found unsealed => (sound.values index type found unsealed).grows grown
    ready := fun slot isReady => sound.ready slot (ready slot isReady) }

theorem Entries.Sound.grows {key elem : Ty} {entries : Entries}
    (sound : entries.Sound before key elem) (grown : before.Grows after) :
    entries.Sound after key elem :=
  fun entry member => ⟨(sound entry member).1, (sound entry member).2.grows grown⟩

theorem Heap.Sound.grows {heap : Heap} (sound : heap.Sound before) (grown : before.Grows after)
    (slices : after.slice = before.slice) (maps : after.map = before.map)
    (keys : after.keys = before.keys) (lengths : after.lengths = before.lengths) :
    heap.Sound after := by
  refine ⟨?_, ?_, fun ref size found => sound.lengths ref size (lengths ▸ found), ?_, sound.ordered⟩
  · intro ref elem found
    obtain ⟨items, present, inhabit⟩ := sound.slices ref elem (slices ▸ found)
    exact ⟨items, present, fun value member => (inhabit value member).grows grown⟩
  · intro ref items found
    rw [slices]
    exact sound.keys ref items (keys ▸ found)
  · intro ref key elem found
    obtain ⟨isKey, entries, present, inhabit⟩ := sound.maps ref key elem (maps ▸ found)
    exact ⟨isKey, entries, present, inhabit.grows grown⟩

theorem Channel.Sound.grows {elem : Ty} {channel : Channel} (sound : channel.Sound before elem)
    (grown : before.Grows after) : channel.Sound after elem := by
  refine ⟨fun value member => (sound.buffer value member).grows grown, fun offer member => ?_⟩
  obtain ⟨sends, known, case⟩ := (sound.offers offer member).case
  exact ⟨(sound.offers offer member).value.grows grown, sends, grown.claim _ _ known, case⟩

theorem Exchange.Sound.grows {exchange : Exchange} (sound : exchange.Sound before)
    (grown : before.Grows after) (chans : after.chan = before.chan)
    (claims : after.claim = before.claim) : exchange.Sound after := by
  constructor
  · intro ref elem found
    obtain ⟨channel, present, holds⟩ := sound.channels ref elem (chans ▸ found)
    exact ⟨channel, present, holds.grows grown⟩
  · intro ref sends found
    exact sound.claims ref sends (claims ▸ found)

/-- A world stays sound when its environments change and the shape grows by environments and ready
slots only. -/
theorem World.Sound.carry {world changed : World} (sound : world.Sound before)
    (grown : before.Grows after) (heap : changed.heap = world.heap)
    (exchange : changed.exchange = world.exchange) (pending : changed.pending = world.pending)
    (blocks : changed.entered = world.entered ∧ changed.exited = world.exited)
    (threads : changed.threads.size = world.threads.size)
    (left : ∀ ref, (changed.thread ref).left = (world.thread ref).left)
    (contents : after.slice = before.slice ∧ after.map = before.map ∧ after.chan = before.chan ∧
      after.claim = before.claim ∧ after.owner = before.owner ∧
      after.isTask = before.isTask)
    (envs : ∀ ref known, after.env ref = some known →
      (after.owner known.thread).isSome = true ∧
        ∃ env, changed.env? ref = some env ∧ env.Sound after ref known)
    (ready : ∀ ref slot, after.ready ref slot → (after.env ref).isSome = true)
    (keys : after.keys = before.keys := by rfl)
    (lengths : after.lengths = before.lengths := by rfl) : changed.Sound after where
  envs := envs
  ready := ready
  threads ref := by
    rw [contents.2.2.2.2.1, threads]
    exact sound.threads ref
  tasks ref isTask := by
    rw [contents.2.2.2.2.1]
    exact sound.tasks ref (contents.2.2.2.2.2 ▸ isTask)
  owners ref task owned := by
    rw [contents.2.2.2.2.2]
    exact sound.owners ref task (contents.2.2.2.2.1 ▸ owned)
  blocks := sound.blocks.grows grown blocks
  heap := heap ▸ sound.heap.grows grown contents.1 contents.2.1 keys lengths
  exchange := exchange ▸ sound.exchange.grows grown contents.2.2.1 contents.2.2.2.1
  pending spawn member := (sound.pending spawn (pending ▸ member)).grows grown
  deferred ref call found := by
    have same := left ref
    simp only [Thread.left, Prod.mk.injEq] at same
    exact (sound.deferred ref call (same.2.1 ▸ found)).grows grown

end Growth

namespace Config

variable [Natives] {start middle final : Config strict}

/-- The environment has not moved, and the slots that others leave alone have not changed. -/
def Kept (before after : Config strict) (ref : EnvRef) (known : EnvShape) : Prop :=
  after.world.ip ref = before.world.ip ref ∧
    ∀ slot, known.level.Guards slot → after.world.load ref slot = before.world.load ref slot

theorem Kept.refl (config : Config strict) (ref : EnvRef) (known : EnvShape) :
    config.Kept config ref known := ⟨rfl, fun _ _ => rfl⟩

theorem Kept.trans {ref : EnvRef} {known : EnvShape} (first : start.Kept middle ref known)
    (second : middle.Kept final ref known) : start.Kept final ref known :=
  ⟨second.1.trans first.1, fun slot guards =>
    (second.2 slot guards).trans (first.2 slot guards)⟩

/-- Nothing that others look at has changed: no environment has moved or changed a slot that no name
stands for, and no thread has left anything for its executor. -/
structure Calm (before after : Config strict) : Prop where
  grows : before.shape.Grows after.shape
  envs : before.world.envs.size ≤ after.world.envs.size
  owner : after.shape.owner = before.shape.owner
  isTask : after.shape.isTask = before.shape.isTask
  kept : ∀ ref known, before.shape.env ref = some known → before.Kept after ref known
  left : ∀ ref, (after.world.thread ref).left = (before.world.thread ref).left
  blocks : after.world.entered = before.world.entered ∧ after.world.exited = before.world.exited
  pending : after.world.pending = before.world.pending

/-- Nothing that others look at has changed, but for one environment. -/
structure Moves (moved : EnvRef) (before after : Config strict) : Prop where
  grows : before.shape.Grows after.shape
  envs : before.world.envs.size ≤ after.world.envs.size
  owner : after.shape.owner = before.shape.owner
  isTask : after.shape.isTask = before.shape.isTask
  kept : ∀ ref known, before.shape.env ref = some known → ref ≠ moved → before.Kept after ref known
  left : ∀ ref, (after.world.thread ref).left = (before.world.thread ref).left
  blocks : after.world.entered = before.world.entered ∧ after.world.exited = before.world.exited
  pending : after.world.pending = before.world.pending

/-- What a task relies on while it goes on from one state to another: its environments that are older
than `floor` have not moved. -/
structure Stays (task : ThreadRef) (floor : Nat) (before after : Config strict) : Prop where
  grows : before.shape.Grows after.shape
  envs : before.world.envs.size ≤ after.world.envs.size
  owns : ∀ ref, before.shape.Owns task ref → after.shape.Owns task ref
  kept : ∀ ref known, before.shape.env ref = some known → before.shape.Owns task known.thread →
    ref.index < floor → before.Kept after ref known

def Even (task : ThreadRef) (before after : Config strict) : Prop :=
  ∀ ref known, after.shape.env ref = some known → after.shape.Owns task known.thread →
    (after.world.IsOpen ref ↔ before.world.IsOpen ref)

/-- What a task does from one state to another when it leaves all the blocks that it enters. -/
structure Since (task : ThreadRef) (floor : Nat) (before after : Config strict) : Prop
    extends Stays task floor before after where
  blocks : before.Even task after

/-- What a task does between two waits: it moves environments of threads that it owns only, and
starts tasks on new threads. -/
structure Advances (task : ThreadRef) (before after : Config strict) : Prop where
  grows : before.shape.Grows after.shape
  envs : before.world.envs.size ≤ after.world.envs.size
  fresh : ∀ ref, before.shape.owner ref = none →
    after.shape.owner ref = none ∨ after.shape.owner ref = some task
  others : ∀ ref, (before.shape.owner ref).isSome = true → ¬before.shape.Owns task ref →
    (after.shape.isTask ref → before.shape.isTask ref) ∧
      (after.world.thread ref).left = (before.world.thread ref).left
  kept : ∀ ref known, before.shape.env ref = some known → ¬before.shape.Owns task known.thread →
    before.Kept after ref known
  blocks : ∀ ref known, after.shape.env ref = some known →
    (before.shape.owner known.thread).isSome = true → ¬before.shape.Owns task known.thread →
    (after.world.IsOpen ref ↔ before.world.IsOpen ref)
  pending : ∃ more : List Spawn, after.world.pending = before.world.pending ++ more ∧
    (more.map (·.thread)).Nodup ∧
    (∀ ref, after.shape.isTask ref → before.shape.isTask ref ∨ ref ∈ more.map (·.thread)) ∧
    ∀ spawn ∈ more, spawn.thread ≠ task ∧ ¬before.shape.isTask spawn.thread ∧
      after.shape.isTask spawn.thread ∧
      (after.world.thread spawn.thread).left = (.none, none, none) ∧
      ∀ ref known, after.shape.env ref = some known → known.thread = spawn.thread →
        ¬after.world.IsOpen ref

structure Waits (task : ThreadRef) (before after : Config strict) : Prop where
  grows : before.shape.Grows after.shape
  envs : before.world.envs.size ≤ after.world.envs.size
  owns : ∀ ref, after.shape.Owns task ref ↔ before.shape.Owns task ref
  kept : ∀ ref known, before.shape.env ref = some known → before.shape.Owns task known.thread →
    before.Kept after ref known
  blocks : ∀ ref known, after.shape.env ref = some known → before.shape.Owns task known.thread →
    (after.world.IsOpen ref ↔ before.world.IsOpen ref)
  left : ∀ ref, before.shape.Owns task ref →
    (after.world.thread ref).left = (before.world.thread ref).left

structure Quiet (task : ThreadRef) (config : Config strict) : Prop where
  isTask : config.shape.isTask task
  left : ∀ ref, config.shape.Owns task ref →
    (config.world.thread ref).left = (.none, none, none)

theorem known_of_isOpen (config : Config strict) {ref : EnvRef} (isOpen : config.world.IsOpen ref) :
    ∃ known, config.shape.env ref = some known :=
  Option.isSome_iff_exists.mp (config.sound.blocks.known ref isOpen.1)

/-- What is open later among the environments known later, was open earlier among those known
earlier. -/
theorem isOpen_trans {ref : EnvRef} {known : EnvShape} (first : start.shape.Grows middle.shape)
    (second : middle.shape.Grows final.shape) (found : final.shape.env ref = some known)
    (early : middle.shape.env ref = some known →
      (middle.world.IsOpen ref ↔ start.world.IsOpen ref))
    (late : final.world.IsOpen ref ↔ middle.world.IsOpen ref) :
    final.world.IsOpen ref ↔ start.world.IsOpen ref := by
  refine late.trans ⟨fun isOpen => ?_, fun isOpen => ?_⟩
  · obtain ⟨there, isThere⟩ := middle.known_of_isOpen isOpen
    obtain rfl : there = known := Option.some.inj ((second.env _ _ isThere).symm.trans found)
    exact (early isThere).mp isOpen
  · obtain ⟨there, isThere⟩ := start.known_of_isOpen isOpen
    have isThere := first.env _ _ isThere
    obtain rfl : there = known := Option.some.inj ((second.env _ _ isThere).symm.trans found)
    exact (early isThere).mpr isOpen

theorem owns_before {task ref : ThreadRef} (grows : start.shape.Grows final.shape)
    (present : (start.shape.owner ref).isSome = true) (own : final.shape.Owns task ref) :
    start.shape.Owns task ref := by
  rcases own with rfl | ⟨owned, noTask⟩
  · exact .inl rfl
  · obtain ⟨owner, isOwner⟩ := Option.isSome_iff_exists.mp present
    have same : owner = task := Option.some.inj ((grows.owner _ _ isOwner).symm.trans owned)
    exact .inr ⟨same ▸ isOwner, fun isTask => noTask (grows.isTask _ isTask)⟩

theorem Stays.refl (task : ThreadRef) (floor : Nat) (config : Config strict) :
    config.Stays task floor config :=
  ⟨.refl _, Nat.le_refl _, fun _ owns => owns, fun _ _ _ _ _ => .refl _ _ _⟩

theorem Stays.trans {task : ThreadRef} {floor : Nat} (left : start.Stays task floor middle)
    (right : middle.Stays task floor final) : start.Stays task floor final where
  grows := left.grows.trans right.grows
  envs := Nat.le_trans left.envs right.envs
  owns ref owns := right.owns ref (left.owns ref owns)
  kept ref known found own older :=
    (left.kept ref known found own older).trans
      (right.kept ref known (left.grows.env _ _ found) (left.owns _ own) older)

theorem Stays.weaken {task : ThreadRef} {floor lower : Nat} (stays : start.Stays task floor final)
    (less : lower ≤ floor) : start.Stays task lower final :=
  { stays with
    kept := fun ref known found own older =>
      stays.kept ref known found own (Nat.lt_of_lt_of_le older less) }

theorem Even.trans {task : ThreadRef} (left : start.Even task middle) (right : middle.Even task final)
    (first : start.shape.Grows middle.shape) (second : middle.shape.Grows final.shape) :
    start.Even task final := by
  intro ref known found own
  refine isOpen_trans first second found (fun there => ?_) (right ref known found own)
  exact left ref known there (owns_before second (middle.sound.envs ref known there).1 own)

theorem Since.refl (task : ThreadRef) (floor : Nat) (config : Config strict) :
    config.Since task floor config := ⟨.refl _ _ _, fun _ _ _ _ => Iff.rfl⟩

theorem Since.trans {task : ThreadRef} {floor : Nat} (left : start.Since task floor middle)
    (right : middle.Since task floor final) : start.Since task floor final :=
  ⟨left.toStays.trans right.toStays, left.blocks.trans right.blocks left.grows right.grows⟩

theorem Since.weaken {task : ThreadRef} {floor lower : Nat} (since : start.Since task floor final)
    (less : lower ≤ floor) : start.Since task lower final :=
  ⟨since.toStays.weaken less, since.blocks⟩

theorem Advances.refl (task : ThreadRef) (config : Config strict) :
    config.Advances task config :=
  ⟨.refl _, Nat.le_refl _, fun _ none => Or.inl none, fun _ _ _ => ⟨id, rfl⟩,
    fun _ _ _ _ => .refl _ _ _, fun _ _ _ _ _ => Iff.rfl, [], by simp⟩

theorem Advances.foreign {task ref : ThreadRef} (advances : start.Advances task middle)
    (exists_ : (start.shape.owner ref).isSome = true) (foreign : ¬start.shape.Owns task ref) :
    ¬middle.shape.Owns task ref := by
  obtain ⟨owner, isOwner⟩ := Option.isSome_iff_exists.mp exists_
  rintro (same | ⟨owned, noTask⟩)
  · exact foreign (Or.inl same)
  · refine foreign (Or.inr ⟨?_, fun isTask => noTask (advances.grows.isTask _ isTask)⟩)
    rw [isOwner, ← owned, advances.grows.owner _ _ isOwner]

theorem Advances.trans {task : ThreadRef} (left : start.Advances task middle)
    (right : middle.Advances task final) : start.Advances task final where
  grows := left.grows.trans right.grows
  envs := Nat.le_trans left.envs right.envs
  fresh ref none := by
    rcases left.fresh ref none with still | own
    · exact right.fresh ref still
    · exact Or.inr (right.grows.owner _ _ own)
  others ref present foreign := by
    have first := left.others ref present foreign
    obtain ⟨owner, isOwner⟩ := Option.isSome_iff_exists.mp present
    have second := right.others ref (by simp [left.grows.owner _ _ isOwner])
      (left.foreign present foreign)
    exact ⟨fun isTask => first.1 (second.1 isTask), second.2.trans first.2⟩
  kept ref known found foreign := by
    have present := (start.sound.envs ref known found).1
    exact (left.kept ref known found foreign).trans
      (right.kept ref known (left.grows.env _ _ found) (left.foreign present foreign))
  blocks ref known found present foreign := by
    obtain ⟨owner, isOwner⟩ := Option.isSome_iff_exists.mp present
    refine isOpen_trans left.grows right.grows found
      (fun there => left.blocks ref known there present foreign) ?_
    exact right.blocks ref known found (by simp [left.grows.owner _ _ isOwner])
      (left.foreign present foreign)
  pending := by
    obtain ⟨first, firstPending, firstDistinct, firstTasks, firstNew⟩ := left.pending
    obtain ⟨second, secondPending, secondDistinct, secondTasks, secondNew⟩ := right.pending
    refine ⟨first ++ second, by rw [secondPending, firstPending, List.append_assoc], ?_, ?_, ?_⟩
    · rw [List.map_append]
      refine List.nodup_append.mpr ⟨firstDistinct, secondDistinct, ?_⟩
      intro ref inFirst other inSecond same
      obtain ⟨early, earlyMember, rfl⟩ := List.mem_map.mp inFirst
      obtain ⟨late, lateMember, rfl⟩ := List.mem_map.mp inSecond
      exact (secondNew late lateMember).2.1 (same ▸ (firstNew early earlyMember).2.2.1)
    · intro ref isTask
      rw [List.map_append, List.mem_append]
      rcases secondTasks ref isTask with isTask | member
      · exact (firstTasks ref isTask).imp_right .inl
      · exact .inr (.inr member)
    · intro spawn member
      rcases List.mem_append.mp member with inFirst | inSecond
      · obtain ⟨differs, new, isTask, quiet, closed⟩ := firstNew spawn inFirst
        have foreign : ¬middle.shape.Owns task spawn.thread := by
          rintro (same | ⟨_, noTask⟩)
          · exact differs same
          · exact noTask isTask
        have kept := right.others spawn.thread (middle.sound.tasks _ isTask) foreign
        refine ⟨differs, new, right.grows.isTask _ isTask, kept.2.trans quiet, ?_⟩
        intro ref known found same isOpen
        have still := (right.blocks ref known found (same ▸ middle.sound.tasks _ isTask)
          (same ▸ foreign)).mp isOpen
        obtain ⟨there, isThere⟩ := middle.known_of_isOpen still
        obtain rfl : there = known :=
          Option.some.inj ((right.grows.env _ _ isThere).symm.trans found)
        exact closed ref there isThere same still
      · obtain ⟨differs, new, isTask, quiet, closed⟩ := secondNew spawn inSecond
        exact ⟨differs, fun isTask => new (left.grows.isTask _ isTask), isTask, quiet, closed⟩

theorem Waits.refl (task : ThreadRef) (config : Config strict) : config.Waits task config :=
  ⟨.refl _, Nat.le_refl _, fun _ => Iff.rfl, fun _ _ _ _ => .refl _ _ _, fun _ _ _ _ => Iff.rfl,
    fun _ _ => rfl⟩

theorem Waits.trans {task : ThreadRef} (left : start.Waits task middle)
    (right : middle.Waits task final) : start.Waits task final where
  grows := left.grows.trans right.grows
  envs := Nat.le_trans left.envs right.envs
  owns ref := (right.owns ref).trans (left.owns ref)
  kept ref known found own :=
    (left.kept ref known found own).trans
      (right.kept ref known (left.grows.env _ _ found) ((left.owns _).mpr own))
  blocks ref known found own :=
    isOpen_trans left.grows right.grows found (fun there => left.blocks ref known there own)
      (right.blocks ref known found ((left.owns _).mpr own))
  left ref own := (right.left ref ((left.owns _).mpr own)).trans (left.left ref own)

theorem Waits.since {task : ThreadRef} {floor : Nat} (waits : start.Waits task final) :
    start.Since task floor final :=
  ⟨⟨waits.grows, waits.envs, fun ref own => (waits.owns ref).mpr own,
    fun ref known found own _ => waits.kept ref known found own⟩,
    fun ref known found own => waits.blocks ref known found ((waits.owns _).mp own)⟩

theorem Waits.quiet {task : ThreadRef} (waits : start.Waits task final)
    (quiet : start.Quiet task) : final.Quiet task :=
  ⟨waits.grows.isTask _ quiet.isTask, fun ref own =>
    (waits.left ref ((waits.owns ref).mp own)).trans (quiet.left ref ((waits.owns ref).mp own))⟩

theorem not_owns_of_owns {config : Config strict} {task other ref : ThreadRef}
    (isTask : config.shape.isTask task) (otherTask : config.shape.isTask other)
    (differs : other ≠ task) (own : config.shape.Owns other ref) : ¬config.shape.Owns task ref := by
  rintro (rfl | ⟨owner, _⟩)
  · rcases own with same | ⟨_, noTask⟩
    · exact differs same.symm
    · exact noTask isTask
  · rcases own with rfl | ⟨otherOwner, _⟩
    · contradiction
    · exact differs (Option.some.inj (otherOwner.symm.trans owner))

theorem owner_isSome (config : Config strict) {task ref : ThreadRef}
    (isTask : config.shape.isTask task) (own : config.shape.Owns task ref) :
    (config.shape.owner ref).isSome = true := by
  rcases own with rfl | ⟨owner, _⟩
  · exact config.sound.tasks _ isTask
  · simp [owner]

theorem Advances.waits {task other : ThreadRef} (advances : start.Advances task final)
    (isTask : start.shape.isTask task) (otherTask : start.shape.isTask other)
    (differs : other ≠ task) : start.Waits other final where
  grows := advances.grows
  envs := advances.envs
  owns ref := by
    constructor
    · rintro (rfl | ⟨owner, noTask⟩)
      · exact Or.inl rfl
      · cases before : start.shape.owner ref with
        | none =>
          rcases advances.fresh ref before with none | own
          · simp [none] at owner
          · exact absurd (Option.some.inj (owner.symm.trans own)) differs
        | some found =>
          have still := advances.grows.owner _ _ before
          refine Or.inr ⟨before.trans (still.symm.trans owner), fun isTask => ?_⟩
          exact noTask (advances.grows.isTask _ isTask)
    · rintro (rfl | ⟨owner, noTask⟩)
      · exact Or.inl rfl
      · have foreign := not_owns_of_owns isTask otherTask differs (Or.inr ⟨owner, noTask⟩)
        have kept := advances.others ref (by simp [owner]) foreign
        exact Or.inr ⟨advances.grows.owner _ _ owner, fun isTask => noTask (kept.1 isTask)⟩
  kept ref known found own :=
    advances.kept ref known found (not_owns_of_owns isTask otherTask differs own)
  blocks ref known found own :=
    advances.blocks ref known found (start.owner_isSome otherTask own)
      (not_owns_of_owns isTask otherTask differs own)
  left ref own :=
    (advances.others ref (start.owner_isSome otherTask own)
      (not_owns_of_owns isTask otherTask differs own)).2

namespace Calm

theorem refl (config : Config strict) : config.Calm config :=
  ⟨.refl _, Nat.le_refl _, rfl, rfl, fun _ _ _ => .refl _ _ _, fun _ => rfl, ⟨rfl, rfl⟩, rfl⟩

theorem trans (left : start.Calm middle) (right : middle.Calm final) : start.Calm final where
  grows := left.grows.trans right.grows
  envs := Nat.le_trans left.envs right.envs
  owner := right.owner.trans left.owner
  isTask := right.isTask.trans left.isTask
  kept ref known found :=
    (left.kept ref known found).trans (right.kept ref known (left.grows.env _ _ found))
  left ref := (right.left ref).trans (left.left ref)
  blocks := ⟨right.blocks.1.trans left.blocks.1, right.blocks.2.trans left.blocks.2⟩
  pending := right.pending.trans left.pending

theorem moves (calm : start.Calm final) (ref : EnvRef) : start.Moves ref final :=
  { calm with kept := fun ref known found _ => calm.kept ref known found }

end Calm

namespace Moves

variable {ref : EnvRef} {known : EnvShape} {task : ThreadRef}

theorem owns (moves : start.Moves ref final) (thread : ThreadRef) :
    final.shape.Owns task thread ↔ start.shape.Owns task thread := by
  simp only [Shape.Owns, moves.owner, moves.isTask]

theorem since {floor : Nat} (moves : start.Moves ref final) (young : floor ≤ ref.index) :
    start.Since task floor final := by
  refine ⟨⟨moves.grows, moves.envs, fun thread own => (moves.owns thread).mpr own,
    fun other found present _ older => moves.kept other found present ?_⟩,
    fun other _ _ _ => World.isOpen_congr moves.blocks other⟩
  rintro rfl
  omega

theorem advances (moves : start.Moves ref final) (found : start.shape.env ref = some known)
    (own : start.shape.Owns task known.thread) : start.Advances task final := by
  refine ⟨moves.grows, moves.envs, fun thread none => Or.inl (moves.owner ▸ none),
    fun thread _ _ => ⟨fun isTask => moves.isTask ▸ isTask, moves.left thread⟩,
    fun other present isPresent foreign => moves.kept other present isPresent ?_,
    fun other _ _ _ _ => World.isOpen_congr moves.blocks other, [], by simp [moves.pending, moves.isTask]⟩
  rintro rfl
  obtain rfl : present = known := Option.some.inj (isPresent.symm.trans found)
  exact foreign own

theorem quiet (moves : start.Moves ref final) (quiet : start.Quiet task) : final.Quiet task :=
  ⟨moves.grows.isTask _ quiet.isTask, fun thread own =>
    (moves.left thread).trans (quiet.left thread ((moves.owns thread).mp own))⟩

end Moves

namespace Calm

variable {task : ThreadRef}

theorem since {floor : Nat} (calm : start.Calm final) : start.Since task floor final :=
  ((calm.moves ⟨floor⟩).since (Nat.le_refl floor))

theorem advances (calm : start.Calm final) : start.Advances task final :=
  ⟨calm.grows, calm.envs, fun thread none => Or.inl (calm.owner ▸ none),
    fun thread _ _ => ⟨fun isTask => calm.isTask ▸ isTask, calm.left thread⟩,
    fun other present isPresent _ => calm.kept other present isPresent,
    fun other _ _ _ _ => World.isOpen_congr calm.blocks other, [], by simp [calm.pending, calm.isTask]⟩

theorem quiet (calm : start.Calm final) (quiet : start.Quiet task) : final.Quiet task :=
  (calm.moves ⟨0⟩).quiet quiet

end Calm

end Config

end MiniGo
