import MiniGo.Proofs.Locations
/-!
Calls in progress. A call goes on in its own environment, or in a block that it has entered from
there. `Busy` tells where a call is and which blocks it has entered and not left; entering a block,
leaving some of them and unwinding to the root keep it.
-/

namespace MiniGo

variable [Natives] {strict : Prop}

namespace Layer.Describes

variable {layer target : Layer} {now later : Config strict} {ref : EnvRef} {known : EnvShape}

theorem serves (describes : layer.Describes now ref known) (serves : layer.Serves target) :
    target.Describes now ref known := by
  refine ⟨describes.level.trans serves.level,
    fun isStrict slot member => describes.ready isStrict slot (serves.ready member),
    fun entry member => ?_, fun entry member => ?_⟩
  · rw [← serves.level]
    exact describes.parked entry (serves.parked member)
  · rw [← serves.level]
    exact describes.held entry (serves.held member)

theorem carry (describes : layer.Describes now ref known) (grows : now.shape.Grows later.shape)
    (loads : ∀ slot, layer.level.Parks slot ∨ slot ∈ layer.level.sealed →
      later.world.load ref slot = now.world.load ref slot) :
    layer.Describes later ref known := by
  refine ⟨describes.level,
    fun isStrict slot member => grows.ready _ _ (describes.ready isStrict slot member),
    fun entry member => ?_, fun entry member => ?_⟩
  · obtain ⟨parks, is⟩ := describes.parked entry member
    exact ⟨parks, fun isStrict => loads _ (.inl parks) ▸ is isStrict⟩
  · obtain ⟨isSealed, holds⟩ := describes.held entry member
    exact ⟨isSealed, (loads _ (.inr isSealed)).trans holds⟩

theorem kept (describes : layer.Describes now ref known) (grows : now.shape.Grows later.shape)
    (kept : now.Kept later ref known) : layer.Describes later ref known := by
  refine describes.carry grows fun slot guarded => kept.2 slot ?_
  rcases guarded with ⟨-, object, -, hidden⟩ | isSealed
  · exact .inl ⟨object, describes.level ▸ hidden⟩
  · exact .inr (describes.level ▸ isSealed)

end Layer.Describes

omit [Natives] in
theorem Serves.plain {source target : List Layer} (serves : Serves source target)
    (plain : ∀ layer ∈ source, layer.parked = [] ∧ layer.held = []) :
    ∀ layer ∈ target, layer.parked = [] ∧ layer.held = [] := by
  induction serves with
  | nil => simp
  | cons head _ ih =>
    rw [List.forall_mem_cons] at plain ⊢
    exact ⟨⟨List.eq_nil_of_subset_nil (plain.1.1 ▸ head.parked),
      List.eq_nil_of_subset_nil (plain.1.2 ▸ head.held)⟩, ih plain.2⟩

namespace Course.Within

variable {course : Course strict} {now later : Config strict} {env : EnvRef}
  {blocks : List EnvRef} {layers : List Layer}

theorem known (within : course.Within now env blocks layers) :
    ∃ known, now.shape.env env = some known ∧ known.program = course.program ∧
      known.thread = course.thread := by
  cases within with
  | root known program thread => exact ⟨_, known, program, thread⟩
  | block known program thread => exact ⟨_, known, program, thread⟩

theorem threadOf (within : course.Within now env blocks layers) :
    now.world.threadOf env = course.thread := by
  obtain ⟨known, found, -, thread⟩ := within.known
  obtain ⟨-, there, present, sound⟩ := now.sound.envs env known found
  simp only [World.threadOf, present]
  exact sound.thread.trans thread

theorem instr? (within : course.Within now env blocks layers) :
    now.world.instr? env = course.program.instr? (now.world.ip env) := by
  obtain ⟨known, found, program, -⟩ := within.known
  obtain ⟨-, there, present, sound⟩ := now.sound.envs env known found
  simp only [World.instr?, World.ip, present, Option.bind_some]
  rw [sound.program, program]

theorem spans (within : course.Within now env blocks layers) :
    Spans now.shape (some env) layers := by
  induction within with
  | root known _ _ describes outer => exact .cons known describes.level describes.ready outer
  | block known _ _ describes outer _ ih =>
    exact .cons known describes.level describes.ready (outer ▸ ih)

theorem carry (within : course.Within now env blocks layers)
    (grows : now.shape.Grows later.shape)
    (describes : ∀ ref known (layer : Layer), now.shape.env ref = some known →
      known.thread = course.thread → ref.index ≤ env.index → layer.Describes now ref known →
      layer.Describes later ref known) : course.Within later env blocks layers := by
  induction within with
  | root known program thread described outer plain length =>
    exact .root (grows.env _ _ known) program thread
      (describes _ _ _ known thread (Nat.le_refl _) described) (outer.grows grows) plain length
  | block known program thread described outer _ ih =>
    obtain ⟨-, there, present, sound⟩ := now.sound.envs _ _ known
    have older := sound.older _ outer
    refine .block (grows.env _ _ known) program thread
      (describes _ _ _ known thread (Nat.le_refl _) described) outer (ih fun ref known layer found
        thread less => describes ref known layer found thread (by omega))

theorem since (within : course.Within now env blocks layers) {task : ThreadRef} {floor : Nat}
    (own : now.shape.Owns task course.thread) (since : now.Since task floor later)
    (all : now.world.envs.size ≤ floor) : course.Within later env blocks layers := by
  refine within.carry since.grows fun ref known layer found thread _ describes => ?_
  obtain ⟨-, there, present, -⟩ := now.sound.envs ref known found
  have inside : ref.index < now.world.envs.size := (Array.getElem?_eq_some_iff.mp present).1
  exact describes.kept since.grows
    (since.kept ref known found (thread ▸ own) (Nat.lt_of_lt_of_le inside all))

theorem serves {target : List Layer} (within : course.Within now env blocks layers)
    (serves : Serves layers target) : course.Within now env blocks target := by
  induction within generalizing target with
  | root known program thread described outer plain length =>
    cases serves with
    | cons head tail =>
      refine .root known program thread (described.serves head) (outer.serves tail) ?_
        (tail.length_eq ▸ length)
      exact Serves.plain tail plain
  | block known program thread described outer _ ih =>
    cases serves with
    | cons head tail => exact .block known program thread (described.serves head) outer (ih tail)

theorem top {layer other : Layer} (within : course.Within now env blocks (layer :: layers))
    (describes : ∀ known, now.shape.env env = some known → layer.Describes now env known →
      other.Describes now env known) : course.Within now env blocks (other :: layers) := by
  cases within with
  | root known program thread described outer plain length =>
    exact .root known program thread (describes _ known described) outer plain length
  | block known program thread described outer rest =>
    exact .block known program thread (describes _ known described) outer rest

theorem length_eq (within : course.Within now env blocks layers) :
    layers.length = blocks.length + 1 + course.base := by
  induction within with
  | root _ _ _ _ _ _ length => simp only [List.length_cons, List.length_nil]; omega
  | block _ _ _ _ _ _ ih => simp only [List.length_cons, ih]; omega

theorem innermost (within : course.Within now env blocks layers) :
    ∃ known layer rest, now.shape.env env = some known ∧ known.thread = course.thread ∧
      layers = layer :: rest ∧ layer.Describes now env known := by
  cases within with
  | root known _ thread described => exact ⟨_, _, _, known, thread, rfl, described⟩
  | block known _ thread described => exact ⟨_, _, _, known, thread, rfl, described⟩

theorem second {inner outer : Layer} (within : course.Within now env blocks (inner :: outer :: layers)) :
    ∃ known, now.shape.env (now.world.up env 1) = some known ∧
      outer.Describes now (now.world.up env 1) known := by
  have up {ref : EnvRef} {known : EnvShape} (found : now.shape.env env = some known)
      (isOuter : known.outer = some ref) : now.world.up env 1 = ref := by
    obtain ⟨-, there, present, sound⟩ := now.sound.envs env known found
    simp [World.up, World.outer?, present, sound.outer, isOuter]
  cases within with
  | @root known _ _ found _ _ _ spans plain _ =>
    generalize isOuter : known.outer = around at spans
    cases spans with
    | cons isKnown level ready _ =>
      rw [up found isOuter]
      obtain ⟨parked, held⟩ := plain outer (.head _)
      exact ⟨_, isKnown, level, ready, by simp [parked], by simp [held]⟩
  | block found _ _ _ isOuter rest =>
    rw [up found isOuter]
    obtain ⟨known, layer, _, isKnown, -, same, described⟩ := rest.innermost
    obtain ⟨rfl, -⟩ := List.cons.inj same
    exact ⟨known, isKnown, described⟩

theorem block_spec (within : course.Within now env blocks layers) :
    (∀ ref ∈ blocks, (∃ known, now.shape.env ref = some known ∧ known.thread = course.thread) ∧
      ref.index ≤ env.index) ∧ blocks.Nodup ∧ course.root.index ≤ env.index := by
  induction within with
  | root => simp
  | @block env outer known blocks layer layers isKnown program thread described isOuter within ih =>
    obtain ⟨each, nodup, young⟩ := ih
    obtain ⟨-, there, present, sound⟩ := now.sound.envs env known isKnown
    have older := sound.older outer isOuter
    refine ⟨?_, List.nodup_cons.mpr ⟨fun member => ?_, nodup⟩, by omega⟩
    · intro ref member
      rcases List.mem_cons.mp member with rfl | member
      · exact ⟨⟨known, isKnown, thread⟩, Nat.le_refl _⟩
      · have old := (each ref member).2
        exact ⟨(each ref member).1, by omega⟩
    · have old := (each env member).2
      omega

end Course.Within

theorem Config.load_setIp (config : Config strict) (ref other : EnvRef) (ip : Nat) (slot : Slot) :
    (config.setIp ref ip).world.load other slot = config.world.load other slot := by
  simp only [setIp, World.load, World.setIp, World.env?_updateEnv]
  by_cases same : other = ref
  · cases config.world.env? other <;> simp [same]
  · simp [same]

theorem Config.ip_setIp (config : Config strict) {ref : EnvRef} {known : EnvShape}
    (found : config.shape.env ref = some known) (ip : Nat) :
    (config.setIp ref ip).world.ip ref = ip := by
  obtain ⟨-, there, present, -⟩ := config.sound.envs ref known found
  simp [setIp, World.setIp, World.ip, World.env?_updateEnv, present]

theorem Course.Within.setIp {course : Course strict} {now : Config strict} {env : EnvRef}
    {blocks : List EnvRef} {layers : List Layer} (within : course.Within now env blocks layers)
    (ref : EnvRef) (ip : Nat) : course.Within (now.setIp ref ip) env blocks layers :=
  within.carry (.refl _) fun _ _ _ _ _ _ described =>
    described.carry (.refl _) fun _ _ => now.load_setIp ref _ ip _

/-- What a task has left with one of its threads; nothing is left with the others. -/
structure Config.Leaving (config : Config strict) (task thread : ThreadRef)
    (left : Signal × Option Invocation × Option RuntimeError) : Prop where
  isTask : config.shape.isTask task
  here : (config.world.thread thread).left = left
  others : ∀ ref, config.shape.Owns task ref → ref ≠ thread →
    (config.world.thread ref).left = (.none, none, none)

namespace Config

variable {config : Config strict} {task thread : ThreadRef}
  {left more : Signal × Option Invocation × Option RuntimeError}

theorem Quiet.leaving (quiet : config.Quiet task) (own : config.shape.Owns task thread) :
    config.Leaving task thread (.none, none, none) :=
  ⟨quiet.isTask, quiet.left thread own, fun ref own _ => quiet.left ref own⟩

theorem Leaving.quiet (leaving : config.Leaving task thread (.none, none, none)) :
    config.Quiet task := by
  refine ⟨leaving.isTask, fun ref own => ?_⟩
  by_cases same : ref = thread
  · exact same ▸ leaving.here
  · exact leaving.others ref own same

theorem Leaving.leaves {change : Thread → Thread} {sound} (leaving : config.Leaving task thread left)
    (own : config.shape.Owns task thread)
    (changes : ∀ thread : Thread, thread.left = left → (change thread).left = more) :
    (config.leaves thread change sound).Leaving task thread more := by
  refine ⟨leaving.isTask, ?_, fun ref own differs => ?_⟩
  · rw [Config.thread_leaves (config.owner_isSome leaving.isTask own)]
    exact changes _ leaving.here
  · rw [Config.thread_leaves_ne differs]
    exact leaving.others ref own differs

end Config

/-- Where a task is with a call, since a state `start` in which it had entered none of the blocks. -/
structure Course.Busy (course : Course strict) (start : Config strict) (task : ThreadRef)
    (floor : Nat) (env : EnvRef) (blocks : List EnvRef) (layers : List Layer) (now : Config strict) :
    Prop where
  stays : start.Stays task floor now
  own : now.shape.Owns task course.thread
  young : floor ≤ course.root.index
  within : course.Within now env blocks layers
  opens : ∀ ref known, now.shape.env ref = some known → now.shape.Owns task known.thread →
    (now.world.IsOpen ref ↔ start.world.IsOpen ref ∨ ref ∈ blocks)
  fresh : ∀ ref ∈ blocks, start.world.envs.size ≤ ref.index

namespace Course.Busy

variable {course : Course strict} {start now later : Config strict} {task : ThreadRef}
  {floor : Nat} {env : EnvRef} {blocks : List EnvRef} {layers target : List Layer}

theorem envYoung (busy : course.Busy start task floor env blocks layers now) :
    floor ≤ env.index := Nat.le_trans busy.young busy.within.block_spec.2.2

theorem hosts (busy : course.Busy start task floor env blocks layers now)
    (quiet : now.Quiet task) {lower : Nat} (less : lower ≤ now.world.envs.size) :
    now.Hosts task lower env layers := by
  obtain ⟨known, found, -, thread⟩ := busy.within.known
  exact ⟨quiet, busy.within.spans, ⟨known, found, thread ▸ busy.own⟩, less⟩

theorem next (busy : course.Busy start task floor env blocks layers now)
    (since : now.Since task floor later) (within : course.Within later env blocks target) :
    course.Busy start task floor env blocks target later := by
  refine ⟨busy.stays.trans since.toStays, since.owns _ busy.own, busy.young, within, ?_, busy.fresh⟩
  intro ref known found own
  have known_now (there : EnvShape) (isThere : now.shape.env ref = some there) :
      now.shape.env ref = some known := by
    rw [isThere, ← found, since.grows.env _ _ isThere]
  have before (isThere : now.shape.env ref = some known) :=
    busy.opens ref known isThere (Config.owns_before since.grows (now.sound.envs ref known isThere).1 own)
  refine (since.blocks ref known found own).trans ⟨fun isOpen => ?_, fun side => ?_⟩
  · obtain ⟨there, isThere⟩ := now.known_of_isOpen isOpen
    exact (before (known_now there isThere)).mp isOpen
  · suffices ∃ there, now.shape.env ref = some there by
      obtain ⟨there, isThere⟩ := this
      exact (before (known_now there isThere)).mpr side
    rcases side with isOpen | member
    · obtain ⟨there, isThere⟩ := start.known_of_isOpen isOpen
      exact ⟨there, busy.stays.grows.env _ _ isThere⟩
    · obtain ⟨⟨there, isThere, -⟩, -⟩ := busy.within.block_spec.1 ref member
      exact ⟨there, isThere⟩

theorem since {upper : Nat} (busy : course.Busy start task floor env blocks layers now)
    (since : now.Since task upper later) (all : now.world.envs.size ≤ upper) :
    course.Busy start task floor env blocks layers later := by
  have size : floor ≤ now.world.envs.size := by
    obtain ⟨known, found, -, -⟩ := busy.within.known
    obtain ⟨-, there, present, -⟩ := now.sound.envs env known found
    have inside : env.index < now.world.envs.size := (Array.getElem?_eq_some_iff.mp present).1
    have young := busy.envYoung
    omega
  exact busy.next (since.weaken (Nat.le_trans size all)) (busy.within.since busy.own since all)

theorem calm (busy : course.Busy start task floor env blocks layers now)
    (calm : now.Calm later) : course.Busy start task floor env blocks layers later := by
  have since : now.Since task now.world.envs.size later := calm.since
  exact busy.since since (Nat.le_refl _)

theorem leaves {thread : ThreadRef} {change : Thread → Thread} {sound}
    (busy : course.Busy start task floor env blocks layers now) :
    course.Busy start task floor env blocks layers (now.leaves thread change sound) :=
  busy.next Config.since_leaves <| busy.within.carry (.refl _) fun _ _ _ _ _ _ described =>
    described.carry (.refl _) fun _ _ => rfl

theorem store {known : EnvShape} {slot : Slot} {value : Value}
    (busy : course.Busy start task floor env blocks layers now)
    (found : now.shape.env env = some known) (has : known.level.Has slot) (notAny : slot.type ≠ .any)
    (inhabits : value.Inhabits now.shape slot.type) :
    course.Busy start task floor env blocks layers (now.store found has inhabits) := by
  have moves : now.Moves env (now.store found has inhabits) := Config.moves_store
  refine busy.next (moves.since busy.envYoung) (busy.within.carry moves.grows ?_)
  intro ref other layer isOther _ _ described
  refine described.carry moves.grows fun target guarded => World.load_store_ne _ _ ?_
  rintro ⟨rfl, slotClass, index⟩
  obtain rfl : other = known := Option.some.inj (isOther.symm.trans found)
  rw [← described.level] at guarded
  rcases guarded with parks | isSealed
  · exact notAny (has.1.unique parks.1.1 slotClass index ▸ parks.2.2.1)
  · exact has.ne_sealed isSealed ⟨slotClass, index⟩

theorem park {known : EnvShape} {layer : Layer} {slot : Slot} {value : Value} {type : Ty}
    (busy : course.Busy start task floor env blocks (layer :: layers) now)
    (found : now.shape.env env = some known) (parks : layer.level.Parks slot)
    (has : known.level.Has slot) (inhabits : value.Inhabits now.shape slot.type)
    (is : strict → value.Is type) :
    course.Busy start task floor env blocks (parking slot type (layer :: layers))
      (now.store found has inhabits) := by
  have moves : now.Moves env (now.store found has inhabits) := Config.moves_store
  refine busy.next (moves.since busy.envYoung) ?_
  have around {ref : EnvRef} {inner : List EnvRef} {rest : List Layer} (less : ref.index < env.index)
      (within : course.Within now ref inner rest) :
      course.Within (now.store found has inhabits) ref inner rest := by
    refine within.carry moves.grows fun other there layer isThere _ older described => ?_
    have differs : other ≠ env := by
      rintro rfl
      omega
    exact described.kept moves.grows (moves.kept other there isThere differs)
  have loaded : ((now.store found has inhabits).world.load env slot) = value := by
    obtain ⟨-, there, present, sound⟩ := now.sound.envs env known found
    have inside : slot.index < there.slots.objects.size := sound.objects ▸ has.object_lt parks.2.1
    simp [Config.store, World.load, World.store, World.env?_updateEnv, present, Slots.load, parks.2.1,
      Slots.object_store, inside]
  have described {there : EnvShape} (described : layer.Describes now env there) :
      ({ layer with parked := [(slot, type)] } : Layer).Describes (now.store found has inhabits) env
        there := by
    refine ⟨described.level,
      fun isStrict slot member => moves.grows.ready _ _ (described.ready isStrict slot member),
      fun entry member => ?_, fun entry member => ?_⟩
    · obtain rfl := List.mem_singleton.mp member
      exact ⟨parks, fun isStrict => loaded.symm ▸ is isStrict⟩
    · obtain ⟨isSealed, holds⟩ := described.held entry member
      refine ⟨isSealed, (World.load_store_ne _ _ fun same => ?_).trans holds⟩
      exact parks.1.ne_sealed isSealed same.2
  cases busy.within with
  | root isKnown program thread top outer plain length =>
    exact .root (moves.grows.env _ _ isKnown) program thread (described top)
      (outer.grows moves.grows) plain length
  | block isKnown program thread top outer rest =>
    obtain ⟨-, there, present, sound⟩ := now.sound.envs _ _ isKnown
    exact .block (moves.grows.env _ _ isKnown) program thread (described top) outer
      (around (sound.older _ outer) rest)

theorem stored (busy : course.Busy start task floor env blocks layers now) {slots : List Slot}
    (ready : strict → ∀ slot ∈ slots, now.shape.ready env slot) :
    course.Busy start task floor env blocks (stored slots layers) now := by
  refine { busy with within := ?_ }
  have within := busy.within
  obtain ⟨_, layer, rest, _, _, rfl, _⟩ := within.innermost
  refine within.top fun known found described =>
    ⟨described.level, ?_, described.parked, described.held⟩
  intro isStrict slot member
  rcases List.mem_append.mp member with isNew | old
  · exact ready isStrict slot isNew
  · exact described.ready isStrict slot old

theorem serves (busy : course.Busy start task floor env blocks layers now)
    (serves : Serves layers target) : course.Busy start task floor env blocks target now :=
  { busy with within := busy.within.serves serves }

end Course.Busy

namespace Config

section Blocks

variable {config : Config strict} {task : ThreadRef} {floor : Nat} {ref : EnvRef} {known : EnvShape}

def enter (config : Config strict) {ref : EnvRef} {known : EnvShape}
    (found : config.shape.env ref = some known) (fresh : ref ∉ config.world.entered) :
    Config strict where
  shape := config.shape
  world := { config.world with entered := ref :: config.world.entered }
  sound :=
    { config.sound with
      blocks :=
        { entered := List.nodup_cons.mpr ⟨fresh, config.sound.blocks.entered⟩
          exited := config.sound.blocks.exited
          left := fun _ member => .tail _ (config.sound.blocks.left member)
          known := List.forall_mem_cons.mpr ⟨by simp [found], config.sound.blocks.known⟩ } }

def exit (config : Config strict) {ref : EnvRef} (isOpen : config.world.IsOpen ref) :
    Config strict where
  shape := config.shape
  world := { config.world with exited := ref :: config.world.exited }
  sound :=
    { config.sound with
      blocks :=
        { config.sound.blocks with
          exited := List.nodup_cons.mpr ⟨isOpen.2, config.sound.blocks.exited⟩
          left := List.cons_subset.mpr ⟨isOpen.1, config.sound.blocks.left⟩ } }

theorem isOpen_enter (found : config.shape.env ref = some known)
    (fresh : ref ∉ config.world.entered) (other : EnvRef) :
    (config.enter found fresh).world.IsOpen other ↔ config.world.IsOpen other ∨ other = ref := by
  have notLeft : ref ∉ config.world.exited := fun member => fresh (config.sound.blocks.left member)
  simp only [enter, World.IsOpen, List.mem_cons]
  constructor
  · rintro ⟨rfl | inside, outside⟩
    · exact .inr rfl
    · exact .inl ⟨inside, outside⟩
  · rintro (⟨inside, outside⟩ | rfl)
    · exact ⟨.inr inside, outside⟩
    · exact ⟨.inl rfl, notLeft⟩

theorem isOpen_exit (isOpen : config.world.IsOpen ref) (other : EnvRef) :
    (config.exit isOpen).world.IsOpen other ↔ config.world.IsOpen other ∧ other ≠ ref := by
  simp only [exit, World.IsOpen, List.mem_cons, not_or]
  constructor
  · rintro ⟨inside, differs, outside⟩
    exact ⟨⟨inside, outside⟩, differs⟩
  · rintro ⟨⟨inside, outside⟩, differs⟩
    exact ⟨inside, differs, outside⟩

theorem stays_enter (found : config.shape.env ref = some known)
    (fresh : ref ∉ config.world.entered) :
    config.Stays task floor (config.enter found fresh) :=
  ⟨.refl _, Nat.le_refl _, fun _ own => own, fun _ _ _ _ _ => .refl _ _ _⟩

theorem stays_exit (isOpen : config.world.IsOpen ref) :
    config.Stays task floor (config.exit isOpen) :=
  ⟨.refl _, Nat.le_refl _, fun _ own => own, fun _ _ _ _ _ => .refl _ _ _⟩

theorem advances_enter (found : config.shape.env ref = some known)
    (fresh : ref ∉ config.world.entered) (own : config.shape.Owns task known.thread) :
    config.Advances task (config.enter found fresh) := by
  refine { Advances.refl task config with blocks := ?_, pending := ⟨[], by simp [enter]⟩ }
  intro other there isThere _ foreign
  refine (isOpen_enter found fresh other).trans (or_iff_left ?_)
  rintro rfl
  obtain rfl : there = known := Option.some.inj (isThere.symm.trans found)
  exact foreign own

theorem advances_exit (found : config.shape.env ref = some known)
    (isOpen : config.world.IsOpen ref) (own : config.shape.Owns task known.thread) :
    config.Advances task (config.exit isOpen) := by
  refine { Advances.refl task config with blocks := ?_, pending := ⟨[], by simp [exit]⟩ }
  intro other there isThere _ foreign
  refine (isOpen_exit isOpen other).trans (and_iff_left ?_)
  rintro rfl
  obtain rfl : there = known := Option.some.inj (isThere.symm.trans found)
  exact foreign own

end Blocks

end Config

namespace World

omit [Natives] in
theorem push_spec {world : World} {ref : EnvRef} {env : Env} (found : world.env? ref = some env)
    (objects words : Nat) :
    world.push ref objects words =
      ((world.acquire env.thread (some ref) env.program env.ip objects words).1,
        { (world.acquire env.thread (some ref) env.program env.ip objects words).2 with
          entered := ⟨world.envs.size⟩ :: world.entered }) := by
  simp only [push, found]
  rfl

end World

namespace Course.Busy

variable {course : Course strict} {start now : Config strict} {task : ThreadRef}
  {floor : Nat} {env : EnvRef} {blocks : List EnvRef} {layers : List Layer}

theorem push (busy : course.Busy start task floor env blocks layers now)
    (quiet : now.Quiet task) (level : Level) :
    ∃ (inner : EnvRef) (later : Config strict),
      now.world.push env level.frame.objects level.frame.words = (inner, later.world) ∧
      now.Advances task later ∧ later.Quiet task ∧
      course.Busy start task floor inner (inner :: blocks) ({ level } :: layers) later ∧
      later.world.ip inner = now.world.ip env := by
  obtain ⟨known, found, program, thread⟩ := busy.within.known
  obtain ⟨inside, there, present, sound⟩ := now.sound.envs env known found
  have older : env.index < now.world.envs.size := (Array.getElem?_eq_some_iff.mp present).1
  obtain ⟨middle, acquired, calm, isNew, ip, -⟩ :=
    @Config.acquire _ _ now known.thread (some env) there.program there.ip level inside
      (by rintro _ ⟨⟩; exact older)
  set inner : EnvRef := ⟨now.world.envs.size⟩ with isInner
  have fresh : inner ∉ middle.world.entered := by
    intro member
    rw [calm.blocks.1] at member
    have isSome := now.sound.blocks.known inner member
    rw [now.env_none_of_size inner (Nat.le_refl _)] at isSome
    simp at isSome
  have busyMiddle := busy.calm calm
  have own : middle.shape.Owns task known.thread := thread ▸ busyMiddle.own
  refine ⟨inner, middle.enter isNew fresh, ?_,
    calm.advances.trans (Config.advances_enter isNew fresh own), ?_,
    ⟨busyMiddle.stays.trans (Config.stays_enter isNew fresh), busyMiddle.own, busy.young,
      ?_, ?_, ?_⟩, ?_⟩
  · rw [World.push_spec present, sound.thread, acquired]
    exact congrArg (fun entered => (inner, { middle.world with entered := inner :: entered }))
      calm.blocks.1.symm
  · exact ⟨(calm.quiet quiet).isTask, (calm.quiet quiet).left⟩
  · have around : course.Within (middle.enter isNew fresh) env blocks layers :=
      busyMiddle.within.carry (.refl _) fun _ _ _ _ _ _ described =>
        described.carry (.refl _) fun _ _ => rfl
    exact .block isNew (sound.program.trans program) thread ⟨rfl, by simp, by simp, by simp⟩ rfl around
  · intro ref other isOther owned
    rw [Config.isOpen_enter isNew fresh ref, busyMiddle.opens ref other isOther owned, List.mem_cons]
    tauto
  · refine List.forall_mem_cons.mpr ⟨?_, busy.fresh⟩
    exact busy.stays.envs
  · show middle.world.ip inner = _
    rw [ip]
    simp [World.ip, present]

theorem exit {outer : EnvRef} {layer : Layer}
    (busy : course.Busy start task floor env (env :: blocks) (layer :: layers) now)
    (quiet : now.Quiet task) (around : course.Within now outer blocks layers) :
    ∃ later : Config strict, now.world.releaseTo env outer = later.world ∧
      now.Advances task later ∧ later.Quiet task ∧
      course.Busy start task floor outer blocks layers later ∧
      ∀ ref known, now.shape.env ref = some known → later.world.ip ref = now.world.ip ref := by
  obtain ⟨known, found, -, thread⟩ := busy.within.known
  have own : now.shape.Owns task known.thread := thread ▸ busy.own
  have isOpen : now.world.IsOpen env := (busy.opens env known found own).mpr (.inr (.head _))
  have alike := now.world.alike_releaseTo env outer
  have calm := (now.exit isOpen).calm_alike alike
  have quiet' : (now.exit isOpen).Quiet task := ⟨quiet.isTask, quiet.left⟩
  have closed : course.Busy start task floor outer blocks layers (now.exit isOpen) := by
    refine ⟨busy.stays.trans (Config.stays_exit isOpen), busy.own, busy.young, ?_, ?_,
      (List.forall_mem_cons.mp busy.fresh).2⟩
    · exact around.carry (.refl _) fun _ _ _ _ _ _ described => described.carry (.refl _) fun _ _ => rfl
    · intro ref other isOther owned
      have notStart : ¬start.world.IsOpen env := by
        intro isOpen
        obtain ⟨early, isEarly⟩ := start.known_of_isOpen isOpen
        rw [start.env_none_of_size env (busy.fresh env (.head _))] at isEarly
        simp at isEarly
      have notIn : env ∉ blocks := (List.nodup_cons.mp busy.within.block_spec.2.1).1
      rw [Config.isOpen_exit isOpen ref, busy.opens ref other isOther owned, List.mem_cons]
      by_cases same : ref = env
      · subst same
        simp [notStart, notIn]
      · simp [same]
  refine ⟨(now.exit isOpen).alike alike, rfl,
    (Config.advances_exit found isOpen own).trans calm.advances, calm.quiet quiet',
    closed.calm calm, ?_⟩
  intro ref there isThere
  exact (calm.kept ref there isThere).1

theorem outer (busy : course.Busy start task floor env blocks layers now)
    (inside : blocks ≠ []) :
    ∃ (outer : EnvRef) (rest : List EnvRef) (layer : Layer) (others : List Layer),
      blocks = env :: rest ∧ layers = layer :: others ∧ now.world.outer? env = some outer ∧
      course.Within now outer rest others := by
  cases busy.within with
  | root => exact absurd rfl inside
  | @block _ outer known rest layer others found _ _ _ isOuter around =>
    obtain ⟨-, there, present, sound⟩ := now.sound.envs env known found
    refine ⟨outer, rest, layer, others, rfl, rfl, ?_, around⟩
    simp [World.outer?, present, sound.outer, isOuter]

theorem leave (busy : course.Busy start task floor env blocks layers now)
    (quiet : now.Quiet task) (hops : Nat) (inside : hops ≤ blocks.length) :
    ∃ (outer : EnvRef) (later : Config strict), now.world.leave env hops = (outer, later.world) ∧
      now.Advances task later ∧ later.Quiet task ∧
      course.Busy start task floor outer (blocks.drop hops) (layers.drop hops) later := by
  induction hops generalizing env blocks layers now with
  | zero => exact ⟨env, now, rfl, .refl _ _, quiet, busy⟩
  | succ hops ih =>
    have some : blocks ≠ [] := by
      rintro rfl
      simp at inside
    obtain ⟨outer, rest, layer, others, rfl, rfl, isOuter, around⟩ := busy.outer some
    obtain ⟨middle, released, first, quietMiddle, busyMiddle, -⟩ := busy.exit quiet around
    obtain ⟨last, later, left, second, quietLater, busyLater⟩ :=
      ih busyMiddle quietMiddle (by simpa using inside)
    refine ⟨last, later, ?_, first.trans second, quietLater, busyLater⟩
    simp only [World.leave, isOuter, released, left]

theorem pop (busy : course.Busy start task floor env blocks layers now) (quiet : now.Quiet task)
    (inside : blocks ≠ []) :
    ∃ (outer : EnvRef) (later : Config strict), now.world.pop env = (outer, later.world) ∧
      now.Advances task later ∧ later.Quiet task ∧
      course.Busy start task floor outer blocks.tail layers.tail later ∧
      later.world.ip outer = now.world.ip env := by
  obtain ⟨outer, rest, layer, others, rfl, rfl, isOuter, around⟩ := busy.outer inside
  obtain ⟨known, found, -, thread⟩ := around.known
  have own : now.shape.Owns task known.thread := thread ▸ busy.own
  have young : floor ≤ outer.index := Nat.le_trans busy.young around.block_spec.2.2
  have moves := now.moves_setIp outer (now.world.ip env)
  have busyMoved := busy.next (moves.since young) (busy.within.setIp outer (now.world.ip env))
  obtain ⟨later, released, second, quietLater, busyLater, ips⟩ :=
    busyMoved.exit (moves.quiet quiet) (around.setIp outer (now.world.ip env))
  refine ⟨outer, later, ?_, (moves.advances found own).trans second, quietLater, busyLater, ?_⟩
  · simp only [World.pop, isOuter]
    rw [← released]
    rfl
  · rw [ips outer known found]
    exact now.ip_setIp found _

theorem unwind (busy : course.Busy start task floor env blocks layers now)
    (quiet : now.Quiet task) {depth : Nat} (deep : blocks.length < depth) :
    ∃ later : Config strict,
      World.unwindWithin course.root env now.world depth = (course.root, later.world) ∧
      now.world.leave env blocks.length = (course.root, later.world) ∧
      now.Advances task later ∧ later.Quiet task ∧
      ∃ layers, course.Busy start task floor course.root [] layers later := by
  induction blocks generalizing env layers now depth with
  | nil =>
    obtain ⟨depth, rfl⟩ : ∃ less, depth = less + 1 := ⟨depth - 1, by omega⟩
    obtain rfl : env = course.root := by cases busy.within; rfl
    exact ⟨now, by simp [World.unwindWithin], rfl, .refl _ _, quiet, layers, busy⟩
  | cons block blocks ih =>
    obtain ⟨depth, rfl⟩ : ∃ less, depth = less + 1 := ⟨depth - 1, by omega⟩
    obtain ⟨outer, rest, layer, others, same, rfl, isOuter, around⟩ := busy.outer (by simp)
    obtain ⟨rfl, rfl⟩ := List.cons.inj same
    have notRoot : block ≠ course.root := by
      rintro rfl
      have older := around.block_spec.2.2
      obtain ⟨known, found, -, -⟩ := busy.within.known
      obtain ⟨-, there, present, sound⟩ := now.sound.envs _ known found
      have isOuter' : known.outer = some outer := by
        rw [← sound.outer]
        simpa [World.outer?, present] using isOuter
      have strictly := sound.older outer isOuter'
      omega
    obtain ⟨middle, released, first, quietMiddle, busyMiddle, -⟩ := busy.exit quiet around
    obtain ⟨later, unwound, left, second, quietLater, busyLater⟩ :=
      ih busyMiddle quietMiddle (by simpa using deep)
    refine ⟨later, ?_, ?_, first.trans second, quietLater, busyLater⟩
    · simp only [World.unwindWithin, notRoot, if_false, isOuter, released, unwound]
    · simp only [List.length_cons, World.leave, isOuter, released, left]

theorem since_root (busy : course.Busy start task floor env [] layers now) :
    start.Since task floor now :=
  ⟨busy.stays, fun ref known found own => by simpa using busy.opens ref known found own⟩

end Course.Busy

end MiniGo
