import MiniGo.HostFunction
import MiniGo.Proofs.Operations
/-!
Code that has been given nothing of what was there before. It cannot come by any of it: whatever it
makes refers to what it has made itself, and all that was there stays as it was.
-/

namespace MiniGo

/-- An array that keeps the items of an older one; those that it has more are new. -/
structure Lengthens {α : Type} (old : Array α) (isNew : α → Prop) (now : Array α) : Prop where
  kept : ∀ index < old.size, now[index]? = old[index]?
  added : ∀ index item, old.size ≤ index → now[index]? = some item → isNew item

namespace Lengthens

variable {α : Type} {old now : Array α} {isNew : α → Prop}

theorem refl (old : Array α) (isNew : α → Prop) : Lengthens old isNew old := by
  refine ⟨fun _ _ => rfl, fun index item past found => ?_⟩
  obtain ⟨inside, -⟩ := Array.getElem?_eq_some_iff.mp found
  omega

theorem size_le (lengthens : Lengthens old isNew now) : old.size ≤ now.size := by
  by_contra shorter
  have inside : now.size < old.size := by omega
  have same := lengthens.kept now.size inside
  rw [Array.getElem?_eq_getElem inside, Array.getElem?_eq_none (Nat.le_refl _)] at same
  cases same

theorem push (lengthens : Lengthens old isNew now) {item : α} (new : isNew item) :
    Lengthens old isNew (now.push item) := by
  have size := lengthens.size_le
  refine ⟨fun index inside => ?_, fun index found past same => ?_⟩
  · rw [Array.getElem?_push, if_neg (by omega)]
    exact lengthens.kept index inside
  · rw [Array.getElem?_push] at same
    split at same
    · exact Option.some.inj same ▸ new
    · exact lengthens.added index found past same

theorem modify (lengthens : Lengthens old isNew now) {position : Nat} (past : old.size ≤ position)
    {change : α → α} (keeps : ∀ item, isNew item → isNew (change item)) :
    Lengthens old isNew (now.modify position change) := by
  refine ⟨fun index inside => ?_, fun index item beyond found => ?_⟩
  · rw [Array.getElem?_modify, if_neg (by omega)]
    exact lengthens.kept index inside
  · rw [Array.getElem?_modify] at found
    split at found
    · obtain ⟨former, isFormer, rfl⟩ := Option.map_eq_some_iff.mp found
      exact keeps former (lengthens.added index former beyond isFormer)
    · exact lengthens.added index item beyond found

theorem set (lengthens : Lengthens old isNew now) {position : Nat} (past : old.size ≤ position)
    {item : α} (new : isNew item) : Lengthens old isNew (now.setIfInBounds position item) := by
  refine ⟨fun index inside => ?_, fun index found beyond same => ?_⟩
  · rw [Array.getElem?_setIfInBounds_ne (by omega)]
    exact lengthens.kept index inside
  · rw [Array.getElem?_setIfInBounds] at same
    split at same
    · split at same
      · exact Option.some.inj same ▸ new
      · cases same
    · exact lengthens.added index found beyond same

theorem getD (lengthens : Lengthens old isNew now) {position : Nat} (past : old.size ≤ position)
    {default : α} (new : isNew default) : isNew (now.getD position default) := by
  rw [Array.getD_eq_getD_getElem?]
  cases found : now[position]? with
  | none => exact new
  | some item => exact lengthens.added position item past found

end Lengthens

section New

variable (before : World)

def EnvRef.New (ref : EnvRef) : Prop := before.envs.size ≤ ref.index

def Value.New : Value → Prop
  | .const _ => True
  | .slice _ ref => before.heap.slices.size ≤ ref.index
  | .map _ _ ref => before.heap.maps.size ≤ ref.index
  | .chan _ ref => before.exchange.channels.size ≤ ref.index
  | .func ⟨_, .closure _ env⟩ => env.New before
  | .func ⟨_, .native _⟩ | .func ⟨_, .builtin _⟩ => True

def AllNew (values : List Value) : Prop := ∀ value ∈ values, value.New before

def ThreadRef.Free (ref : ThreadRef) : Prop := (before.thread ref).deferred = none

structure Env.New (env : Env) : Prop where
  objects : ∀ value ∈ env.slots.objects, value.New before
  outer : ∀ outer, env.outer = some outer → outer.New before
  thread : env.thread.Free before

structure Channel.New (channel : Channel) : Prop where
  buffer : AllNew before channel.buffer
  offers : ∀ offer ∈ channel.offers, offer.value.New before

def Entries.New (entries : Entries) : Prop := ∀ entry ∈ entries, entry.2.New before

structure Invocation.New (call : Invocation) : Prop where
  callee : call.callee.New before
  args : AllNew before call.args

structure Spawn.New (spawn : Spawn) : Prop where
  invocation : spawn.invocation.New before
  thread : spawn.thread.Free before

/-- Nothing that was there has changed, and nothing new refers to it. -/
structure Heap.Preserves (heap : Heap) : Prop where
  slices : Lengthens before.heap.slices (fun items => AllNew before items.toList) heap.slices
  maps : Lengthens before.heap.maps (Entries.New before) heap.maps

def Exchange.Preserves (exchange : Exchange) : Prop :=
  Lengthens before.exchange.channels (Channel.New before) exchange.channels

end New

/-- Nothing that was there has changed, and nothing new refers to it; nor do the calls that are to be
made. -/
structure World.Preserves (world before : World) : Prop where
  envs : Lengthens before.envs (Env.New before) world.envs
  heap : world.heap.Preserves before
  exchange : world.exchange.Preserves before
  first : ThreadRef.Free before ⟨0⟩
  threads : before.threads.size ≤ world.threads.size
  deferred : ∀ ref call, ref.Free before → (world.thread ref).deferred = some call → call.New before
  pending : ∀ spawn ∈ world.pending, spawn.New before

variable {before world : World} {ref : EnvRef} {value : Value}

section Values

@[simp] theorem new_const (constant : Const) : (Value.const constant).New before := trivial

@[simp] theorem new_zero (type : Ty) : (Value.zero type).New before := trivial

@[simp] theorem new_ofBits (bits : UInt64) (type : Ty) : (Value.ofBits bits type).New before := trivial

@[simp] theorem allNew_nil : AllNew before [] := by simp [AllNew]

theorem AllNew.cons {values : List Value} (first : value.New before) (rest : AllNew before values) :
    AllNew before (value :: values) := List.forall_mem_cons.mpr ⟨first, rest⟩

theorem AllNew.head {values : List Value} (news : AllNew before values) :
    (values.headD .nil).New before := by
  cases values with
  | nil => trivial
  | cons first rest => exact news first (.head _)

theorem Value.binary_new {op : BinaryOp} {left right : Value}
    (computed : Value.binary op left right = .ok value) : value.New before := by
  unfold Value.binary at computed
  split at computed
  · exact Except.ok.inj computed ▸ trivial
  · exact Except.ok.inj computed ▸ trivial
  · split at computed
    · obtain ⟨constant, -, same⟩ := Except.bind_eq_ok.mp computed
      exact Except.ok.inj same ▸ trivial
    · cases computed

theorem Value.unary_new {op : UnaryOp} {operand : Value}
    (computed : Value.unary op operand = .ok value) : value.New before := by
  unfold Value.unary at computed
  split at computed
  · obtain ⟨constant, -, same⟩ := Except.bind_eq_ok.mp computed
    exact Except.ok.inj same ▸ trivial
  · cases computed

theorem Value.New.convert (new : value.New before) (target : Ty) : (value.convert target).New before := by
  cases value <;> exact new

theorem MapKey.toValue_new (key : MapKey) : key.toValue.New before := by cases key <;> trivial

end Values

namespace Entries

variable {entries : Entries}

theorem New.get? (new : entries.New before) {key : MapKey} (found : entries.get? key = some value) :
    value.New before := by
  obtain ⟨front, back, rfl, -⟩ := List.lookup_eq_some_iff.mp found
  exact new (key, value) (by simp)

theorem New.insert (new : entries.New before) (key : MapKey) (isNew : value.New before) :
    (entries.insert key value).New before := by
  induction entries with
  | nil => simpa [Entries.insert, Entries.New] using isNew
  | cons entry entries ih =>
    obtain ⟨first, rest⟩ := List.forall_mem_cons.mp new
    unfold Entries.insert
    split
    · exact List.forall_mem_cons.mpr ⟨isNew, new⟩
    · split
      · exact List.forall_mem_cons.mpr ⟨isNew, rest⟩
      · exact List.forall_mem_cons.mpr ⟨first, ih rest⟩

theorem New.erase (new : entries.New before) (key : MapKey) : (entries.erase key).New before :=
  fun entry member => new entry (List.mem_of_mem_filter member)

end Entries

namespace Slots

variable {slots : Slots}

theorem load_new (news : ∀ value ∈ slots.objects, value.New before) (slot : Slot) :
    (slots.load slot).New before := by
  unfold Slots.load
  split
  · rw [Slots.object, Array.getD_eq_getD_getElem?]
    cases found : slots.objects[slot.index]? with
    | none => trivial
    | some item => exact news item (Array.mem_of_getElem? found)
  · trivial

theorem store_new (news : ∀ value ∈ slots.objects, value.New before) (slot : Slot)
    (new : value.New before) : ∀ item ∈ (slots.store slot value).objects, item.New before := by
  unfold Slots.store
  split
  · intro item member
    rcases Array.mem_or_eq_of_mem_setIfInBounds member with old | rfl
    · exact news item old
    · exact new
  · exact news

end Slots

namespace World.Preserves

section Environments

theorem env (preserves : world.Preserves before) (new : ref.New before) {env : Env}
    (found : world.env? ref = some env) : env.New before :=
  preserves.envs.added ref.index env new found

theorem threadOf (preserves : world.Preserves before) (new : ref.New before) :
    (world.threadOf ref).Free before := by
  unfold World.threadOf
  split
  · next env found => exact (preserves.env new found).thread
  · exact preserves.first

theorem updateEnv (preserves : world.Preserves before) (new : ref.New before) {change : Env → Env}
    (keeps : ∀ env : Env, env.New before → (change env).New before) :
    (world.updateEnv ref change).Preserves before :=
  { preserves with envs := preserves.envs.modify new keeps }

theorem updateThread (preserves : world.Preserves before) (thread : ThreadRef)
    {change : Thread → Thread}
    (keeps : ∀ thread call, (change thread).deferred = some call →
      thread.deferred = some call ∨ call.New before) :
    (world.updateThread thread change).Preserves before := by
  have threads : before.threads.size ≤ (world.updateThread thread change).threads.size := by
    simpa [World.updateThread] using preserves.threads
  refine { preserves with threads, deferred := fun other call free found => ?_ }
  rw [thread_updateThread] at found
  split at found
  · exact (keeps _ call found).elim (preserves.deferred other call free) id
  · exact preserves.deferred other call free found

theorem retain (preserves : world.Preserves before) (new : ref.New before) :
    (world.retain ref).Preserves before :=
  preserves.updateEnv new fun _ env => ⟨env.objects, env.outer, env.thread⟩

theorem setIp (preserves : world.Preserves before) (new : ref.New before) (ip : Nat) :
    (world.setIp ref ip).Preserves before :=
  preserves.updateEnv new fun _ env => ⟨env.objects, env.outer, env.thread⟩

theorem store (preserves : world.Preserves before) (new : ref.New before) (slot : Slot)
    (isNew : value.New before) : (world.store ref slot value).Preserves before :=
  preserves.updateEnv new fun _ env => ⟨Slots.store_new env.objects slot isNew, env.outer, env.thread⟩

theorem load (preserves : world.Preserves before) (new : ref.New before) (slot : Slot) :
    (world.load ref slot).New before := by
  unfold World.load
  split
  · next env found => exact Slots.load_new (preserves.env new found).objects slot
  · trivial

theorem outer (preserves : world.Preserves before) (new : ref.New before) {outer : EnvRef}
    (found : world.outer? ref = some outer) : outer.New before := by
  obtain ⟨env, isEnv, isOuter⟩ := Option.bind_eq_some_iff.mp found
  exact (preserves.env new isEnv).outer outer isOuter

theorem up (preserves : world.Preserves before) (new : ref.New before) (hops : Nat) :
    (world.up ref hops).New before := by
  induction hops generalizing ref with
  | zero => exact new
  | succ hops ih =>
    unfold World.up
    split
    · next outer found => exact ih (preserves.outer new found)
    · exact new

theorem dropWithin (preserves : world.Preserves before) (new : ref.New before) (depth : Nat) :
    (World.dropWithin ref world depth).Preserves before := by
  induction depth generalizing world ref with
  | zero => exact preserves
  | succ depth ih =>
    unfold World.dropWithin
    split
    · exact preserves
    · next env found =>
      have given : (world.updateEnv ref fun env => { env with holders := env.holders - 1 }).Preserves
          before := preserves.updateEnv new fun _ env => ⟨env.objects, env.outer, env.thread⟩
      split
      · next outer isOuter =>
        split
        · exact ih given ((preserves.env new found).outer outer isOuter)
        · exact given
      · exact given

theorem drop (preserves : world.Preserves before) (new : ref.New before) :
    (world.drop ref).Preserves before := preserves.dropWithin new _

theorem recycle (preserves : world.Preserves before) (thread : ThreadRef) (new : ref.New before) :
    (world.recycle thread ref).Preserves before := by
  unfold World.recycle
  split
  · exact preserves
  · dsimp only
    split
    · refine drop ?_ new
      exact preserves.updateThread thread fun _ _ found => .inl found
    · exact preserves.drop new

theorem releaseTo (preserves : world.Preserves before) (new : ref.New before) {outer : EnvRef}
    (outerNew : outer.New before) : (world.releaseTo ref outer).Preserves before := by
  have retained := preserves.retain outerNew
  have left : { world.retain outer with
      exited := ref :: (world.retain outer).exited }.Preserves before :=
    { retained with }
  exact left.recycle _ new

theorem acquire (preserves : world.Preserves before) {thread : ThreadRef}
    (free : thread.Free before) {outer : Option EnvRef}
    (new : ∀ ref, outer = some ref → ref.New before) (program : Program) (ip objects words : Nat) :
    (world.acquire thread outer program ip objects words).1.New before ∧
      (world.acquire thread outer program ip objects words).2.Preserves before := by
  have taken : (world.updateThread thread
      ({ · with pool := (world.thread thread).pool.tail })).Preserves before :=
    preserves.updateThread thread fun _ _ found => .inl found
  have added {middle : World} (middlePreserves : middle.Preserves before) (slots : Slots)
      (fresh : slots = Slots.fresh objects words) :
      (⟨middle.envs.size⟩ : EnvRef).New before ∧
        { middle with envs := middle.envs.push ⟨slots, ip, program, outer, thread, 1⟩ }.Preserves
          before := by
    refine ⟨middlePreserves.envs.size_le,
      { middlePreserves with envs := middlePreserves.envs.push ⟨?_, new, free⟩ }⟩
    rintro value member
    subst fresh
    obtain ⟨-, rfl⟩ := Array.mem_replicate.mp member
    trivial
  cases outer with
  | none => exact added taken _ (Slots.resize_eq_fresh _ _ _)
  | some ref => exact added (taken.retain (new ref rfl)) _ (Slots.resize_eq_fresh _ _ _)

theorem push (preserves : world.Preserves before) (new : ref.New before) (objects words : Nat) :
    (world.push ref objects words).1.New before ∧
      (world.push ref objects words).2.Preserves before := by
  unfold World.push
  split
  · exact ⟨new, preserves⟩
  · next env found =>
    have entered : { world with
        entered := ⟨world.envs.size⟩ :: world.entered }.Preserves before :=
      { preserves with }
    refine entered.acquire (preserves.env new found).thread ?_ _ _ _ _
    rintro _ ⟨⟩
    exact new

theorem pop (preserves : world.Preserves before) (new : ref.New before) :
    (world.pop ref).1.New before ∧ (world.pop ref).2.Preserves before := by
  unfold World.pop
  split
  · exact ⟨new, preserves⟩
  · next outer found =>
    have outerNew := preserves.outer new found
    exact ⟨outerNew, (preserves.setIp outerNew _).releaseTo new outerNew⟩

theorem leave (preserves : world.Preserves before) (new : ref.New before) (hops : Nat) :
    (world.leave ref hops).1.New before ∧ (world.leave ref hops).2.Preserves before := by
  induction hops generalizing world ref with
  | zero => exact ⟨new, preserves⟩
  | succ hops ih =>
    unfold World.leave
    split
    · exact ⟨new, preserves⟩
    · next outer found =>
      have outerNew := preserves.outer new found
      exact ih (preserves.releaseTo new outerNew) outerNew

theorem unwind (preserves : world.Preserves before) (root : EnvRef) (new : ref.New before) :
    (world.unwind root ref).1.New before ∧ (world.unwind root ref).2.Preserves before := by
  have within (depth : Nat) : (World.unwindWithin root ref world depth).1.New before ∧
      (World.unwindWithin root ref world depth).2.Preserves before := by
    induction depth generalizing world ref with
    | zero => exact ⟨new, preserves⟩
    | succ depth ih =>
      unfold World.unwindWithin
      split
      · exact ⟨new, preserves⟩
      · split
        · exact ⟨new, preserves⟩
        · next outer found =>
          have outerNew := preserves.outer new found
          exact ih (preserves.releaseTo new outerNew) outerNew
  exact within _

theorem write (preserves : world.Preserves before) (text : String) :
    (world.write text).Preserves before := by
  unfold World.write
  split <;> exact { preserves with }

theorem spawnThread (preserves : world.Preserves before) (parent : ThreadRef) :
    (world.spawnThread parent).1.Free before ∧ (world.spawnThread parent).2.Preserves before := by
  have threads := preserves.threads
  constructor
  · have fresh : before.thread ⟨world.threads.size⟩ = {} := by
      simp [World.thread, Array.getD_eq_getD_getElem?, Array.getElem?_eq_none threads]
    exact congrArg Thread.deferred fresh
  refine { preserves with threads := ?_, deferred := fun ref call free found => ?_ }
  · exact Nat.le_trans threads (by simp [World.spawnThread, World.newThread])
  simp only [World.spawnThread, World.newThread, World.thread, Array.getD_eq_getD_getElem?,
    Array.getElem?_push] at found
  split at found
  · cases found
  · exact preserves.deferred ref call free (by simpa [World.thread] using found)

end Environments

end World.Preserves

namespace Heap.Preserves

variable {heap : Heap}

theorem items (preserves : heap.Preserves before) {ref : SliceRef}
    (new : before.heap.slices.size ≤ ref.index) : AllNew before (heap.items ref).toList :=
  preserves.slices.getD new (by simp)

theorem item (preserves : heap.Preserves before) {ref : SliceRef}
    (new : before.heap.slices.size ≤ ref.index) {index : Int64}
    (found : heap.item ref index = .ok value) : value.New before := by
  obtain ⟨position, -, isItem⟩ := Heap.item_eq_ok.mp found
  exact preserves.items new value (by simpa using Array.mem_of_getElem? isItem)

theorem newSlice (preserves : heap.Preserves before) {items : Array Value}
    (news : AllNew before items.toList) :
    before.heap.slices.size ≤ (heap.newSlice items).1.index ∧
      (heap.newSlice items).2.Preserves before :=
  ⟨preserves.slices.size_le, preserves.slices.push news, preserves.maps⟩

theorem setItem (preserves : heap.Preserves before) {ref : SliceRef}
    (new : before.heap.slices.size ≤ ref.index) {index : Int64} (isNew : value.New before)
    {changed : Heap} (done : heap.setItem ref index value = .ok changed) :
    changed.Preserves before := by
  obtain ⟨position, -, same⟩ := Except.bind_eq_ok.mp done
  have keeps (items : Array Value) (news : AllNew before items.toList) :
      AllNew before (items.setIfInBounds position value).toList := by
    intro item member
    rcases Array.mem_or_eq_of_mem_setIfInBounds (Array.mem_def.mpr member) with old | rfl
    · exact news item (Array.mem_def.mp old)
    · exact isNew
  rw [← Except.ok.inj same]
  exact ⟨preserves.slices.modify new keeps, preserves.maps⟩

theorem entries (preserves : heap.Preserves before) {ref : MapRef}
    (new : before.heap.maps.size ≤ ref.index) : (heap.entries ref).New before :=
  preserves.maps.getD new (by simp [Entries.New])

theorem entry (preserves : heap.Preserves before) {ref : MapRef}
    (new : before.heap.maps.size ≤ ref.index) {key : Value} {entry : Option Value}
    (found : heap.entry? ref key = .ok entry) : ∀ value, entry = some value → value.New before := by
  obtain ⟨mapKey, -, same⟩ := Except.bind_eq_ok.mp found
  rintro value rfl
  exact (preserves.entries new).get? (Except.ok.inj same)

theorem newMap (preserves : heap.Preserves before) :
    before.heap.maps.size ≤ heap.newMap.1.index ∧ heap.newMap.2.Preserves before :=
  ⟨preserves.maps.size_le, preserves.slices, preserves.maps.push (by simp [Entries.New])⟩

theorem insertEntry (preserves : heap.Preserves before) {ref : MapRef}
    (new : before.heap.maps.size ≤ ref.index) {key : Value} (isNew : value.New before)
    {changed : Heap} (done : heap.insertEntry ref key value = .ok changed) :
    changed.Preserves before := by
  obtain ⟨mapKey, -, same⟩ := Except.bind_eq_ok.mp done
  rw [← Except.ok.inj same]
  exact ⟨preserves.slices, preserves.maps.set new ((preserves.entries new).insert mapKey isNew)⟩

theorem eraseEntry (preserves : heap.Preserves before) {ref : MapRef}
    (new : before.heap.maps.size ≤ ref.index) {key : Value} {changed : Heap}
    (done : heap.eraseEntry ref key = .ok changed) : changed.Preserves before := by
  obtain ⟨mapKey, -, same⟩ := Except.bind_eq_ok.mp done
  rw [← Except.ok.inj same]
  exact ⟨preserves.slices, preserves.maps.set new ((preserves.entries new).erase mapKey)⟩

end Heap.Preserves

def ChanRef.New (before : World) (ref : ChanRef) : Prop := before.exchange.channels.size ≤ ref.index

namespace Exchange.Preserves

variable {exchange : Exchange} {ref : ChanRef}

theorem channel (preserves : exchange.Preserves before) (new : ref.New before) :
    (exchange.channel ref).New before :=
  Lengthens.getD preserves new ⟨by simp, by simp⟩

theorem update (preserves : exchange.Preserves before) (new : ref.New before)
    {change : Channel → Channel}
    (keeps : ∀ channel : Channel, channel.New before → (change channel).New before) :
    (exchange.update ref change).Preserves before :=
  Lengthens.modify preserves new keeps

theorem notify (preserves : exchange.Preserves before) : exchange.notify.Preserves before := preserves

theorem push (preserves : exchange.Preserves before) (new : ref.New before)
    (isNew : value.New before) : (exchange.update ref (·.push value)).notify.Preserves before :=
  notify (preserves.update new fun _ holds =>
    ⟨fun item member => (List.mem_append.mp member).elim (holds.buffer item) fun last =>
      List.mem_singleton.mp last ▸ isNew, holds.offers⟩)

theorem take (preserves : exchange.Preserves before) (new : ref.New before) :
    (∀ value, (exchange.take ref).1 = some value → value.New before) ∧
      (exchange.take ref).2.Preserves before := by
  have holds := (preserves.channel new).buffer
  unfold Exchange.take
  split
  · exact ⟨by simp, preserves⟩
  · next value rest isBuffer =>
    rw [isBuffer] at holds
    obtain ⟨first, others⟩ := List.forall_mem_cons.mp holds
    refine ⟨fun found same => Option.some.inj same ▸ first, notify (preserves.update new ?_)⟩
    exact fun channel old => ⟨others, old.offers⟩

theorem firstUnclaimed_mem {offers rest : List Offer} {offer : Offer}
    (found : exchange.firstUnclaimed offers = some (offer, rest)) :
    offer ∈ offers ∧ ∀ other ∈ rest, other ∈ offers := by
  induction offers with
  | nil => simp [Exchange.firstUnclaimed] at found
  | cons first offers ih =>
    unfold Exchange.firstUnclaimed at found
    split at found
    · cases found
      exact ⟨.head _, fun other member => .tail _ member⟩
    · obtain ⟨isOffer, others⟩ := ih found
      exact ⟨.tail _ isOffer, fun other member => .tail _ (others other member)⟩

theorem claimOffer (preserves : exchange.Preserves before) (new : ref.New before) :
    (∀ value, (exchange.claimOffer ref).1 = some value → value.New before) ∧
      (exchange.claimOffer ref).2.Preserves before := by
  have holds := (preserves.channel new).offers
  unfold Exchange.claimOffer
  split
  · exact ⟨by simp, preserves.update new fun channel old => ⟨old.buffer, by simp⟩⟩
  · next offer rest found =>
    obtain ⟨isOffer, others⟩ := firstUnclaimed_mem found
    have left : (exchange.update ref ({ · with offers := rest })).Preserves before :=
      preserves.update new fun _ old =>
        ⟨old.buffer, fun other member => holds other (others other member)⟩
    exact ⟨fun value same => Option.some.inj same ▸ holds offer isOffer, left⟩

theorem enterRecv (preserves : exchange.Preserves before) (new : ref.New before) :
    (exchange.enterRecv ref).Preserves before :=
  notify (preserves.update new fun _ old => ⟨old.buffer, old.offers⟩)

theorem leaveRecv (preserves : exchange.Preserves before) (new : ref.New before) :
    (∀ value, (exchange.leaveRecv ref).1 = some value → value.New before) ∧
      (exchange.leaveRecv ref).2.Preserves before := by
  have left : (exchange.update ref fun channel =>
      { channel with waiting := channel.waiting - 1 }).Preserves before :=
    preserves.update new fun _ old => ⟨old.buffer, old.offers⟩
  unfold Exchange.leaveRecv
  dsimp only
  split
  · exact left.take new
  · exact left.claimOffer new

theorem send (preserves : exchange.Preserves before) (new : ref.New before) (isNew : value.New before)
    {ticket : Nat} {changed : Exchange} (sent : exchange.send ref value = .ok (ticket, changed)) :
    changed.Preserves before := by
  unfold Exchange.send at sent
  dsimp only at sent
  split at sent
  · cases sent
  · cases sent
    exact preserves.push new isNew

theorem trySend (preserves : exchange.Preserves before) (new : ref.New before)
    (isNew : value.New before) {flag : Bool} {changed : Exchange}
    (sent : exchange.trySend ref value = .ok (flag, changed)) : changed.Preserves before := by
  unfold Exchange.trySend at sent
  dsimp only at sent
  split at sent
  · cases sent
  · split at sent
    · cases sent
      exact preserves.push new isNew
    · cases sent
      exact preserves

theorem tryRecv (preserves : exchange.Preserves before) (new : ref.New before) :
    (∀ value, (exchange.tryRecv ref).1 = some (some value) → value.New before) ∧
      (exchange.tryRecv ref).2.Preserves before := by
  unfold Exchange.tryRecv
  split
  · obtain ⟨isNew, after⟩ := preserves.take new
    exact ⟨fun value same => isNew value (Option.some.inj same), after⟩
  · obtain ⟨isNew, after⟩ := preserves.claimOffer new
    exact ⟨fun value same => isNew value (by simpa using same), after⟩

theorem close (preserves : exchange.Preserves before) (new : ref.New before) {changed : Exchange}
    (closed : exchange.close ref = .ok changed) : changed.Preserves before := by
  unfold Exchange.close at closed
  split at closed
  · cases closed
  · cases closed
    exact notify (preserves.update new fun _ old => ⟨old.buffer, old.offers⟩)

theorem newChannel (preserves : exchange.Preserves before) (capacity : Nat) :
    (exchange.newChannel capacity).1.New before ∧
      (exchange.newChannel capacity).2.Preserves before :=
  ⟨preserves.size_le, Lengthens.push preserves ⟨by simp, by simp⟩⟩

theorem offer (preserves : exchange.Preserves before) (new : ref.New before) {offer : Offer}
    (isNew : offer.value.New before) (announce : Bool) :
    (exchange.offer ref offer announce).Preserves before := by
  have held : (exchange.update ref fun channel =>
      { channel with offers := channel.offers ++ [offer] }).Preserves before :=
    preserves.update new fun channel old => ⟨old.buffer, fun other member =>
      (List.mem_append.mp member).elim (old.offers other) fun last =>
        List.mem_singleton.mp last ▸ isNew⟩
  unfold Exchange.offer
  split
  · exact preserves
  · dsimp only
    split
    · exact held.notify
    · exact held

theorem withdraw (preserves : exchange.Preserves before) (new : ref.New before) (claim : ClaimRef) :
    (exchange.withdraw ref claim).Preserves before :=
  preserves.update new fun _ old =>
    ⟨old.buffer, fun other member => old.offers other (List.mem_of_mem_filter member)⟩

end Exchange.Preserves

/-- The communication is through a channel made since, and sends what is new. -/
def SelectCase.New (before : World) : SelectCase → Prop
  | .send ref value => ref.New before ∧ value.New before
  | .recv _ ref => ref.New before
  | .never => True

def Selected.New (before : World) : Selected → Prop
  | .case _ (some (value, _)) => value.New before
  | .case _ none | .default => True

theorem received_new {elem : Ty} {found : Option Value}
    (new : ∀ value, found = some value → value.New before) : (received elem found).1.New before := by
  cases found with
  | none => trivial
  | some value => exact new value rfl

namespace Exchange.Preserves

variable {exchange : Exchange}

theorem tryCase (preserves : exchange.Preserves before) (index : Nat) {case : SelectCase}
    (new : case.New before) :
    (∀ selected, (exchange.tryCase index case).1 = .ok (some selected) → selected.New before) ∧
      (exchange.tryCase index case).2.Preserves before := by
  cases case with
  | send ref value =>
    unfold Exchange.tryCase
    dsimp only
    split
    · next sent =>
      refine ⟨?_, preserves.trySend new.1 new.2 sent⟩
      rintro _ ⟨⟩
      trivial
    · next sent => exact ⟨by simp, preserves.trySend new.1 new.2 sent⟩
    · exact ⟨by simp, preserves⟩
  | recv elem ref =>
    obtain ⟨isNew, after⟩ := preserves.tryRecv new
    refine ⟨fun selected same => ?_, after⟩
    simp only [Exchange.tryCase, Except.ok.injEq, Option.map_eq_some_iff] at same
    obtain ⟨found, isFound, rfl⟩ := same
    exact received_new fun value same => isNew value (same ▸ isFound)
  | never => exact ⟨by simp [Exchange.tryCase], preserves⟩

theorem tryCases (preserves : exchange.Preserves before) {cases : List (Nat × SelectCase)}
    (news : ∀ entry ∈ cases, entry.2.New before) :
    (∀ selected, (exchange.tryCases cases).1 = .ok (some selected) → selected.New before) ∧
      (exchange.tryCases cases).2.Preserves before := by
  induction cases generalizing exchange with
  | nil => exact ⟨by simp [Exchange.tryCases], preserves⟩
  | cons entry cases ih =>
    obtain ⟨index, case⟩ := entry
    obtain ⟨first, rest⟩ := List.forall_mem_cons.mp news
    obtain ⟨isNew, after⟩ := preserves.tryCase index first
    unfold Exchange.tryCases
    split
    · next tried =>
      rw [tried] at after
      exact ih after rest
    · exact ⟨isNew, after⟩

end Exchange.Preserves

namespace Selecting

variable {select : Selecting} {exchange : Exchange}

def New (before : World) (select : Selecting) : Prop := ∀ case ∈ select.cases, case.New before

theorem New.indexed (new : select.New before) : ∀ entry ∈ select.indexed, entry.2.New before := by
  intro entry member
  obtain ⟨⟨case, index⟩, isCase, rfl⟩ := List.mem_map.mp member
  exact new case (List.fst_mem_of_mem_zipIdx isCase)

theorem New.rotated (new : select.New before) : ∀ entry ∈ select.rotated, entry.2.New before := by
  intro entry member
  rcases List.mem_append.mp member with back | front
  · exact new.indexed entry (List.mem_of_mem_drop back)
  · exact new.indexed entry (List.mem_of_mem_take front)

theorem New.offers (new : select.New before) (exchange : Exchange) :
    ∀ entry ∈ select.offers exchange, entry.1.New before ∧ entry.2.value.New before := by
  intro entry member
  obtain ⟨⟨index, case⟩, isCase, made⟩ := List.mem_filterMap.mp member
  have isNew := new.indexed _ isCase
  dsimp only at made
  split at made
  · split at made
    · cases made
      exact isNew
    · cases made
  · cases made

theorem New.withdrawn (new : select.New before) (preserves : exchange.Preserves before) :
    (select.withdrawn exchange).Preserves before := by
  unfold Selecting.withdrawn
  have news := new.offers exchange
  generalize select.offers exchange = offers at news
  induction offers generalizing exchange with
  | nil => exact preserves
  | cons entry offers ih =>
    obtain ⟨first, rest⟩ := List.forall_mem_cons.mp news
    exact ih (preserves.withdraw first.1 select.claim) rest

theorem New.suspend (new : select.New before) (preserves : exchange.Preserves before) (since : Nat) :
    (select.suspend since exchange).2.Preserves before := by
  unfold Selecting.suspend
  have news := new.offers exchange
  dsimp only
  generalize select.offers exchange = offers at news
  induction offers generalizing exchange with
  | nil => exact preserves
  | cons entry offers ih =>
    obtain ⟨first, rest⟩ := List.forall_mem_cons.mp news
    exact ih (preserves.offer first.1 first.2 _) rest

end Selecting

def RoundEnd.New (before : World) : RoundEnd → Prop
  | .chosen selected => selected.New before
  | .sleep _ next => next.New before

namespace Selecting

variable {select : Selecting} {exchange : Exchange}

theorem New.poll (new : select.New before) (preserves : exchange.Preserves before) (since : Nat) :
    (∀ ending, (select.poll since exchange).1 = .ok ending → ending.New before) ∧
      (select.poll since exchange).2.Preserves before := by
  obtain ⟨isNew, after⟩ := preserves.tryCases new.rotated
  unfold Selecting.poll
  split
  · next tried =>
    rw [tried] at after
    exact ⟨by simp, after⟩
  · next selected _ tried =>
    rw [tried] at isNew after
    refine ⟨?_, after⟩
    rintro _ ⟨⟩
    exact isNew selected rfl
  · next tried =>
    rw [tried] at after
    split
    · refine ⟨?_, after⟩
      rintro _ ⟨⟩
      trivial
    · refine ⟨?_, new.suspend after since⟩
      rintro _ ⟨⟩
      exact new

theorem New.step (new : select.New before) (preserves : exchange.Preserves before) :
    (∀ ending, (select.step exchange).1 = .ok ending → ending.New before) ∧
      (select.step exchange).2.Preserves before := by
  unfold Selecting.step
  dsimp only
  split
  · split
    · refine ⟨?_, new.withdrawn preserves⟩
      rintro _ ⟨⟩
      trivial
    · exact new.poll (new.withdrawn preserves) _
  · exact new.poll preserves _

end Selecting

end MiniGo
