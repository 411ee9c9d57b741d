import MiniGo.Proofs.Updates
/-!
Idle threads. A signal, a deferred call or a panic is left with a thread for a moment only: between
the instruction that leaves it and the executor that takes it. Whenever a computation ends or waits,
nothing is left with any thread, as long as the same held at the start and whenever it went on.
-/

namespace MiniGo

variable {α β : Type}

/-- Nothing is left with any thread, and every environment and every task that has not begun has a
thread; there are at least `count` threads. -/
structure World.Tidy (world : World) (count : Nat) : Prop where
  count : count ≤ world.threads.size
  idle : ∀ ref, (world.thread ref).left = (.none, none, none)
  envs : ∀ ref, (world.threadOf ref).index < world.threads.size
  pending : ∀ spawn ∈ world.pending, spawn.thread.index < world.threads.size

namespace World.Tidy

variable {before after : World} {count : Nat}

theorem weaken {less : Nat} (tidy : before.Tidy count) (le : less ≤ count) : before.Tidy less :=
  { tidy with count := Nat.le_trans le tidy.count }

theorem all (tidy : before.Tidy count) : before.Tidy before.threads.size :=
  { tidy with count := Nat.le_refl _ }

theorem same (tidy : before.Tidy count) (threads : after.threads = before.threads)
    (pending : after.pending = before.pending)
    (envs : ∀ ref, after.threadOf ref = before.threadOf ref) : after.Tidy count := by
  constructor
  · rw [threads]
    exact tidy.count
  · intro ref
    simp only [World.thread, threads]
    exact tidy.idle ref
  · intro ref
    rw [envs, threads]
    exact tidy.envs ref
  · rw [pending, threads]
    exact tidy.pending

theorem alike (tidy : before.Tidy count) (alike : before.Alike after) : after.Tidy count := by
  constructor
  · rw [alike.threads]
    exact tidy.count
  · intro ref
    rw [alike.left]
    exact tidy.idle ref
  · intro ref
    have inside := tidy.envs ref
    rw [alike.threads]
    have same : after.threadOf ref = before.threadOf ref := by
      simp only [World.threadOf]
      cases found : before.env? ref with
      | some env =>
        obtain ⟨holders, still⟩ := alike.envs ref env found
        rw [still]
      | none =>
        have outside : before.envs.size ≤ ref.index := by
          simpa [World.env?] using found
        have still : after.env? ref = none := by
          simpa [World.env?, alike.size] using outside
        rw [still]
    rw [same]
    exact inside
  · rw [alike.pending, alike.threads]
    exact tidy.pending

theorem leaves (tidy : before.Tidy count) (leaves : before.Leaves after) : after.Tidy count := by
  obtain ⟨refs, alike⟩ := leaves
  have counted : ({ before with exited := refs ++ before.exited } : World).Tidy count :=
    tidy.same rfl rfl fun _ => rfl
  exact counted.alike alike

end World.Tidy

theorem World.threadOf_updateEnv (world : World) (ref other : EnvRef) {change : Env → Env}
    (keeps : ∀ env, (change env).thread = env.thread) :
    (world.updateEnv ref change).threadOf other = world.threadOf other := by
  simp only [World.threadOf, World.env?_updateEnv]
  by_cases same : other = ref
  · cases world.env? other with
    | none => simp
    | some env => simp [same, keeps]
  · simp [same]

theorem World.Tidy.updateEnv {world : World} {count : Nat} (tidy : world.Tidy count) (ref : EnvRef)
    {change : Env → Env} (keeps : ∀ env, (change env).thread = env.thread) :
    (world.updateEnv ref change).Tidy count :=
  tidy.same rfl rfl fun other => world.threadOf_updateEnv ref other keeps

theorem World.Tidy.acquire {world : World} {count : Nat} (tidy : world.Tidy count)
    {thread : ThreadRef} (inside : thread.index < world.threads.size) (outer : Option EnvRef)
    (program : Program) (ip objects words : Nat) :
    (world.acquire thread outer program ip objects words).2.Tidy count := by
  obtain ⟨middle, alike, same⟩ := world.acquire_spec thread outer program ip objects words
  have middleTidy := tidy.alike alike
  rw [same]
  refine ⟨middleTidy.count, middleTidy.idle, fun ref => ?_, middleTidy.pending⟩
  have inside : thread.index < middle.threads.size := alike.threads ▸ inside
  have old := middleTidy.envs ref
  simp only [World.threadOf, World.env?_push] at old ⊢
  split
  · rename_i found
    split at found
    · obtain rfl := Option.some.inj found
      exact inside
    · simpa [found] using old
  · exact Nat.lt_of_le_of_lt (Nat.zero_le _) inside

def Outcome.Tidy (post : World → α → Prop) : Nat → Outcome α → Prop
  | count, .done value world => world.Tidy count ∧ post world value
  | count, .fail _ world => world.Tidy count
  | count, .await _ world resume =>
    world.Tidy count ∧ ∀ later, later.Tidy world.threads.size →
      (resume later).Tidy post world.threads.size
  | _, .broken _ => True

namespace Outcome.Tidy

variable {count : Nat} {outcome : Outcome α} {post : World → α → Prop}

theorem weaken {less : Nat} (tidy : outcome.Tidy post count) (le : less ≤ count) :
    outcome.Tidy post less := by
  cases outcome with
  | done value world => exact ⟨tidy.1.weaken le, tidy.2⟩
  | fail error world => exact World.Tidy.weaken tidy le
  | await wait world resume => exact ⟨tidy.1.weaken le, tidy.2⟩
  | broken reason => exact trivial

theorem mono {wider : World → α → Prop} (tidy : outcome.Tidy post count)
    (implies : ∀ world value, post world value → wider world value) : outcome.Tidy wider count := by
  induction outcome generalizing count with
  | done value world => exact ⟨tidy.1, implies world value tidy.2⟩
  | fail error world => exact tidy
  | await wait world resume ih => exact ⟨tidy.1, fun later isTidy => ih later (tidy.2 later isTidy)⟩
  | broken reason => exact trivial

theorem bind {wider : World → β → Prop} {next : α → World → Outcome β}
    (tidy : outcome.Tidy post count)
    (goes : ∀ bound world value, count ≤ bound → world.Tidy bound → post world value →
      (next value world).Tidy wider bound) : (outcome.bind next).Tidy wider count := by
  induction outcome generalizing count with
  | done value world => exact goes count world value (Nat.le_refl _) tidy.1 tidy.2
  | fail error world => exact tidy
  | await wait world resume ih =>
    refine ⟨tidy.1, fun later isTidy => ih later (tidy.2 later isTidy) ?_⟩
    intro bound world value le
    exact goes bound world value (Nat.le_trans tidy.1.count le)
  | broken reason => exact trivial

theorem attempt {wider : World → Except RuntimeError α → Prop} (tidy : outcome.Tidy post count)
    (goes : ∀ world value, post world value → wider world (.ok value))
    (fails : ∀ world error, wider world (.error error)) : outcome.attempt.Tidy wider count := by
  induction outcome generalizing count with
  | done value world => exact ⟨tidy.1, goes world value tidy.2⟩
  | fail error world => exact ⟨tidy, fails world error⟩
  | await wait world resume ih => exact ⟨tidy.1, fun later isTidy => ih later (tidy.2 later isTidy)⟩
  | broken reason => exact trivial

end Outcome.Tidy

/-- A computation leaves nothing with any thread, wherever it is started with at least `count`
threads. -/
def Run.Tidy (run : Run α) (count : Nat) : Prop :=
  ∀ bound world, count ≤ bound → world.Tidy bound → (run world).Tidy (fun _ _ => True) bound

namespace Run.Tidy

variable {run : Run α} {count : Nat}

theorem bind {next : α → Run β} (tidy : run.Tidy count) (goes : ∀ value, (next value).Tidy count) :
    (run >>= next).Tidy count := by
  intro bound world le isTidy
  show (Run.bind run next world).Tidy _ bound
  rw [Run.bind_apply]
  refine (tidy bound world le isTidy).bind fun bound' world' value le' isTidy' _ => ?_
  exact goes value bound' world' (Nat.le_trans le le') isTidy'

theorem weaken {more : Nat} (tidy : run.Tidy count) (le : count ≤ more) : run.Tidy more :=
  fun bound world isMore => tidy bound world (Nat.le_trans le isMore)

theorem pure (value : α) : (Pure.pure value : Run α).Tidy count :=
  fun _ _ _ isTidy => ⟨isTidy, trivial⟩

theorem fail (error : RuntimeError) : (Run.fail error : Run α).Tidy count :=
  fun _ _ _ isTidy => isTidy

theorem exhausted : (Run.exhausted : Run α).Tidy count := fun _ _ _ _ => trivial

theorem ofExcept (result : Except RuntimeError α) : (Run.ofExcept result).Tidy count := by
  cases result with
  | ok value => exact .pure value
  | error error => exact .fail error

theorem read (view : World → α) : (Run.read view).Tidy count := fun _ _ _ isTidy => ⟨isTidy, trivial⟩

theorem tryRead (view : World → Except RuntimeError α) : (Run.tryRead view).Tidy count := by
  intro bound world _ isTidy
  cases found : view world with
  | ok value =>
    simp only [Run.tryRead, found]
    exact ⟨isTidy, trivial⟩
  | error error =>
    simp only [Run.tryRead, found]
    exact isTidy

theorem modify {change : World → World}
    (keeps : ∀ bound world, count ≤ bound → world.Tidy bound → (change world).Tidy bound) :
    (Run.modify change).Tidy count :=
  fun bound world le isTidy => ⟨keeps bound world le isTidy, trivial⟩

theorem update {change : World → α × World}
    (keeps : ∀ bound world, count ≤ bound → world.Tidy bound → (change world).2.Tidy bound) :
    (Run.update change).Tidy count :=
  fun bound world le isTidy => ⟨keeps bound world le isTidy, trivial⟩

theorem tryHeap (change : Heap → Except RuntimeError Heap) : (Run.tryHeap change).Tidy count := by
  intro bound world _ isTidy
  have keeps (heap : Heap) : ({ world with heap } : World).Tidy bound :=
    isTidy.same rfl rfl fun _ => rfl
  cases found : change world.heap with
  | ok heap =>
    simp only [Run.tryHeap, found]
    exact ⟨keeps heap, trivial⟩
  | error error =>
    simp only [Run.tryHeap, found]
    exact isTidy

theorem updateHeap (change : Heap → α × Heap) : (Run.updateHeap change).Tidy count :=
  fun _ _ _ isTidy => ⟨isTidy.same rfl rfl fun _ => rfl, trivial⟩

theorem updateExchange (change : Exchange → α × Exchange) : (Run.updateExchange change).Tidy count :=
  fun _ _ _ isTidy => ⟨isTidy.same rfl rfl fun _ => rfl, trivial⟩

theorem tryExchange (change : Exchange → Except RuntimeError (α × Exchange)) :
    (Run.tryExchange change).Tidy count := by
  intro bound world _ isTidy
  have keeps (exchange : Exchange) : ({ world with exchange } : World).Tidy bound :=
    isTidy.same rfl rfl fun _ => rfl
  cases found : change world.exchange with
  | ok result =>
    simp only [Run.tryExchange, found]
    exact ⟨keeps result.2, trivial⟩
  | error error =>
    simp only [Run.tryExchange, found]
    exact isTidy

theorem waitFor (wait : Wait) : (Run.waitFor wait).Tidy count := by
  intro bound world _ isTidy
  unfold Run.waitFor
  split
  · exact ⟨isTidy, trivial⟩
  · exact ⟨isTidy, fun later laterTidy => ⟨laterTidy, trivial⟩⟩

theorem yield : Run.yield.Tidy count :=
  fun _ _ _ isTidy => ⟨isTidy, fun _ laterTidy => ⟨laterTidy, trivial⟩⟩

theorem attempt (tidy : run.Tidy count) : (Run.attempt run).Tidy count := by
  intro bound world le isTidy
  rw [Run.attempt_apply]
  exact (tidy bound world le isTidy).attempt (fun _ _ _ => trivial) fun _ _ => trivial

theorem store (env : EnvRef) (slot : Slot) (value : Value) : (Run.store env slot value).Tidy count :=
  .modify fun _ _ _ isTidy => isTidy.updateEnv env fun _ => rfl

theorem send (ref : ChanRef) (value : Value) : (Run.send ref value).Tidy count := by
  refine (waitFor _).bind fun _ => (tryExchange _).bind fun ticket => (read _).bind fun capacity => ?_
  split
  · exact waitFor _
  · exact .pure _

theorem recv (elem : Ty) (ref : ChanRef) : (Run.recv elem ref).Tidy count := by
  have enters : (Run.modify fun world =>
      { world with exchange := world.exchange.enterRecv ref }).Tidy count :=
    .modify fun _ _ _ isTidy => isTidy.same rfl rfl fun _ => rfl
  exact enters.bind fun _ => (waitFor _).bind fun _ => (updateExchange _).bind fun _ => .pure _

theorem close (ref : ChanRef) : (Run.close ref).Tidy count := tryExchange _

theorem selectRounds (fuel : Nat) (select : Selecting) : (Run.selectRounds fuel select).Tidy count := by
  induction fuel generalizing select with
  | zero => exact exhausted
  | succ fuel ih =>
    refine (updateExchange _).bind fun ending => (ofExcept _).bind fun round => ?_
    cases round with
    | chosen selected => exact .pure _
    | sleep since next => exact (waitFor _).bind fun _ => ih next

theorem select (fuel : Nat) (cases : List SelectCase) (hasDefault : Bool) :
    (Run.select fuel cases hasDefault).Tidy count := by
  unfold Run.select
  split
  · exact .fail _
  · refine (updateExchange _).bind fun claim => (selectRounds fuel _).bind fun selected => ?_
    cases selected with
    | default => exact yield.bind fun _ => .pure _
    | case index received => exact (Tidy.pure ()).bind fun _ => .pure _

theorem newSlice (elem : Ty) (items : List Value) : (Run.newSlice elem items).Tidy count :=
  (updateHeap _).bind fun _ => .pure _

theorem newMap (key elem : Ty) : (Run.newMap key elem).Tidy count :=
  (updateHeap _).bind fun _ => .pure _

theorem newChan (elem : Ty) (capacity : Nat) : (Run.newChan elem capacity).Tidy count :=
  (updateExchange _).bind fun _ => .pure _

theorem sliceItem (base : Value) (index : Int64) : (Run.sliceItem base index).Tidy count := by
  unfold Run.sliceItem
  split
  · exact tryRead _
  · exact .fail _

theorem mapEntry (base key : Value) : (Run.mapEntry base key).Tidy count := by
  unfold Run.mapEntry
  split
  · exact tryRead _
  · exact .pure _

theorem recvFrom (channel : Value) : (Run.recvFrom channel).Tidy count := by
  unfold Run.recvFrom
  split
  · exact recv _ _
  · exact .fail _

theorem sendTo (channel value : Value) : (Run.sendTo channel value).Tidy count := by
  unfold Run.sendTo
  split
  · exact send _ _
  · exact .fail _

theorem elements (value : Value) : (Run.elements value).Tidy count := by
  unfold Run.elements
  split
  · exact read _
  · exact .pure _

theorem appended (elem : Ty) (base : Value) (extra : List Value) :
    (Run.appended elem base extra).Tidy count := by
  unfold Run.appended
  split
  · exact (updateHeap _).bind fun _ => .pure _
  · exact newSlice _ _

theorem lengthOf (value : Value) : (Run.lengthOf value).Tidy count :=
  (tryRead _).bind fun _ => .pure _

theorem capacityOf (value : Value) : (Run.capacityOf value).Tidy count := by
  unfold Run.capacityOf
  split
  · exact read _
  · exact lengthOf _

theorem closure (template : Template) (env : EnvRef) : (Run.closure template env).Tidy count :=
  (modify fun _ world _ isTidy => isTidy.alike (world.alike_retain env)).bind fun _ => .pure _

end Run.Tidy

theorem Run.Tidy.threadOf (env : EnvRef) {next : ThreadRef → Run α} {count : Nat}
    (goes : ∀ thread : ThreadRef, (next thread).Tidy (max count (thread.index + 1))) :
    (Run.read (·.threadOf env) >>= next).Tidy count := by
  intro bound world le isTidy
  have inside := isTidy.envs env
  have all := goes (world.threadOf env) world.threads.size world
    (Nat.max_le.mpr ⟨Nat.le_trans le isTidy.count, inside⟩) isTidy.all
  exact all.weaken isTidy.count

def Caller.Tidy (call : Caller) : Prop :=
  ∀ (thread : ThreadRef) (invocation : Invocation), (call thread invocation).Tidy (thread.index + 1)

section Evaluation

variable {call : Caller} {count : Nat}

mutual

theorem eval_tidy (tidy : call.Tidy) (env : EnvRef) : (code : Code) → (eval call env code).Tidy count
  | .const _ => .pure _
  | .load _ _ => .read _
  | .binary _ left right =>
    (eval_tidy tidy env left).bind fun _ => (eval_tidy tidy env right).bind fun _ => .ofExcept _
  | .logical stop left right => by
    refine (eval_tidy tidy env left).bind fun _ => (Run.Tidy.ofExcept _).bind fun truth => ?_
    split
    · exact .pure _
    · exact eval_tidy tidy env right
  | .unary _ operand => (eval_tidy tidy env operand).bind fun _ => .ofExcept _
  | .convert _ operand => (eval_tidy tidy env operand).bind fun _ => .pure _
  | .receive channel =>
    (eval_tidy tidy env channel).bind fun _ => (Run.Tidy.recvFrom _).bind fun _ => .pure _
  | .sliceIndex base index =>
    (eval_tidy tidy env index).bind fun _ => (Run.Tidy.ofExcept _).bind fun _ =>
      (eval_tidy tidy env base).bind fun _ => .sliceItem _ _
  | .stringIndex base index =>
    (eval_tidy tidy env base).bind fun _ => (Run.Tidy.ofExcept _).bind fun _ =>
      (eval_tidy tidy env index).bind fun _ => (Run.Tidy.ofExcept _).bind fun _ => .ofExcept _
  | .mapIndex _ base key =>
    (eval_tidy tidy env key).bind fun _ => (eval_tidy tidy env base).bind fun _ =>
      (Run.Tidy.mapEntry _ _).bind fun _ => .pure _
  | .sliceLit _ items => (evalAll_tidy tidy env items).bind fun _ => .newSlice _ _
  | .mapLit _ _ entries =>
    (Run.Tidy.updateHeap _).bind fun ref => (evalEntries_tidy tidy env ref entries).bind fun _ =>
      .pure _
  | .typeAssert target operand => by
    refine (eval_tidy tidy env operand).bind fun value => ?_
    split
    · exact .pure _
    · exact .fail _
  | .closure template => .closure template env
  | .builtin _ _ => .pure _
  | .length operand => (eval_tidy tidy env operand).bind fun _ => .lengthOf _
  | .capacity operand => (eval_tidy tidy env operand).bind fun _ => .capacityOf _
  | .append _ base extra =>
    (eval_tidy tidy env base).bind fun _ => (evalValues_tidy tidy env extra).bind fun _ =>
      .appended _ _ _
  | .makeSlice _ length =>
    (eval_tidy tidy env length).bind fun _ => (Run.Tidy.ofExcept _).bind fun _ =>
      (Run.Tidy.ofExcept _).bind fun _ => .newSlice _ _
  | .makeMap _ _ => .newMap _ _
  | .makeChan _ none => .newChan _ _
  | .makeChan _ (some size) =>
    (eval_tidy tidy env size).bind fun _ => (Run.Tidy.ofExcept _).bind fun _ =>
      (Run.Tidy.ofExcept _).bind fun _ => .newChan _ _
  | .first values => (evalValues_tidy tidy env values).bind fun _ => .pure _

theorem evalAll_tidy (tidy : call.Tidy) (env : EnvRef) :
    (codes : List Code) → (evalAll call env codes).Tidy count
  | [] => .pure _
  | code :: rest =>
    (eval_tidy tidy env code).bind fun _ => (evalAll_tidy tidy env rest).bind fun _ => .pure _

theorem evalEntries_tidy (tidy : call.Tidy) (env : EnvRef) (ref : MapRef) :
    (entries : List (Code × Code)) → (evalEntries call env ref entries).Tidy count
  | [] => .pure _
  | (key, value) :: rest =>
    (eval_tidy tidy env key).bind fun _ => (eval_tidy tidy env value).bind fun _ =>
      (Run.Tidy.tryHeap _).bind fun _ => evalEntries_tidy tidy env ref rest

theorem evalValues_tidy (tidy : call.Tidy) (env : EnvRef) :
    (values : Values) → (evalValues call env values).Tidy count
  | .each items => evalAll_tidy tidy env items
  | .call callee args _ =>
    (eval_tidy tidy env callee).bind fun _ => (evalValues_tidy tidy env args).bind fun _ =>
      .threadOf env fun thread => (tidy thread _).weaken (Nat.le_max_right _ _)
  | .elements slice => (eval_tidy tidy env slice).bind fun _ => .elements _
  | .mapLookup _ base key => by
    refine (eval_tidy tidy env key).bind fun _ => (eval_tidy tidy env base).bind fun _ =>
      (Run.Tidy.mapEntry _ _).bind fun found => ?_
    cases found <;> exact .pure _
  | .receiveOk channel =>
    (eval_tidy tidy env channel).bind fun _ => (Run.Tidy.recvFrom _).bind fun _ => .pure _
  | .typeAssertOk target operand => by
    refine (eval_tidy tidy env operand).bind fun value => ?_
    split <;> exact .pure _

end

theorem evalCall_tidy (tidy : call.Tidy) (env : EnvRef) (node : Call) :
    (evalCall call env node).Tidy count :=
  (eval_tidy tidy env node.callee).bind fun _ => (evalValues_tidy tidy env node.args).bind fun _ =>
    .pure _

theorem evalComms_tidy (tidy : call.Tidy) (env : EnvRef) (comms : List Comm) :
    (evalComms call env comms).Tidy count := by
  induction comms with
  | nil => exact .pure _
  | cons comm rest ih =>
    refine Run.Tidy.bind ?_ fun _ => ih.bind fun _ => .pure _
    cases comm with
    | send channel value =>
      exact (eval_tidy tidy env channel).bind fun _ => (eval_tidy tidy env value).bind fun _ => .pure _
    | recv channel => exact (eval_tidy tidy env channel).bind fun _ => .pure _

namespace Location

theorem ofPlace_tidy (tidy : call.Tidy) (env : EnvRef) (place : Place) :
    (ofPlace call env place).Tidy count := by
  cases place with
  | slot hops target => exact .read _
  | element container base index =>
    exact (eval_tidy tidy env base).bind fun _ => (eval_tidy tidy env index).bind fun _ => .ofExcept _
  | blank => exact .pure _

theorem ofPlaces_tidy (tidy : call.Tidy) (env : EnvRef) (places : List Place) :
    (ofPlaces call env places).Tidy count := by
  induction places with
  | nil => exact .pure _
  | cons place rest ih =>
    exact (ofPlace_tidy tidy env place).bind fun _ => ih.bind fun _ => .pure _

theorem load_tidy (location : Location) : location.load.Tidy count := by
  cases location with
  | slot env target => exact .read _
  | item ref index => exact .tryRead _
  | entry elem ref key => exact (Run.Tidy.tryRead _).bind fun _ => .pure _
  | nilMap elem => exact .pure _
  | nilSlice index => exact .fail _
  | blank => exact .fail _

theorem store_tidy (location : Location) (value : Value) : (location.store value).Tidy count := by
  cases location with
  | slot env target => exact .store env target value
  | item ref index => exact .tryHeap fun heap => heap.setItem ref index value
  | entry elem ref key => exact .tryHeap fun heap => heap.insertEntry ref key value
  | nilMap elem => exact .fail _
  | nilSlice index => exact .fail _
  | blank => exact .pure _

theorem storeAll_tidy (locations : List Location) (values : List Value) :
    (storeAll locations values).Tidy count := by
  induction locations generalizing values with
  | nil => exact .pure _
  | cons location rest ih =>
    cases values with
    | nil => exact .pure _
    | cons value values => exact (location.store_tidy value).bind fun _ => ih values

end Location

namespace RangeSlots

theorem loadInt_tidy (env : EnvRef) (slot : Slot) : (loadInt env slot).Tidy count :=
  (Run.Tidy.read _).bind fun _ => .ofExcept _

theorem start_tidy (state : RangeSlots) (kind : RangeKind) (key : Ty) (env : EnvRef)
    (subject : Value) : (state.start kind key env subject).Tidy count := by
  have limit : (state.limitOf kind key env subject).Tidy count := by
    unfold limitOf
    split
    · exact .pure _
    · exact (Run.Tidy.read _).bind fun _ => (Run.Tidy.newSlice _ _).bind fun _ =>
        (Run.Tidy.store _ _ _).bind fun _ => .pure _
    · exact .pure _
    · exact (Run.Tidy.tryRead _).bind fun _ => .pure _
  exact limit.bind fun _ => (Run.Tidy.store _ _ _).bind fun _ => (Run.Tidy.store _ _ _).bind fun _ =>
    (Run.Tidy.store _ _ _).bind fun _ => .store _ _ _

theorem nextEntry_tidy (state : RangeSlots) (env : EnvRef) (index : Int64) (map : MapRef)
    (keys : SliceRef) : (state.nextEntry env index map keys).Tidy count := by
  refine (Run.Tidy.read _).bind fun rest => (Run.Tidy.read _).bind fun entries => ?_
  split <;> exact (Run.Tidy.store _ _ _).bind fun _ => .pure _

theorem nextChar_tidy (state : RangeSlots) (env : EnvRef) (index : Int64) (text : String) :
    (state.nextChar env index text).Tidy count := by
  unfold nextChar
  split
  · exact (Run.Tidy.store _ _ _).bind fun _ => .pure _
  · exact .pure _

theorem next_tidy (state : RangeSlots) (kind : RangeKind) (env : EnvRef) :
    (state.next kind env).Tidy count := by
  refine (loadInt_tidy env _).bind fun index => (loadInt_tidy env _).bind fun limit =>
    (Run.Tidy.read _).bind fun subject => ?_
  cases kind with
  | int => exact .pure _
  | slice =>
    dsimp only
    split
    · split
      · exact (Run.Tidy.tryRead _).bind fun _ => .pure _
      · exact .pure _
    · exact .pure _
  | string => exact (Run.Tidy.ofExcept _).bind fun text => state.nextChar_tidy env index text
  | map =>
    refine (Run.Tidy.read _).bind fun keys => ?_
    split
    · exact state.nextEntry_tidy env index _ _
    · exact .pure _
  | chan =>
    dsimp only
    split
    · exact (Run.Tidy.recv _ _).bind fun _ => .pure _
    · exact .fail _

theorem advance_tidy (state : RangeSlots) (env : EnvRef) : (state.advance env).Tidy count :=
  (loadInt_tidy env _).bind fun _ => (loadInt_tidy env _).bind fun _ => .store _ _ _

end RangeSlots

theorem storeTarget_tidy (tidy : call.Tidy) (env : EnvRef) (target : Option Place) (value : Value) :
    (storeTarget call env target value).Tidy count := by
  cases target with
  | none => exact .pure _
  | some place =>
    exact (Location.ofPlace_tidy tidy env place).bind fun location => location.store_tidy value

end Evaluation

end MiniGo
