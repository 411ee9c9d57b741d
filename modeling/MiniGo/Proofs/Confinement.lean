import MiniGo.Proofs.Enclave
/-!
Running code that has been given nothing of what was there before. Every computation of such code
leaves what was there as it was and ends with new values only, and so do the tasks that it starts,
whenever they have their turn.
-/

namespace MiniGo

variable {before : World} {α β : Type}

/-- Wherever a computation waits or ends, nothing that was there has changed; its result is as it
should be. -/
def Outcome.Confined (before : World) (post : α → Prop) : Outcome α → Prop
  | .done value world => world.Preserves before ∧ post value
  | .fail _ world => world.Preserves before
  | .await _ world resume => world.Preserves before ∧
    ∀ later : World, later.Preserves before → (resume later).Confined before post
  | .broken _ => True

def Run.Confined (before : World) (post : α → Prop) (run : Run α) : Prop :=
  ∀ world : World, world.Preserves before → (run world).Confined before post

section Logic

variable {post : α → Prop} {goal : β → Prop}

theorem Outcome.Confined.bind {outcome : Outcome α} {next : α → Run β}
    (confined : outcome.Confined before post)
    (goes : ∀ value, post value → (next value).Confined before goal) :
    (outcome.bind next).Confined before goal := by
  induction outcome with
  | done value world => exact goes value confined.2 world confined.1
  | fail error world => exact confined
  | broken reason => trivial
  | await wait world resume ih =>
    exact ⟨confined.1, fun later preserves => ih later (confined.2 later preserves)⟩

theorem Outcome.Confined.attempt {outcome : Outcome α} (confined : outcome.Confined before post) :
    outcome.attempt.Confined before fun result => ∀ value, result = .ok value → post value := by
  induction outcome with
  | done value world => exact ⟨confined.1, fun _ same => Except.ok.inj same ▸ confined.2⟩
  | fail error world => exact ⟨confined, by simp⟩
  | broken reason => trivial
  | await wait world resume ih =>
    exact ⟨confined.1, fun later preserves => ih later (confined.2 later preserves)⟩

namespace Run

variable {run : Run α} {next : α → Run β}

theorem Confined.bind (confined : run.Confined before post)
    (goes : ∀ value, post value → (next value).Confined before goal) :
    (run >>= next).Confined before goal := by
  intro world preserves
  show (Run.bind run next world).Confined before goal
  rw [Run.bind_apply]
  exact (confined world preserves).bind goes

theorem Confined.andThen (confined : run.Confined before post)
    (goes : ∀ value, (next value).Confined before goal) : (run >>= next).Confined before goal :=
  confined.bind fun value _ => goes value

theorem Confined.attempt (confined : run.Confined before post) :
    (Run.attempt run).Confined before fun result => ∀ value, result = .ok value → post value := by
  intro world preserves
  rw [Run.attempt_apply]
  exact (confined world preserves).attempt

theorem pure_confined {value : α} (holds : post value) :
    (pure value : Run α).Confined before post := fun _ preserves => ⟨preserves, holds⟩

theorem fail_confined {error : RuntimeError} : (fail error : Run α).Confined before post :=
  fun _ preserves => preserves

theorem exhausted_confined : (exhausted : Run α).Confined before post := fun _ _ => trivial

theorem ofExcept_confined {result : Except RuntimeError α}
    (holds : ∀ value, result = .ok value → post value) : (ofExcept result).Confined before post := by
  intro world preserves
  cases result with
  | ok value => exact ⟨preserves, holds value rfl⟩
  | error error => exact preserves

theorem read_confined {view : World → α}
    (holds : ∀ world : World, world.Preserves before → post (view world)) :
    (read view).Confined before post := fun world preserves => ⟨preserves, holds world preserves⟩

theorem read_any (view : World → α) : (read view).Confined before fun _ => True :=
  read_confined fun _ _ => trivial

theorem tryRead_confined {view : World → Except RuntimeError α}
    (holds : ∀ world : World, world.Preserves before → ∀ value, view world = .ok value → post value) :
    (tryRead view).Confined before post := by
  intro world preserves
  unfold tryRead
  cases found : view world with
  | ok value => exact ⟨preserves, holds world preserves value found⟩
  | error error => exact preserves

theorem modify_confined {change : World → World}
    (keeps : ∀ world : World, world.Preserves before → (change world).Preserves before) :
    (modify change).Confined before fun _ => True := fun world preserves =>
  ⟨keeps world preserves, trivial⟩

theorem update_confined {change : World → α × World}
    (keeps : ∀ world : World, world.Preserves before →
      post (change world).1 ∧ (change world).2.Preserves before) :
    (update change).Confined before post := fun world preserves => (keeps world preserves).symm

theorem tryHeap_confined {change : Heap → Except RuntimeError Heap}
    (keeps : ∀ heap : Heap, heap.Preserves before → ∀ changed, change heap = .ok changed →
      changed.Preserves before) : (tryHeap change).Confined before fun _ => True := by
  intro world preserves
  unfold tryHeap
  split
  · next heap changed => exact ⟨{ preserves with heap := keeps _ preserves.heap heap changed }, trivial⟩
  · exact preserves

theorem updateHeap_confined {change : Heap → α × Heap}
    (keeps : ∀ heap : Heap, heap.Preserves before →
      post (change heap).1 ∧ (change heap).2.Preserves before) :
    (updateHeap change).Confined before post := fun _ preserves =>
  ⟨{ preserves with heap := (keeps _ preserves.heap).2 }, (keeps _ preserves.heap).1⟩

theorem updateExchange_confined {change : Exchange → α × Exchange}
    (keeps : ∀ exchange : Exchange, exchange.Preserves before →
      post (change exchange).1 ∧ (change exchange).2.Preserves before) :
    (updateExchange change).Confined before post := fun _ preserves =>
  ⟨{ preserves with exchange := (keeps _ preserves.exchange).2 }, (keeps _ preserves.exchange).1⟩

theorem tryExchange_confined {change : Exchange → Except RuntimeError (α × Exchange)}
    (keeps : ∀ exchange : Exchange, exchange.Preserves before → ∀ value changed,
      change exchange = .ok (value, changed) → post value ∧ changed.Preserves before) :
    (tryExchange change).Confined before post := by
  intro world preserves
  unfold tryExchange
  split
  · next value exchange changed =>
    obtain ⟨holds, after⟩ := keeps _ preserves.exchange value exchange changed
    exact ⟨{ preserves with exchange := after }, holds⟩
  · exact preserves

end Run

end Logic

section Communication

namespace Run

variable {ref : ChanRef} {value : Value}

theorem yield_confined : yield.Confined before fun _ => True := fun _ preserves =>
  ⟨preserves, fun _ later => ⟨later, trivial⟩⟩

theorem waitFor_confined (wait : Wait) : (waitFor wait).Confined before fun _ => True := by
  intro world preserves
  unfold waitFor
  split
  · exact ⟨preserves, trivial⟩
  · exact ⟨preserves, fun _ later => ⟨later, trivial⟩⟩

theorem send_confined (new : ref.New before) (isNew : value.New before) :
    (send ref value).Confined before fun _ => True := by
  have sends : (tryExchange (·.send ref value)).Confined before fun _ => True :=
    tryExchange_confined fun _ preserves _ _ sent => ⟨trivial, preserves.send new isNew sent⟩
  refine (waitFor_confined _).andThen fun _ => sends.andThen fun ticket => ?_
  refine (read_any _).andThen fun capacity => ?_
  split
  · exact waitFor_confined _
  · exact pure_confined trivial

theorem recv_confined (elem : Ty) (new : ref.New before) :
    (recv elem ref).Confined before fun result => result.1.New before := by
  have enters : (modify fun world =>
      { world with exchange := world.exchange.enterRecv ref }).Confined before fun _ => True :=
    modify_confined fun _ preserves =>
      { preserves with exchange := preserves.exchange.enterRecv new }
  have leaves : (updateExchange (·.leaveRecv ref)).Confined before fun found =>
      ∀ value, found = some value → value.New before :=
    updateExchange_confined fun _ preserves => preserves.leaveRecv new
  refine enters.andThen fun _ => (waitFor_confined _).andThen fun _ => leaves.bind fun _ news => ?_
  exact pure_confined (received_new news)

theorem close_confined (new : ref.New before) : (close ref).Confined before fun _ => True := by
  refine tryExchange_confined fun exchange preserves _ changed done => ⟨trivial, ?_⟩
  obtain ⟨closed, isClosed, same⟩ := Except.bind_eq_ok.mp done
  cases same
  exact preserves.close new isClosed

theorem selectRounds_confined (fuel : Nat) {select : Selecting} (new : select.New before) :
    (selectRounds fuel select).Confined before (Selected.New before) := by
  induction fuel generalizing select with
  | zero => exact exhausted_confined
  | succ fuel ih =>
    have steps : (updateExchange select.step).Confined before fun result =>
        ∀ ending, result = .ok ending → ending.New before :=
      updateExchange_confined fun _ preserves => new.step preserves
    refine steps.bind fun result news => (ofExcept_confined news).bind fun ending isNew => ?_
    cases ending with
    | chosen selected => exact pure_confined isNew
    | sleep since next => exact (waitFor_confined _).andThen fun _ => ih isNew

theorem select_confined (fuel : Nat) {cases : List SelectCase} (news : ∀ case ∈ cases, case.New before)
    (hasDefault : Bool) : (select fuel cases hasDefault).Confined before (Selected.New before) := by
  unfold select
  split
  · exact fail_confined
  · have claims : (updateExchange Exchange.newClaim).Confined before fun _ => True :=
      updateExchange_confined fun _ preserves => ⟨trivial, preserves⟩
    refine claims.andThen fun claim => ?_
    have rounds := @selectRounds_confined before fuel { cases, hasDefault, claim } news
    refine rounds.bind fun selected isNew => ?_
    cases selected with
    | default => exact yield_confined.andThen fun _ => pure_confined isNew
    | case index received => exact pure_confined isNew

end Run

end Communication

section Containers

namespace Run

variable {value base : Value} {env : EnvRef}

theorem newSlice_confined (elem : Ty) {items : List Value} (news : AllNew before items) :
    (newSlice elem items).Confined before (Value.New before) :=
  (updateHeap_confined fun _ preserves => preserves.newSlice (by simpa using news)).bind
    fun _ isNew => pure_confined isNew

theorem newMap_confined (key elem : Ty) : (newMap key elem).Confined before (Value.New before) :=
  (updateHeap_confined fun _ preserves => preserves.newMap).bind fun _ isNew => pure_confined isNew

theorem newChan_confined (elem : Ty) (capacity : Nat) :
    (newChan elem capacity).Confined before (Value.New before) :=
  (updateExchange_confined fun _ preserves => preserves.newChannel capacity).bind
    fun _ isNew => pure_confined isNew

theorem load_confined (new : env.New before) (hops : Nat) (slot : Slot) :
    (load env hops slot).Confined before (Value.New before) :=
  read_confined fun _ preserves => preserves.load (preserves.up new hops) slot

theorem store_confined (new : env.New before) (slot : Slot) (isNew : value.New before) :
    (store env slot value).Confined before fun _ => True :=
  modify_confined fun _ preserves => preserves.store new slot isNew

theorem threadOf_confined (new : env.New before) :
    (read (·.threadOf env)).Confined before (ThreadRef.Free before) :=
  read_confined fun _ preserves => preserves.threadOf new

theorem item_confined {ref : SliceRef} (new : before.heap.slices.size ≤ ref.index) (index : Int64) :
    (tryRead (·.heap.item ref index)).Confined before (Value.New before) :=
  tryRead_confined fun _ preserves _ found => preserves.heap.item new found

theorem entry_confined {ref : MapRef} (new : before.heap.maps.size ≤ ref.index) (key : Value) :
    (tryRead (·.heap.entry? ref key)).Confined before fun entry =>
      ∀ value, entry = some value → value.New before :=
  tryRead_confined fun _ preserves _ found => preserves.heap.entry new found

theorem sliceItem_confined (new : base.New before) (index : Int64) :
    (sliceItem base index).Confined before (Value.New before) := by
  unfold sliceItem
  split
  · exact item_confined new index
  · exact fail_confined

theorem stringByte_confined (text : String) (index : Int64) :
    (stringByte text index).Confined before (Value.New before) := by
  refine ofExcept_confined fun value computed => ?_
  obtain ⟨position, -, same⟩ := Except.bind_eq_ok.mp computed
  cases same
  trivial

theorem mapEntry_confined (new : base.New before) (key : Value) :
    (mapEntry base key).Confined before fun entry =>
      ∀ value, entry = some value → value.New before := by
  unfold mapEntry
  split
  · exact entry_confined new key
  · exact pure_confined (by simp)

theorem recvFrom_confined (new : base.New before) :
    (recvFrom base).Confined before fun result => result.1.New before := by
  unfold recvFrom
  split
  · exact recv_confined _ new
  · exact fail_confined

theorem sendTo_confined (new : base.New before) (isNew : value.New before) :
    (sendTo base value).Confined before fun _ => True := by
  unfold sendTo
  split
  · exact send_confined new isNew
  · exact fail_confined

theorem elements_confined (new : base.New before) :
    (elements base).Confined before (AllNew before) := by
  unfold elements
  split
  · exact read_confined fun _ preserves => preserves.heap.items new
  · exact pure_confined (by simp)

theorem appended_confined (elem : Ty) (new : base.New before) {extra : List Value}
    (news : AllNew before extra) : (appended elem base extra).Confined before (Value.New before) := by
  unfold appended
  split
  · next ref =>
    refine (updateHeap_confined fun heap preserves => preserves.newSlice fun item member => ?_).bind
      fun _ isNew => pure_confined isNew
    simp only [Array.toList_append, List.mem_append] at member
    rcases member with old | added
    · exact preserves.items new item old
    · exact news item added
  · exact newSlice_confined elem news

theorem length_confined (value : Value) : (tryRead (·.length value)).Confined before fun _ => True :=
  tryRead_confined fun _ _ _ _ => trivial

theorem lengthOf_confined (value : Value) : (lengthOf value).Confined before (Value.New before) :=
  (length_confined value).andThen fun _ => pure_confined trivial

theorem capacityOf_confined (value : Value) :
    (capacityOf value).Confined before (Value.New before) := by
  unfold capacityOf
  split
  · exact read_confined fun _ _ => trivial
  · exact lengthOf_confined value

theorem closure_confined (template : Template) (new : env.New before) :
    (closure template env).Confined before (Value.New before) :=
  (modify_confined fun _ preserves => preserves.retain new).andThen fun _ => pure_confined new

end Run

end Containers

def Caller.Confined (before : World) (call : Caller) : Prop :=
  ∀ (thread : ThreadRef) (invocation : Invocation), thread.Free before → invocation.New before →
    (call thread invocation).Confined before (AllNew before)

section Evaluation

variable {call : Caller} {env : EnvRef}

theorem asBool_confined (value : Value) : (Run.asBool value).Confined before fun _ => True :=
  Run.ofExcept_confined fun _ _ => trivial

theorem binary_confined (op : BinaryOp) (left right : Value) :
    (Run.ofExcept (Value.binary op left right)).Confined before (Value.New before) :=
  Run.ofExcept_confined fun _ computed => Value.binary_new computed

theorem asInt_confined (value : Value) : (Run.asInt value).Confined before fun _ => True :=
  Run.ofExcept_confined fun _ _ => trivial

mutual

theorem eval_confined (confined : call.Confined before) (new : env.New before) (code : Code) :
    (eval call env code).Confined before (Value.New before) := by
  cases code with
  | const value => exact Run.pure_confined trivial
  | load hops slot => exact Run.load_confined new hops slot
  | binary op left right =>
    unfold eval
    refine (eval_confined confined new left).andThen fun _ => ?_
    exact (eval_confined confined new right).andThen fun right => binary_confined op _ right
  | logical stop left right =>
    unfold eval
    refine (eval_confined confined new left).andThen fun value => ?_
    refine (asBool_confined value).andThen fun _ => ?_
    split
    · exact Run.pure_confined trivial
    · exact eval_confined confined new right
  | unary op operand =>
    unfold eval
    refine (eval_confined confined new operand).andThen fun _ => ?_
    exact Run.ofExcept_confined fun _ computed => Value.unary_new computed
  | convert target operand =>
    unfold eval
    exact (eval_confined confined new operand).bind fun _ isNew =>
      Run.pure_confined (isNew.convert target)
  | receive channel =>
    unfold eval
    refine (eval_confined confined new channel).bind fun _ isNew => ?_
    exact (Run.recvFrom_confined isNew).bind fun _ isNew => Run.pure_confined isNew
  | sliceIndex base index =>
    unfold eval
    refine (eval_confined confined new index).andThen fun value => ?_
    refine (asInt_confined value).andThen fun index => ?_
    exact (eval_confined confined new base).bind fun _ isNew => Run.sliceItem_confined isNew index
  | stringIndex base index =>
    unfold eval
    have text (value : Value) : (Run.ofExcept value.asStr).Confined before fun _ => True :=
      Run.ofExcept_confined fun _ _ => trivial
    refine (eval_confined confined new base).andThen fun value => ?_
    refine (text value).andThen fun text => ?_
    refine (eval_confined confined new index).andThen fun value => ?_
    refine (asInt_confined value).andThen fun index => ?_
    exact Run.stringByte_confined text index
  | mapIndex elem base key =>
    unfold eval
    refine (eval_confined confined new key).andThen fun key => ?_
    refine (eval_confined confined new base).bind fun base isNew => ?_
    refine (Run.mapEntry_confined isNew key).bind fun found news => Run.pure_confined ?_
    cases found with
    | none => trivial
    | some value => exact news value rfl
  | sliceLit elem items =>
    unfold eval
    exact (evalAll_confined confined new items).bind fun _ news => Run.newSlice_confined elem news
  | mapLit key elem entries =>
    unfold eval
    have makes : (Run.updateHeap Heap.newMap).Confined before fun ref =>
        before.heap.maps.size ≤ ref.index :=
      Run.updateHeap_confined fun _ preserves => preserves.newMap
    refine makes.bind fun ref isNew => ?_
    exact (evalEntries_confined confined new isNew entries).andThen fun _ => Run.pure_confined isNew
  | typeAssert target operand =>
    unfold eval
    refine (eval_confined confined new operand).bind fun value isNew => ?_
    split
    · exact Run.pure_confined isNew
    · exact Run.fail_confined
  | closure template =>
    unfold eval
    exact Run.closure_confined template new
  | builtin builtin params => exact Run.pure_confined trivial
  | length operand =>
    unfold eval
    exact (eval_confined confined new operand).andThen fun value => Run.lengthOf_confined value
  | capacity operand =>
    unfold eval
    exact (eval_confined confined new operand).andThen fun value => Run.capacityOf_confined value
  | append elem base extra =>
    unfold eval
    refine (eval_confined confined new base).bind fun _ isNew => ?_
    refine (evalValues_confined confined new extra).bind fun _ news => ?_
    exact Run.appended_confined elem isNew news
  | makeSlice elem length =>
    unfold eval
    have size (length : Int64) (failure : String) :
        (Run.ofExcept (checkedSize length failure)).Confined before fun _ => True :=
      Run.ofExcept_confined fun _ _ => trivial
    refine (eval_confined confined new length).andThen fun value => ?_
    refine (asInt_confined value).andThen fun length => ?_
    refine (size length _).andThen fun length => Run.newSlice_confined elem fun value member => ?_
    obtain ⟨-, rfl⟩ := List.mem_replicate.mp member
    trivial
  | makeMap key elem => exact Run.newMap_confined key elem
  | makeChan elem size =>
    cases size with
    | none => exact Run.newChan_confined elem 0
    | some size =>
      unfold eval
      have checked (size : Int64) (failure : String) :
          (Run.ofExcept (checkedSize size failure)).Confined before fun _ => True :=
        Run.ofExcept_confined fun _ _ => trivial
      refine (eval_confined confined new size).andThen fun value => ?_
      refine (asInt_confined value).andThen fun size => ?_
      exact (checked size _).andThen fun size => Run.newChan_confined elem size
  | first values =>
    unfold eval
    exact (evalValues_confined confined new values).bind fun _ news => Run.pure_confined news.head

theorem evalAll_confined (confined : call.Confined before) (new : env.New before) (codes : List Code) :
    (evalAll call env codes).Confined before (AllNew before) := by
  cases codes with
  | nil => exact Run.pure_confined (by simp)
  | cons code rest =>
    unfold evalAll
    refine (eval_confined confined new code).bind fun _ isNew => ?_
    refine (evalAll_confined confined new rest).bind fun _ news => ?_
    exact Run.pure_confined (.cons isNew news)

theorem evalEntries_confined (confined : call.Confined before) (new : env.New before) {ref : MapRef}
    (isNew : before.heap.maps.size ≤ ref.index) (entries : List (Code × Code)) :
    (evalEntries call env ref entries).Confined before fun _ => True := by
  cases entries with
  | nil => exact Run.pure_confined trivial
  | cons entry rest =>
    obtain ⟨key, value⟩ := entry
    unfold evalEntries
    refine (eval_confined confined new key).andThen fun key => ?_
    refine (eval_confined confined new value).bind fun value valueNew => ?_
    have inserts : (Run.tryHeap (·.insertEntry ref key value)).Confined before fun _ => True :=
      Run.tryHeap_confined fun _ preserves _ done => preserves.insertEntry isNew valueNew done
    exact inserts.andThen fun _ => evalEntries_confined confined new isNew rest

theorem evalValues_confined (confined : call.Confined before) (new : env.New before) (values : Values) :
    (evalValues call env values).Confined before (AllNew before) := by
  cases values with
  | each items =>
    unfold evalValues
    exact evalAll_confined confined new items
  | call callee args spread =>
    unfold evalValues
    refine (eval_confined confined new callee).bind fun _ isNew => ?_
    refine (evalValues_confined confined new args).bind fun _ news => ?_
    exact (Run.threadOf_confined new).bind fun thread free => confined thread _ free ⟨isNew, news⟩
  | elements slice =>
    unfold evalValues
    exact (eval_confined confined new slice).bind fun _ isNew => Run.elements_confined isNew
  | mapLookup elem base key =>
    unfold evalValues
    refine (eval_confined confined new key).andThen fun key => ?_
    refine (eval_confined confined new base).bind fun base isNew => ?_
    refine (Run.mapEntry_confined isNew key).bind fun found news => ?_
    cases found with
    | none => exact Run.pure_confined (.cons trivial (.cons trivial (by simp)))
    | some value => exact Run.pure_confined (.cons (news value rfl) (.cons trivial (by simp)))
  | receiveOk channel =>
    unfold evalValues
    refine (eval_confined confined new channel).bind fun _ isNew => ?_
    refine (Run.recvFrom_confined isNew).bind fun _ isNew => ?_
    exact Run.pure_confined (.cons isNew (.cons trivial (by simp)))
  | typeAssertOk target operand =>
    unfold evalValues
    refine (eval_confined confined new operand).bind fun value isNew => ?_
    split
    · exact Run.pure_confined (.cons isNew (.cons trivial (by simp)))
    · exact Run.pure_confined (.cons trivial (.cons trivial (by simp)))

end

section

variable (confined : call.Confined before) (new : env.New before)

include confined new

theorem evalCall_confined (node : Call) :
    (evalCall call env node).Confined before (Invocation.New before) := by
  refine (eval_confined confined new node.callee).bind fun _ isNew => ?_
  refine (evalValues_confined confined new node.args).bind fun _ news => ?_
  exact Run.pure_confined ⟨isNew, news⟩

theorem evalComm_confined (comm : Comm) :
    (evalComm call env comm).Confined before (SelectCase.New before) := by
  cases comm with
  | send channel value =>
    refine (eval_confined confined new channel).bind fun channel isNew => ?_
    refine (eval_confined confined new value).bind fun value valueNew => Run.pure_confined ?_
    unfold SelectCase.sendTo
    split
    · exact ⟨isNew, valueNew⟩
    · trivial
  | recv channel =>
    refine (eval_confined confined new channel).bind fun channel isNew => Run.pure_confined ?_
    unfold SelectCase.recvFrom
    split
    · exact isNew
    · trivial

theorem evalComms_confined (comms : List Comm) :
    (evalComms call env comms).Confined before fun cases => ∀ case ∈ cases, case.New before := by
  induction comms with
  | nil => exact Run.pure_confined (by simp)
  | cons comm rest ih =>
    refine (evalComm_confined confined new comm).bind fun _ isNew => ih.bind fun _ news => ?_
    exact Run.pure_confined (List.forall_mem_cons.mpr ⟨isNew, news⟩)

end

end Evaluation

end MiniGo
