import MiniGo.Proofs.Confinement
/-!
Instructions, calls and tasks of code that has been given nothing of what was there before, and the
functions of a host that hand nothing of it out.
-/

namespace MiniGo

variable {before : World} {call : Caller} {env : EnvRef} {value : Value}

def Location.New (before : World) : Location → Prop
  | .slot env _ => env.New before
  | .item ref _ => before.heap.slices.size ≤ ref.index
  | .entry _ ref _ => before.heap.maps.size ≤ ref.index
  | .nilMap _ | .nilSlice _ | .blank => True

namespace Location

variable {location : Location}

theorem element_new {container : Ty} {base index : Value} (new : base.New before)
    (found : element container base index = .ok location) : location.New before := by
  unfold element at found
  split at found
  · obtain ⟨_, -, same⟩ := Except.bind_eq_ok.mp found
    exact Except.ok.inj same ▸ new
  · exact Except.ok.inj found ▸ new
  · split at found
    · exact Except.ok.inj found ▸ trivial
    · obtain ⟨_, -, same⟩ := Except.bind_eq_ok.mp found
      exact Except.ok.inj same ▸ trivial
  · cases found

theorem ofPlace_confined (confined : call.Confined before) (new : env.New before) (place : Place) :
    (ofPlace call env place).Confined before (Location.New before) := by
  cases place with
  | slot hops target => exact Run.read_confined fun _ preserves => preserves.up new hops
  | element container base index =>
    refine (eval_confined confined new base).bind fun base isNew => ?_
    refine (eval_confined confined new index).andThen fun index => ?_
    exact Run.ofExcept_confined fun _ found => element_new isNew found
  | blank => exact Run.pure_confined trivial

theorem ofPlaces_confined (confined : call.Confined before) (new : env.New before)
    (places : List Place) : (ofPlaces call env places).Confined before fun locations =>
      ∀ location ∈ locations, location.New before := by
  induction places with
  | nil => exact Run.pure_confined (by simp)
  | cons place rest ih =>
    refine (ofPlace_confined confined new place).bind fun _ isNew => ih.bind fun _ news => ?_
    exact Run.pure_confined (List.forall_mem_cons.mpr ⟨isNew, news⟩)

theorem load_confined (new : location.New before) :
    location.load.Confined before (Value.New before) := by
  cases location with
  | slot env target => exact Run.load_confined new 0 target
  | item ref index => exact Run.item_confined new index
  | entry elem ref key =>
    refine (Run.entry_confined new key).bind fun found news => Run.pure_confined ?_
    cases found with
    | none => trivial
    | some value => exact news value rfl
  | nilMap elem => exact Run.pure_confined trivial
  | nilSlice index => exact Run.fail_confined
  | blank => exact Run.fail_confined

theorem store_confined (new : location.New before) (isNew : value.New before) :
    (location.store value).Confined before fun _ => True := by
  cases location with
  | slot env target => exact Run.store_confined new target isNew
  | item ref index =>
    exact Run.tryHeap_confined fun _ preserves _ done => preserves.setItem new isNew done
  | entry elem ref key =>
    exact Run.tryHeap_confined fun _ preserves _ done => preserves.insertEntry new isNew done
  | nilMap elem => exact Run.fail_confined
  | nilSlice index => exact Run.fail_confined
  | blank => exact Run.pure_confined trivial

theorem storeAll_confined {locations : List Location} {values : List Value}
    (new : ∀ location ∈ locations, location.New before) (news : AllNew before values) :
    (storeAll locations values).Confined before fun _ => True := by
  induction locations generalizing values with
  | nil => exact Run.pure_confined trivial
  | cons location locations ih =>
    cases values with
    | nil => exact Run.pure_confined trivial
    | cons value values =>
      obtain ⟨first, rest⟩ := List.forall_mem_cons.mp new
      obtain ⟨isNew, others⟩ := List.forall_mem_cons.mp news
      exact (store_confined first isNew).andThen fun _ => ih rest others

end Location

namespace RangeSlots

variable {state : RangeSlots} {subject : Value}

def HandsNew (before : World) (found : Option (Value × Value)) : Prop :=
  ∀ pair, found = some pair → pair.1.New before ∧ pair.2.New before

theorem storeInt_confined (new : env.New before) (slot : Slot) (number : Int64) :
    (Run.store env slot (.int number)).Confined before fun _ => True :=
  Run.store_confined new slot trivial

theorem loadInt_confined (new : env.New before) (slot : Slot) :
    (loadInt env slot).Confined before fun _ => True :=
  (Run.load_confined new 0 slot).andThen fun value => asInt_confined value

theorem limitOf_confined (new : env.New before) (kind : RangeKind) (key : Ty) :
    (state.limitOf kind key env subject).Confined before fun _ => True := by
  unfold limitOf
  split
  · exact Run.pure_confined trivial
  · have keys (ref : MapRef) : (Run.read fun world =>
        (world.heap.entries ref).keys.map MapKey.toValue).Confined before (AllNew before) := by
      refine Run.read_confined fun world _ value member => ?_
      obtain ⟨key, -, rfl⟩ := List.mem_map.mp member
      exact MapKey.toValue_new key
    refine (keys _).bind fun keys news => (Run.newSlice_confined key news).bind fun _ isNew => ?_
    exact (Run.store_confined new _ isNew).andThen fun _ => Run.pure_confined trivial
  · exact Run.pure_confined trivial
  · exact (Run.length_confined _).andThen fun _ => Run.pure_confined trivial

theorem start_confined (new : env.New before) (kind : RangeKind) (key : Ty)
    (isNew : subject.New before) :
    (state.start kind key env subject).Confined before fun _ => True := by
  refine (limitOf_confined new kind key).andThen fun limit => ?_
  refine (Run.store_confined new _ isNew).andThen fun _ => ?_
  refine (storeInt_confined new _ _).andThen fun _ => ?_
  exact (storeInt_confined new _ _).andThen fun _ => storeInt_confined new _ _

theorem firstPresent_new {entries : Entries} (new : entries.New before) {keys : List Value}
    (news : AllNew before keys) : ∀ skipped found, firstPresent entries keys = some (skipped, found) →
      found.1.New before ∧ found.2.New before := by
  induction keys with
  | nil => simp [firstPresent]
  | cons key keys ih =>
    obtain ⟨isNew, rest⟩ := List.forall_mem_cons.mp news
    intro skipped found present
    unfold firstPresent at present
    split at present
    · next value isEntry =>
      cases present
      obtain ⟨mapKey, -, isValue⟩ := Option.bind_eq_some_iff.mp isEntry
      exact ⟨isNew, new.get? isValue⟩
    · obtain ⟨⟨count, pair⟩, later, same⟩ := Option.map_eq_some_iff.mp present
      cases same
      exact ih rest count _ later

theorem nextEntry_confined (new : env.New before) (index : Int64) {map : MapRef} {keys : SliceRef}
    (mapNew : before.heap.maps.size ≤ map.index) (keysNew : before.heap.slices.size ≤ keys.index) :
    (state.nextEntry env index map keys).Confined before (HandsNew before) := by
  have items : (Run.read fun world =>
      (world.heap.items keys).toList.drop index.toInt.toNat).Confined before (AllNew before) :=
    Run.read_confined fun _ preserves value member =>
      preserves.heap.items keysNew value (List.mem_of_mem_drop member)
  have entries : (Run.read (·.heap.entries map)).Confined before (Entries.New before) :=
    Run.read_confined fun _ preserves => preserves.heap.entries mapNew
  refine items.bind fun rest news => entries.bind fun entries isNew => ?_
  split
  · next skipped found present =>
    refine (storeInt_confined new _ _).andThen fun _ => Run.pure_confined ?_
    rintro _ ⟨⟩
    exact firstPresent_new isNew news _ _ present
  · exact (storeInt_confined new _ _).andThen fun _ => Run.pure_confined (by simp [HandsNew])

theorem nextChar_confined (new : env.New before) (index : Int64) (text : String) :
    (state.nextChar env index text).Confined before (HandsNew before) := by
  unfold nextChar
  split
  · refine (storeInt_confined new _ _).andThen fun _ => Run.pure_confined ?_
    rintro _ ⟨⟩
    exact ⟨trivial, trivial⟩
  · exact Run.pure_confined (by simp [HandsNew])

theorem next_confined (new : env.New before) (kind : RangeKind) :
    (state.next kind env).Confined before (HandsNew before) := by
  refine (loadInt_confined new _).andThen fun index => ?_
  refine (loadInt_confined new _).andThen fun limit => ?_
  refine (Run.load_confined new 0 _).bind fun subject isNew => ?_
  cases kind with
  | int =>
    refine Run.pure_confined fun pair same => ?_
    split at same
    · cases same
      exact ⟨trivial, trivial⟩
    · cases same
  | slice =>
    dsimp only
    split
    · split
      · refine (Run.item_confined isNew index).bind fun item itemNew => Run.pure_confined ?_
        rintro _ ⟨⟩
        exact ⟨trivial, itemNew⟩
      · exact Run.pure_confined (by simp [HandsNew])
    · exact Run.pure_confined (by simp [HandsNew])
  | string =>
    have text : (Run.ofExcept subject.asStr).Confined before fun _ => True :=
      Run.ofExcept_confined fun _ _ => trivial
    exact text.andThen fun text => nextChar_confined new index text
  | map =>
    refine (Run.load_confined new 0 _).bind fun keys keysNew => ?_
    split
    · exact nextEntry_confined new index isNew keysNew
    · exact Run.pure_confined (by simp [HandsNew])
  | chan =>
    dsimp only
    split
    · refine (Run.recv_confined _ isNew).bind fun found foundNew => Run.pure_confined ?_
      intro pair same
      split at same
      · cases same
        exact ⟨foundNew, trivial⟩
      · cases same
    · exact Run.fail_confined

theorem advance_confined (new : env.New before) :
    (state.advance env).Confined before fun _ => True := by
  refine (loadInt_confined new _).andThen fun index => (loadInt_confined new _).andThen fun step => ?_
  exact storeInt_confined new _ _

end RangeSlots

theorem storeTarget_confined (confined : call.Confined before) (new : env.New before)
    (target : Option Place) (isNew : value.New before) :
    (storeTarget call env target value).Confined before fun _ => True := by
  cases target with
  | none => exact Run.pure_confined trivial
  | some place =>
    refine (Location.ofPlace_confined confined new place).bind fun location locationNew => ?_
    exact Location.store_confined locationNew isNew

namespace Step

def Stays (before : World) (next : Next) : Prop := next.2.New before

theorem goto_confined (new : env.New before) (position : Nat) :
    (goto env position).Confined before (Stays before) :=
  Run.update_confined fun _ preserves => ⟨new, preserves.setIp new position⟩

theorem advance_confined (new : env.New before) : (advance env).Confined before (Stays before) :=
  Run.update_confined fun _ preserves => ⟨new, preserves.setIp new _⟩

theorem interrupt_confined (new : env.New before) (signal : Signal) :
    (interrupt env signal).Confined before (Stays before) := by
  have raises : (Run.modify fun world => world.raise (world.threadOf env) signal).Confined before
      fun _ => True := by
    refine Run.modify_confined fun world preserves => ?_
    exact preserves.updateThread _ fun _ _ found => .inl found
  exact raises.andThen fun _ => Run.pure_confined new

theorem raise_confined (new : env.New before) (error : RuntimeError) :
    (raise env error).Confined before (Stays before) := by
  have sets : (Run.modify fun world => world.setPanic (world.threadOf env) error).Confined before
      fun _ => True := by
    refine Run.modify_confined fun world preserves => ?_
    exact preserves.updateThread _ fun _ _ found => .inl found
  exact sets.andThen fun _ => interrupt_confined new .panic

theorem storeSlots_confined (new : env.New before) {slots : List Slot} {values : List Value}
    (news : AllNew before values) : (storeSlots env slots values).Confined before fun _ => True := by
  induction slots generalizing values with
  | nil => exact Run.pure_confined trivial
  | cons slot slots ih =>
    cases values with
    | nil => exact Run.pure_confined trivial
    | cons value values =>
      obtain ⟨isNew, rest⟩ := List.forall_mem_cons.mp news
      exact (Run.store_confined new slot isNew).andThen fun _ => ih rest

theorem storeInit_confined (new : env.New before) {slots : List (Option Slot)} {values : List Value}
    (news : AllNew before values) : (storeInit env slots values).Confined before fun _ => True := by
  induction slots generalizing values with
  | nil => exact Run.pure_confined trivial
  | cons slot slots ih =>
    cases values with
    | nil => cases slot <;> exact Run.pure_confined trivial
    | cons value values =>
      obtain ⟨isNew, rest⟩ := List.forall_mem_cons.mp news
      cases slot with
      | none => exact ih rest
      | some slot => exact (Run.store_confined new slot isNew).andThen fun _ => ih rest

theorem findCase_confined (confined : call.Confined before) (new : env.New before) (tag : Value)
    (fallback : Nat) (cases : List (Code × Nat)) :
    (findCase call env tag fallback cases).Confined before fun _ => True := by
  induction cases with
  | nil => exact Run.pure_confined trivial
  | cons entry cases ih =>
    refine (eval_confined confined new entry.1).andThen fun value => ?_
    split
    · exact Run.pure_confined trivial
    · exact ih

theorem spawn_confined (confined : call.Confined before) (new : env.New before) (node : Call) :
    (spawn call env node).Confined before fun _ => True := by
  have threads : (Run.update fun world => world.spawnThread (world.threadOf env)).Confined before
      (ThreadRef.Free before) :=
    Run.update_confined fun _ preserves => preserves.spawnThread _
  have acquires (thread : ThreadRef) (free : thread.Free before) :
      (Run.update (·.acquire thread (some env) {} 0 0 0)).Confined before (EnvRef.New before) := by
    refine Run.update_confined fun _ preserves => preserves.acquire free ?_ _ _ _ _
    rintro _ ⟨⟩
    exact new
  refine threads.bind fun thread free => (acquires thread free).bind fun operands operandsNew => ?_
  refine (evalCall_confined confined operandsNew node).attempt.bind fun result news => ?_
  refine (Run.modify_confined fun _ preserves => preserves.drop operandsNew).andThen fun _ => ?_
  refine (Run.ofExcept_confined news).bind fun invocation isNew => ?_
  refine Run.modify_confined fun world preserves =>
    { preserves with pending := fun spawn member => ?_ }
  rcases List.mem_append.mp member with old | last
  · exact preserves.pending spawn old
  · exact List.mem_singleton.mp last ▸ ⟨isNew, free⟩

theorem adopt_confined (new : env.New before) (pairs : List (Slot × Slot)) :
    (adopt env pairs).Confined before fun _ => True := by
  induction pairs with
  | nil => exact Run.pure_confined trivial
  | cons pair pairs ih =>
    refine (Run.load_confined new 1 pair.1).bind fun _ isNew => ?_
    exact (Run.store_confined new pair.2 isNew).andThen fun _ => ih

theorem park_confined (new : env.New before) (parked : Option (Slot × Slot))
    {index : Nat} {received : Option (Value × Bool)}
    (isNew : (Selected.case index received).New before) :
    (park env parked received).Confined before fun _ => True := by
  unfold park
  split
  · refine (Run.store_confined new _ isNew).andThen fun _ => ?_
    exact Run.store_confined new _ (new_const _)
  · exact Run.pure_confined trivial

theorem run_confined (confined : call.Confined before) (new : env.New before) (fuel : Nat)
    (instr : Instr) : (Step.run call fuel env instr).Confined before (Stays before) := by
  cases instr with
  | skip => exact advance_confined new
  | stop => exact Run.pure_confined new
  | interrupt signal => exact interrupt_confined new signal
  | raise error => exact Run.fail_confined
  | eval values =>
    exact (evalValues_confined confined new values).andThen fun _ => advance_confined new
  | goto position => exact goto_confined new position
  | jumpUnless cond position =>
    refine (eval_confined confined new cond).andThen fun value => ?_
    refine (asBool_confined value).andThen fun holds => ?_
    split
    · exact advance_confined new
    · exact goto_confined new position
  | push objects words =>
    have pushes : (Run.update (·.push env objects words)).Confined before (EnvRef.New before) :=
      Run.update_confined fun _ preserves => preserves.push new objects words
    refine pushes.bind fun inner innerNew => ?_
    refine (Run.modify_confined fun _ preserves => preserves.drop new).andThen fun _ => ?_
    exact advance_confined innerNew
  | pop =>
    have pops : (Run.update (·.pop env)).Confined before (EnvRef.New before) :=
      Run.update_confined fun _ preserves => preserves.pop new
    exact pops.bind fun outer outerNew => advance_confined outerNew
  | leave hops dest =>
    have leaves : (Run.update (·.leave env hops)).Confined before (EnvRef.New before) :=
      Run.update_confined fun _ preserves => preserves.leave new hops
    exact leaves.bind fun outer outerNew => goto_confined outerNew _
  | ret hops results values =>
    have target : (Run.read (·.up env hops)).Confined before (EnvRef.New before) :=
      Run.read_confined fun _ preserves => preserves.up new hops
    refine (evalValues_confined confined new values).bind fun _ news => ?_
    refine target.bind fun target targetNew => ?_
    exact (storeSlots_confined targetNew news).andThen fun _ => interrupt_confined new .ret
  | defer node =>
    refine (evalCall_confined confined new node).bind fun invocation isNew => ?_
    have installs : (Run.modify fun world =>
        (world.setIp env (world.ip env + 1)).installDefer (world.threadOf env) invocation).Confined
          before fun _ => True := by
      refine Run.modify_confined fun world preserves => (preserves.setIp new _).updateThread _ ?_
      rintro _ _ ⟨⟩
      exact .inr isNew
    exact installs.andThen fun _ => interrupt_confined new .defer
  | go node => exact (spawn_confined confined new node).andThen fun _ => advance_confined new
  | send channel value =>
    refine (eval_confined confined new channel).bind fun _ isNew => ?_
    refine (eval_confined confined new value).bind fun _ valueNew => ?_
    exact (Run.sendTo_confined isNew valueNew).andThen fun _ => advance_confined new
  | assign places values =>
    refine (Location.ofPlaces_confined confined new places).bind fun _ locations => ?_
    refine (evalValues_confined confined new values).bind fun _ news => ?_
    exact (Location.storeAll_confined locations news).andThen fun _ => advance_confined new
  | update op place operand =>
    refine (Location.ofPlace_confined confined new place).bind fun _ location => ?_
    refine (Location.load_confined location).andThen fun current => ?_
    refine (eval_confined confined new operand).andThen fun operand => ?_
    refine (binary_confined op current operand).bind fun _ isNew => ?_
    exact (Location.store_confined location isNew).andThen fun _ => advance_confined new
  | init slots values =>
    refine (evalValues_confined confined new values).bind fun _ news => ?_
    exact (storeInit_confined new news).andThen fun _ => advance_confined new
  | bind slot template =>
    refine (Run.closure_confined template new).bind fun _ isNew => ?_
    exact (Run.store_confined new slot isNew).andThen fun _ => advance_confined new
  | callInit template =>
    refine (Run.closure_confined template new).bind fun _ isNew => ?_
    refine (Run.threadOf_confined new).bind fun thread free => ?_
    exact (confined thread _ free ⟨isNew, by simp⟩).andThen fun _ => advance_confined new
  | switch tag cases fallback =>
    refine (eval_confined confined new tag).andThen fun tag => ?_
    refine (findCase_confined confined new tag fallback cases).andThen fun position => ?_
    exact goto_confined new position
  | typeSwitch subject cases fallback parked =>
    refine (eval_confined confined new subject).bind fun value isNew => ?_
    cases parked with
    | none => exact goto_confined new _
    | some slot => exact (Run.store_confined new slot isNew).andThen fun _ => goto_confined new _
  | select comms fallback parked =>
    refine (evalComms_confined confined new _).bind fun cases news => ?_
    refine (Run.select_confined fuel news _).bind fun selected isNew => ?_
    cases selected with
    | case index received =>
      exact (park_confined new parked isNew).andThen fun _ => goto_confined new _
    | default => exact goto_confined new _
  | adopt pairs => exact (adopt_confined new pairs).andThen fun _ => advance_confined new
  | unpark slots place flag =>
    refine (Location.ofPlace_confined confined new place).bind fun _ location => ?_
    refine (Location.ofPlaces_confined confined new _).bind fun _ locations => ?_
    refine (Run.load_confined new 0 slots.1).bind fun _ isNew => ?_
    refine (Location.store_confined location isNew).andThen fun _ => ?_
    refine (Run.load_confined new 0 slots.2).bind fun _ flagNew => ?_
    refine (Location.storeAll_confined locations (.cons flagNew (by simp))).andThen fun _ => ?_
    exact advance_confined new
  | rangeStart kind key state subject =>
    refine (eval_confined confined new subject).bind fun _ isNew => ?_
    exact (RangeSlots.start_confined new kind key isNew).andThen fun _ => advance_confined new
  | rangeNext kind state key target exit =>
    refine (RangeSlots.next_confined new kind).bind fun found hands => ?_
    cases found with
    | none => exact goto_confined new exit
    | some pair =>
      obtain ⟨keyNew, isNew⟩ := hands pair rfl
      refine (storeTarget_confined confined new key keyNew).andThen fun _ => ?_
      exact (storeTarget_confined confined new target isNew).andThen fun _ => advance_confined new
  | rangeStep state =>
    exact (RangeSlots.advance_confined new).andThen fun _ => advance_confined new

end Step

theorem step_confined (confined : call.Confined before) (new : env.New before) (fuel : Nat)
    (instr : Instr) : (step call fuel env instr).Confined before (Step.Stays before) := by
  refine (Step.run_confined confined new fuel instr).attempt.bind fun result stays => ?_
  cases result with
  | ok next => exact Run.pure_confined (stays next rfl)
  | error error => exact Step.raise_confined new error

/-- A function of a host that hands out nothing of what was there before, unless it is given it. -/
def HostFunction.Confined (before : World) (function : HostFunction) : Prop :=
  ∀ call : Caller, call.Confined before → ∀ (thread : ThreadRef) (args : List Value),
    thread.Free before → AllNew before args →
    (function call thread args).Confined before (AllNew before)

def Host.Confined (before : World) (host : Host) : Prop :=
  ∀ function ∈ host, HostFunction.Confined before function

theorem Builtin.call_confined (builtin : Builtin) {args : List Value} (news : AllNew before args) :
    (builtin.call args).Confined before (AllNew before) := by
  unfold Builtin.call
  split
  · exact (Run.close_confined (news _ (.head _))).andThen fun _ => Run.pure_confined (by simp)
  · exact Run.fail_confined
  · next keyType elem ref key =>
    have erases : (Run.tryHeap (·.eraseEntry ref key)).Confined before fun _ => True :=
      Run.tryHeap_confined fun _ preserves _ done => preserves.eraseEntry (news _ (.head _)) done
    exact erases.andThen fun _ => Run.pure_confined (by simp)
  · exact (Run.read_any _).andThen fun _ => Run.fail_confined
  · refine (Run.modify_confined fun _ preserves => preserves.write _).andThen fun _ => ?_
    exact Run.pure_confined (by simp)
  · refine (Run.modify_confined fun _ preserves => preserves.write _).andThen fun _ => ?_
    exact Run.pure_confined (by simp)
  · exact Run.pure_confined (by simp)

namespace Machine

variable {exec : EnvRef → Run Unit} {watch : Watch} {host : Host}

theorem packed_confined (signature : Signature) {args : List Value} (news : AllNew before args) :
    (packed signature args).Confined before (AllNew before) := by
  unfold packed
  split
  · exact Run.pure_confined news
  · dsimp only
    split
    · exact Run.fail_confined
    · refine (Run.newSlice_confined _ fun value member => news value (List.mem_of_mem_drop member)).bind
        fun rest isNew => Run.pure_confined fun value member => ?_
      rcases List.mem_append.mp member with front | last
      · exact news value (List.mem_of_mem_take front)
      · exact List.mem_singleton.mp last ▸ isNew

theorem storeZeros_confined (new : env.New before) (slots : List Slot) :
    (storeZeros env slots).Confined before fun _ => True := by
  induction slots with
  | nil => exact Run.pure_confined trivial
  | cons slot slots ih => exact (Run.store_confined new slot (new_zero _)).andThen fun _ => ih

theorem invoke_confined (exec_confined : ∀ env : EnvRef, env.New before →
      (exec env).Confined before fun _ => True) (template : Template) {outer : EnvRef}
    (new : outer.New before) {thread : ThreadRef} (free : thread.Free before) {args : List Value}
    (news : AllNew before args) :
    (invoke exec template outer thread args).Confined before (AllNew before) := by
  have acquires : (Run.update (·.acquire thread (some outer) template.program 0 template.objects
      template.words)).Confined before (EnvRef.New before) := by
    refine Run.update_confined fun _ preserves => preserves.acquire free ?_ _ _ _ _
    rintro _ ⟨⟩
    exact new
  refine acquires.bind fun env envNew => ?_
  refine (Step.storeInit_confined envNew news).andThen fun _ => ?_
  refine (storeZeros_confined envNew _).andThen fun _ => ?_
  refine (exec_confined env envNew).attempt.andThen fun result => ?_
  cases result with
  | error error =>
    exact (Run.modify_confined fun _ preserves => preserves.drop envNew).andThen
      fun _ => Run.fail_confined
  | ok value =>
    have results : (Run.read fun world => template.results.map (world.load env)).Confined before
        (AllNew before) := by
      refine Run.read_confined fun world preserves value member => ?_
      obtain ⟨slot, -, rfl⟩ := List.mem_map.mp member
      exact preserves.load envNew slot
    refine results.bind fun results news => ?_
    exact (Run.modify_confined fun _ preserves => preserves.recycle thread envNew).andThen
      fun _ => Run.pure_confined news

theorem apply_confined (hostConfined : host.Confined before) (confined : call.Confined before)
    (exec_confined : ∀ env : EnvRef, env.New before → (exec env).Confined before fun _ => True)
    {function : Func} (new : (Value.func function).New before) {thread : ThreadRef}
    (free : thread.Free before) {args : List Value} (news : AllNew before args) :
    (apply host call exec function thread args).Confined before (AllNew before) := by
  obtain ⟨signature, body⟩ := function
  unfold apply
  dsimp only
  split
  · exact Run.fail_confined
  · cases body with
    | closure template env => exact invoke_confined exec_confined template new free news
    | native index =>
      dsimp only
      split
      · next native found =>
        exact hostConfined native (List.mem_of_getElem? found) call confined thread args free news
      · exact Run.fail_confined
    | builtin builtin => exact Builtin.call_confined builtin news

theorem runDeferred_confined (confined : call.Confined before) {thread : ThreadRef}
    (free : thread.Free before) (failure : Option RuntimeError) {calls : List Invocation}
    (news : ∀ call ∈ calls, call.New before) :
    (runDeferred call thread failure calls).Confined before fun _ => True := by
  induction calls generalizing failure with
  | nil => exact Run.pure_confined trivial
  | cons invocation calls ih =>
    obtain ⟨first, rest⟩ := List.forall_mem_cons.mp news
    refine (confined thread invocation free first).attempt.andThen fun result => ?_
    cases result with
    | ok results => exact ih failure rest
    | error error => exact ih (some error) rest

structure Halted (before : World) (stopped : Stopped) : Prop where
  env : stopped.env.New before
  deferred : ∀ call ∈ stopped.deferred, call.New before

theorem finish_confined (confined : call.Confined before) {thread : ThreadRef}
    (free : thread.Free before) (root : EnvRef) {stopped : Stopped} (halted : Halted before stopped) :
    (finish call thread root stopped).Confined before fun _ => True := by
  have unwinds : (Run.update (·.unwind root stopped.env)).Confined before (EnvRef.New before) :=
    Run.update_confined fun _ preserves => preserves.unwind root halted.env
  refine unwinds.bind fun env new => ?_
  refine (Run.modify_confined fun _ preserves => preserves.drop new).andThen fun _ => ?_
  refine (runDeferred_confined confined free _ halted.deferred).andThen fun failure => ?_
  cases failure with
  | none => exact Run.pure_confined trivial
  | some error => exact Run.fail_confined

theorem execWith_confined (confined : call.Confined before)
    {loop : EnvRef → Option Instr → List Invocation → Run Stopped}
    (loops : ∀ (env : EnvRef) (next : Option Instr), env.New before →
      (loop env next []).Confined before (Halted before)) {root : EnvRef} (new : root.New before) :
    (execWith call loop root).Confined before fun _ => True := by
  refine (Run.threadOf_confined new).bind fun thread free => ?_
  refine (Run.modify_confined fun _ preserves => preserves.retain new).andThen fun _ => ?_
  refine (Run.read_any _).andThen fun first => (loops root first new).bind fun stopped halted => ?_
  exact finish_confined confined free root halted

theorem settle_confined {resume : Option Instr → Invocation → Run Stopped} (new : env.New before)
    {deferred : List Invocation} (news : ∀ call ∈ deferred, call.New before)
    (resumes : ∀ next invocation, invocation.New before →
      (resume next invocation).Confined before (Halted before)) :
    (settle resume env deferred).Confined before (Halted before) := by
  have signals (thread : ThreadRef) : (Run.update (·.takeSignal thread)).Confined before
      fun _ => True :=
    Run.update_confined fun _ preserves =>
      ⟨trivial, preserves.updateThread thread fun _ _ found => .inl found⟩
  have defers (thread : ThreadRef) (free : thread.Free before) :
      (Run.update (·.takeDefer thread)).Confined before fun found => ∀ call, found = some call →
        call.New before :=
    Run.update_confined fun world preserves =>
      ⟨fun call => preserves.deferred thread call free,
        preserves.updateThread thread fun _ _ found => by simp at found⟩
  have panics (thread : ThreadRef) : (Run.update (·.takePanic thread)).Confined before
      fun _ => True :=
    Run.update_confined fun _ preserves =>
      ⟨trivial, preserves.updateThread thread fun _ _ found => .inl found⟩
  refine (Run.threadOf_confined new).bind fun thread free =>
    (signals thread).andThen fun signal => ?_
  cases signal with
  | none => exact Run.pure_confined ⟨new, news⟩
  | ret => exact Run.pure_confined ⟨new, news⟩
  | defer =>
    refine (defers thread free).bind fun found isNew => ?_
    cases found with
    | none => exact Run.pure_confined ⟨new, news⟩
    | some invocation =>
      exact (Run.read_any _).andThen fun next => resumes next invocation (isNew _ rfl)
  | panic => exact (panics thread).andThen fun _ => Run.pure_confined ⟨new, news⟩

theorem pause_confined (watch : Watch) (env : EnvRef) (next : Option Instr) :
    (pause watch env next).Confined before fun _ => True := by
  intro world preserves
  unfold pause
  split
  · trivial
  · exact ⟨preserves, trivial⟩

theorem watchedCall_confined (watch : Watch) (hostConfined : host.Confined before) (fuel : Nat) :
    Caller.Confined before (watchedCall watch host fuel) ∧
      ∀ (env : EnvRef) (next : Option Instr) (deferred : List Invocation), env.New before →
        (∀ call ∈ deferred, call.New before) →
        (loop watch host fuel env next deferred).Confined before (Halted before) := by
  induction fuel with
  | zero =>
    refine ⟨fun thread invocation _ _ => ?_, fun env next deferred _ _ => ?_⟩
    · unfold watchedCall
      exact Run.exhausted_confined
    · unfold loop
      exact Run.exhausted_confined
  | succ fuel ih =>
    obtain ⟨calls, loops⟩ := ih
    have execs (env : EnvRef) (new : env.New before) : (execWith (watchedCall watch host fuel)
        (loop watch host fuel) env).Confined before fun _ => True :=
      execWith_confined calls (fun env next new => loops env next [] new (by simp)) new
    constructor
    · rintro thread ⟨callee, args, spread⟩ free ⟨new, news⟩
      cases callee with
      | func function =>
        unfold watchedCall
        have applies (args : List Value) (news : AllNew before args) :=
          apply_confined hostConfined calls execs new free news
        dsimp only
        split
        · exact applies args news
        · exact (packed_confined _ news).bind applies
      | const | slice | map | chan =>
        unfold watchedCall
        exact Run.fail_confined
    · intro env next deferred new news
      unfold loop
      refine (pause_confined watch env next).andThen fun _ => ?_
      cases next with
      | some instr =>
        refine (step_confined calls new fuel instr).bind fun next stays => ?_
        exact loops next.2 next.1 deferred stays news
      | none =>
        refine settle_confined new news fun next invocation isNew => ?_
        exact loops env next _ new (List.forall_mem_cons.mpr ⟨isNew, news⟩)

theorem runTask_confined (watch : Watch) (hostConfined : host.Confined before) (fuel : Nat)
    {spawn : Spawn} (new : spawn.New before) :
    (runTask watch host fuel spawn).Confined before fun _ => True := by
  obtain ⟨calls, -⟩ := watchedCall_confined watch hostConfined fuel
  refine (calls spawn.thread spawn.invocation new.thread new.invocation).attempt.andThen fun result => ?_
  cases result with
  | ok results => exact Run.pure_confined trivial
  | error error =>
    refine (Run.modify_confined fun world preserves => ?_).andThen fun _ => Run.fail_confined
    exact { preserves with }

end Machine

end MiniGo
