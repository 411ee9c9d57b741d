import MiniGo.Proofs.Compounds
import MiniGo.Proofs.Seals
/-!
The iteration state of a range loop as a value. The slots that hold it are sealed, so it is what the
instructions of the loop have made of it, whatever else has been run in between.
-/

namespace MiniGo

structure Iteration where
  subject : Value
  /-- A slice of the keys, if the subject is a map. -/
  keys : Value
  index : Int64
  limit : Int64
  step : Int64

namespace Iteration

variable (iteration : Iteration)

/-- What is handed out in a state, and the state that a turn goes on with. A channel has no such
state. -/
def hands (kind : RangeKind) (world : World) :
    Except RuntimeError (Option (Value × Value) × Iteration) :=
  match kind with
  | .int => pure (if iteration.index < iteration.limit then some (.int iteration.index, .nil) else none,
      iteration)
  | .slice =>
    match iteration.subject with
    | .slice _ ref =>
      if iteration.index < iteration.limit then do
        let item ← world.heap.item ref iteration.index
        pure (some (.int iteration.index, item), iteration)
      else pure (none, iteration)
    | _ => pure (none, iteration)
  | .string => do
    let text ← iteration.subject.asStr
    match Text.charAt? text.toList iteration.index.toInt.toNat with
    | some char => pure (some (.int iteration.index, .int (Int64.ofNat char.toNat)),
        { iteration with step := Int64.ofNat char.utf8Size })
    | none => pure (none, iteration)
  | .map =>
    match iteration.subject, iteration.keys with
    | .map _ _ map, .slice _ keys =>
      let rest := (world.heap.items keys).toList.drop iteration.index.toInt.toNat
      match RangeSlots.firstPresent (world.heap.entries map) rest with
      | some (skipped, found) =>
        pure (some found, { iteration with index := iteration.index + Int64.ofNat skipped })
      | none => pure (none, { iteration with index := iteration.index + Int64.ofNat rest.length })
    | _, _ => pure (none, iteration)
  | .chan => pure (none, iteration)

def stepped : Iteration := { iteration with index := iteration.index + iteration.step }

/-- The state from which a loop over a value starts, and what the start leaves in the heap: the keys of
a map are put in a slice of their own. -/
structure Begins (kind : RangeKind) (value : Value) (before after : Heap) : Prop where
  subject : iteration.subject = value
  index : iteration.index = 0
  step : iteration.step = 1
  number : ∀ number, kind = .int → value = .int number → iteration.limit = number
  length : ∀ elem ref, kind = .slice → value = .slice elem ref →
    iteration.limit = Int64.ofNat (before.items ref).size
  keys : ∀ key elem map, kind = .map → value = .map key elem map → ∃ type ref,
    iteration.keys = .slice type ref ∧
      after.items ref = ((before.entries map).keys.map MapKey.toValue).toArray
  slices : before.slices.size ≤ after.slices.size
  items : ∀ ref : SliceRef, ref.index < before.slices.size → after.items ref = before.items ref
  entries : ∀ ref, after.entries ref = before.entries ref

end Iteration

namespace RangeSlots

variable (slots : RangeSlots)

def parts : List Slot := [slots.subject, slots.keys, slots.index, slots.limit, slots.step]

def holding (iteration : Iteration) : List (Slot × Value) :=
  [(slots.subject, iteration.subject), (slots.keys, iteration.keys),
    (slots.index, .int iteration.index), (slots.limit, .int iteration.limit),
    (slots.step, .int iteration.step)]

structure Reserved (level : Level) (subject key : Ty) : Prop where
  isSealed : ∀ slot ∈ slots.parts, slot ∈ level.sealed
  distinct : slots.parts.Nodup
  subject : slots.subject.type = subject
  keys : slots.keys.type = .slice key
  index : slots.index.type = .int
  limit : slots.limit.type = .int
  step : slots.step.type = .int

section Reserved

variable {slots} {level : Level} {subject key : Ty}

theorem Reserved.sealed_each (reserved : slots.Reserved level subject key) :
    slots.subject ∈ level.sealed ∧ slots.keys ∈ level.sealed ∧ slots.index ∈ level.sealed ∧
      slots.limit ∈ level.sealed ∧ slots.step ∈ level.sealed :=
  ⟨reserved.isSealed _ (by simp [parts]), reserved.isSealed _ (by simp [parts]),
    reserved.isSealed _ (by simp [parts]), reserved.isSealed _ (by simp [parts]),
    reserved.isSealed _ (by simp [parts])⟩

theorem Reserved.distinct_each (reserved : slots.Reserved level subject key) :
    (slots.subject ≠ slots.keys ∧ slots.subject ≠ slots.index ∧ slots.subject ≠ slots.limit ∧
      slots.subject ≠ slots.step) ∧
    (slots.keys ≠ slots.index ∧ slots.keys ≠ slots.limit ∧ slots.keys ≠ slots.step) ∧
    (slots.index ≠ slots.limit ∧ slots.index ≠ slots.step) ∧ slots.limit ≠ slots.step := by
  simpa [parts] using reserved.distinct

end Reserved

structure Holds (env : EnvRef) (world : World) (iteration : Iteration) : Prop where
  subject : world.load env slots.subject = iteration.subject
  keys : world.load env slots.keys = iteration.keys
  index : world.load env slots.index = .int iteration.index
  limit : world.load env slots.limit = .int iteration.limit
  step : world.load env slots.step = .int iteration.step

/-- How an instruction of the loop changes the state: in one slot at most. -/
inductive Sets (env : EnvRef) (iteration : Iteration) (world : World) : Iteration → World → Prop
  | nothing : Sets env iteration world iteration world
  | index (index : Int64) : Sets env iteration world { iteration with index }
    (world.store env slots.index (.int index))
  | step (step : Int64) : Sets env iteration world { iteration with step }
    (world.store env slots.step (.int step))

def Yields (env : EnvRef) (iteration : Iteration) (world : World)
    (outcome : Outcome (Option (Value × Value))) :
    Except RuntimeError (Option (Value × Value) × Iteration) → Prop
  | .error error => outcome = .fail error world
  | .ok (found, after) => ∃ later, outcome = .done found later ∧
    slots.Sets env iteration world after later

section Runs

variable {slots} {env : EnvRef} {world : World} {iteration : Iteration} {kind : RangeKind}

theorem Yields.unchanged {outcome : Outcome (Option (Value × Value))} {found : Option (Value × Value)}
    (done : outcome = .done found world) :
    slots.Yields env iteration world outcome (.ok (found, iteration)) := ⟨world, done, .nothing⟩

theorem nextChar_yields (text : String) :
    slots.Yields env iteration world (slots.nextChar env iteration.index text world)
      (match Text.charAt? text.toList iteration.index.toInt.toNat with
      | some char => .ok (some (.int iteration.index, .int (Int64.ofNat char.toNat)),
          { iteration with step := Int64.ofNat char.utf8Size })
      | none => .ok (none, iteration)) := by
  unfold nextChar
  cases Text.charAt? text.toList iteration.index.toInt.toNat with
  | some char => exact ⟨_, rfl, .step _⟩
  | none => exact .unchanged rfl

theorem nextEntry_yields (map : MapRef) (keys : SliceRef) :
    slots.Yields env iteration world (slots.nextEntry env iteration.index map keys world)
      (let rest := (world.heap.items keys).toList.drop iteration.index.toInt.toNat
      match firstPresent (world.heap.entries map) rest with
      | some (skipped, found) =>
        .ok (some found, { iteration with index := iteration.index + Int64.ofNat skipped })
      | none => .ok (none, { iteration with index := iteration.index + Int64.ofNat rest.length })) := by
  have readKeys : Run.read (fun world => (world.heap.items keys).toList.drop
      iteration.index.toInt.toNat) world =
        .done ((world.heap.items keys).toList.drop iteration.index.toInt.toNat) world := rfl
  have readEntries : Run.read (·.heap.entries map) world = .done (world.heap.entries map) world := rfl
  unfold nextEntry
  rw [Run.bind_done readKeys, Run.bind_done readEntries]
  dsimp only
  cases firstPresent (world.heap.entries map)
      ((world.heap.items keys).toList.drop iteration.index.toInt.toNat) with
  | some first => exact ⟨_, rfl, .index _⟩
  | none => exact ⟨_, rfl, .index _⟩

theorem loadInt_done {slot : Slot} {number : Int64} (holds : world.load env slot = .int number) :
    loadInt env slot world = .done number world := by
  have loads : Run.load env 0 slot world = .done (.int number) world := by
    rw [← holds]
    rfl
  exact Run.bind_done loads _

theorem Holds.next (holds : slots.Holds env world iteration) (notChan : kind ≠ .chan) :
    slots.Yields env iteration world (slots.next kind env world) (iteration.hands kind world) := by
  have loadSubject : Run.load env 0 slots.subject world = .done iteration.subject world := by
    rw [← holds.subject]
    rfl
  have loadKeys : Run.load env 0 slots.keys world = .done iteration.keys world := by
    rw [← holds.keys]
    rfl
  unfold RangeSlots.next
  rw [Run.bind_done (loadInt_done holds.index), Run.bind_done (loadInt_done holds.limit),
    Run.bind_done loadSubject]
  clear holds loadSubject
  obtain ⟨subject, keys, index, limit, step⟩ := iteration
  cases kind with
  | chan => exact absurd rfl notChan
  | int => exact .unchanged rfl
  | slice =>
    unfold Iteration.hands
    cases subject with
    | slice elem ref =>
      dsimp only
      split
      · cases made : world.heap.item ref index with
        | error error =>
          have read : Run.tryRead (·.heap.item ref index) world = .fail error world := by
            simp only [Run.tryRead, made]
          show Run.bind _ _ world = _
          rw [Run.bind_apply, read]
          rfl
        | ok item =>
          have read : Run.tryRead (·.heap.item ref index) world = .done item world := by
            simp only [Run.tryRead, made]
          exact .unchanged (Run.bind_done read _)
      · exact .unchanged rfl
    | const | map | func | chan => exact .unchanged rfl
  | string =>
    unfold Iteration.hands
    dsimp only
    cases made : subject.asStr with
    | error error =>
      show Run.bind _ _ world = _
      rw [Run.bind_apply]
      rfl
    | ok text => exact nextChar_yields text
  | map =>
    dsimp only
    rw [Run.bind_done loadKeys]
    unfold Iteration.hands
    cases subject with
    | map key elem map =>
      cases keys with
      | slice type keys => exact nextEntry_yields map keys
      | const | map | func | chan => exact .unchanged rfl
    | const | slice | func | chan => exact .unchanged rfl

theorem Holds.advance (holds : slots.Holds env world iteration) :
    slots.advance env world =
      .done () (world.store env slots.index (.int (iteration.index + iteration.step))) := by
  unfold RangeSlots.advance
  rw [Run.bind_done (loadInt_done holds.index), Run.bind_done (loadInt_done holds.step)]
  rfl

end Runs

end RangeSlots

theorem Compile.rangeSlots_reserved {frame after : Frame} {subject key : Ty} {slots : RangeSlots}
    (taken : rangeSlots frame subject key = (slots, after)) (level : Level)
    (same : level.frame = frame) :
    ∃ final : Level, final.frame = after ∧ level.Grows final ∧ slots.Reserved final subject key := by
  have distinct : slots.parts.Nodup := by
    have words : Ty.isScalar .int = true := rfl
    have objects : Ty.isScalar (.slice key) = false := rfl
    simp only [rangeSlots, Prod.mk.injEq] at taken
    obtain ⟨rfl, rfl⟩ := taken
    by_cases scalar : subject.isScalar = true
    · simp only [RangeSlots.parts, Frame.allocate, scalar, words, objects]
      simp
      constructor <;> intro same <;> omega
    · simp only [RangeSlots.parts, Frame.allocate, scalar, words, objects]
      simp
      omega
  simp only [rangeSlots, Prod.mk.injEq] at taken
  obtain ⟨rfl, rfl⟩ := taken
  subst same
  obtain ⟨first, firstFrame, firstGrows, firstSealed⟩ := level.exists_sealed subject
  rw [← firstFrame] at distinct ⊢
  obtain ⟨second, secondFrame, secondGrows, secondSealed⟩ := first.exists_sealed (.slice key)
  rw [← secondFrame] at distinct ⊢
  obtain ⟨third, thirdFrame, thirdGrows, thirdSealed⟩ := second.exists_sealed .int
  rw [← thirdFrame] at distinct ⊢
  obtain ⟨fourth, fourthFrame, fourthGrows, fourthSealed⟩ := third.exists_sealed .int
  rw [← fourthFrame] at distinct ⊢
  obtain ⟨fifth, fifthFrame, fifthGrows, fifthSealed⟩ := fourth.exists_sealed .int
  have late := fourthGrows.trans fifthGrows
  have mid := thirdGrows.trans late
  have early := secondGrows.trans mid
  refine ⟨fifth, fifthFrame, firstGrows.trans early, ?_, distinct, Frame.allocate_type _ _,
    Frame.allocate_type _ _, Frame.allocate_type _ _, Frame.allocate_type _ _,
    Frame.allocate_type _ _⟩
  simp only [RangeSlots.parts, List.forall_mem_cons, List.not_mem_nil, false_imp_iff, implies_true,
    and_true]
  exact ⟨early.sealed firstSealed, mid.sealed secondSealed, late.sealed thirdSealed,
    fifthGrows.sealed fourthSealed, fifthSealed⟩

theorem Iteration.hands_keeps {iteration after : Iteration} {kind : RangeKind} {world : World}
    {found : Option (Value × Value)} (made : iteration.hands kind world = .ok (found, after)) :
    after.subject = iteration.subject ∧ after.keys = iteration.keys := by
  obtain ⟨subject, keys, index, limit, step⟩ := iteration
  cases kind with
  | int | chan =>
    cases made
    exact ⟨rfl, rfl⟩
  | slice =>
    simp only [hands] at made
    split at made
    · split at made
      · obtain ⟨item, -, made⟩ := Except.bind_eq_ok.mp made
        cases made
        exact ⟨rfl, rfl⟩
      · cases made
        exact ⟨rfl, rfl⟩
    · cases made
      exact ⟨rfl, rfl⟩
  | string =>
    obtain ⟨text, -, made⟩ := Except.bind_eq_ok.mp made
    split at made <;> cases made <;> exact ⟨rfl, rfl⟩
  | map =>
    simp only [hands] at made
    split at made
    · split at made <;> cases made <;> exact ⟨rfl, rfl⟩
    · cases made
      exact ⟨rfl, rfl⟩

section Configs

variable [Natives] {strict : Prop} {course : Course strict} {start now : Config strict}
  {task : ThreadRef} {floor : Nat} {env : EnvRef} {blocks : List EnvRef} {layer : Layer}
  {layers : List Layer} {slots : RangeSlots} {subject key : Ty} {iteration after : Iteration}

theorem Iteration.hands_fit {kind : RangeKind} {value : Option Ty} {found : Option (Value × Value)}
    (isStrict : strict) (ranged : kind.Over subject key value)
    (inhabits : iteration.subject.Inhabits now.shape subject)
    (keys : ∀ mapKey elem map type ref, kind = .map → iteration.subject = .map mapKey elem map →
      iteration.keys = .slice type ref →
      ∀ value ∈ now.world.heap.items ref, value.Inhabits now.shape key)
    (made : iteration.hands kind now.world = .ok (found, after)) :
    RangeSlots.Hands now.shape key value found := by
  cases kind with
  | int =>
    obtain ⟨-, rfl, rfl⟩ := ranged.eq_int
    cases made
    split
    · exact .some (Value.inhabits_const (Value.is_self _)) trivial (by simp)
    · exact .none
  | slice =>
    obtain ⟨elem, rfl, rfl, rfl⟩ := ranged.eq_slice
    rcases (inhabits.2 isStrict).eq_slice with isNil | ⟨ref, isSlice⟩
    · simp only [hands, isNil] at made
      cases made
      exact .none
    · simp only [hands, isSlice] at made
      split at made
      · obtain ⟨item, isItem, made⟩ := Except.bind_eq_ok.mp made
        cases made
        rw [isSlice] at inhabits
        obtain ⟨position, -, found⟩ := Heap.item_eq_ok.mp isItem
        have is := now.sound.heap.items inhabits.1 item (Array.mem_of_getElem? found)
        refine .some (Value.inhabits_const (Value.is_self _)) is.1 ?_
        rintro _ ⟨⟩
        exact is
      · cases made
        exact .none
  | string =>
    obtain ⟨rfl, rfl, rfl⟩ := ranged.eq_string
    obtain ⟨text, -, made⟩ := Except.bind_eq_ok.mp made
    split at made
    · cases made
      refine .some (Value.inhabits_const (Value.is_self _)) trivial ?_
      rintro _ ⟨⟩
      exact Value.inhabits_const (Value.is_self _)
    · cases made
      exact .none
  | map =>
    obtain ⟨elem, rfl, rfl⟩ := ranged.eq_map
    rcases (inhabits.2 isStrict).eq_map with isNil | ⟨map, isMap⟩
    · simp only [hands, isNil] at made
      cases made
      exact .none
    · rw [isMap] at inhabits
      simp only [hands, isMap] at made
      split at made
      · rename_i mapKey elem map type ref isSubject isKeys
        cases isSubject
        split at made
        · rename_i found first
          cases made
          obtain ⟨isKey, isValue⟩ := RangeSlots.firstPresent_spec (now.sound.heap.entries inhabits.1)
            (fun value member => keys _ _ _ _ _ rfl isMap isKeys value
              (Array.mem_toList_iff.mp (List.mem_of_mem_drop member))) first
          refine .some isKey isValue.1 ?_
          rintro _ ⟨⟩
          exact isValue
        · cases made
          exact .none
      · cases made
        exact .none
  | chan =>
    cases made
    exact .none

namespace Course.Busy

theorem holds (busy : course.Busy start task floor env blocks (layer :: layers) now)
    (known : layer.held = slots.holding iteration) : slots.Holds env now.world iteration :=
  ⟨busy.held (by simp [known, RangeSlots.holding]), busy.held (by simp [known, RangeSlots.holding]),
    busy.held (by simp [known, RangeSlots.holding]), busy.held (by simp [known, RangeSlots.holding]),
    busy.held (by simp [known, RangeSlots.holding])⟩

theorem holding (busy : course.Busy start task floor env blocks (layer :: layers) now)
    (reserved : slots.Reserved layer.level subject key) (holds : slots.Holds env now.world iteration) :
    course.Busy start task floor env blocks
      ({ layer with held := slots.holding iteration } :: layers) now := by
  have recalled := busy.recalls reserved.isSealed
  simpa [RangeSlots.parts, RangeSlots.holding, holds.subject, holds.keys, holds.index, holds.limit,
    holds.step] using recalled

theorem sets {world : World} (busy : course.Busy start task floor env blocks (layer :: layers) now)
    (known : layer.held = slots.holding iteration) (quiet : now.Quiet task)
    (reserved : slots.Reserved layer.level subject key)
    (sets : slots.Sets env iteration now.world after world) :
    ∃ later : Config strict, later.world = world ∧ now.Advances task later ∧ later.Quiet task ∧
      course.Busy start task floor env blocks
        ({ layer with held := slots.holding after } :: layers) later ∧
      later.shape = now.shape ∧ later.world.ip env = now.world.ip env ∧
      later.world.heap = now.world.heap := by
  have holds := busy.holds known
  obtain ⟨sealedSubject, sealedKeys, sealedIndex, sealedLimit, sealedStep⟩ := reserved.sealed_each
  obtain ⟨⟨-, subjectIndex, -, subjectStep⟩, ⟨keysIndex, -, keysStep⟩, ⟨indexLimit, indexStep⟩,
    limitStep⟩ := reserved.distinct_each
  cases sets with
  | nothing => exact ⟨now, rfl, .refl _ _, quiet, known ▸ busy, rfl, rfl, rfl⟩
  | index index =>
    have is : Value.Is (.int index) slots.index.type := reserved.index ▸ Value.is_self _
    obtain ⟨later, same, advances, quiets, busy, shape, ip, stored, others⟩ := busy.puts sealedIndex is
    refine ⟨later, same, advances, quiets quiet, busy.holding reserved ⟨?_, ?_, stored, ?_, ?_⟩, shape,
      ip, by rw [same]; rfl⟩
    · rw [others _ sealedSubject subjectIndex, holds.subject]
    · rw [others _ sealedKeys keysIndex, holds.keys]
    · rw [others _ sealedLimit indexLimit.symm, holds.limit]
    · rw [others _ sealedStep indexStep.symm, holds.step]
  | step step =>
    have is : Value.Is (.int step) slots.step.type := reserved.step ▸ Value.is_self _
    obtain ⟨later, same, advances, quiets, busy, shape, ip, stored, others⟩ := busy.puts sealedStep is
    refine ⟨later, same, advances, quiets quiet, busy.holding reserved ⟨?_, ?_, ?_, ?_, stored⟩, shape,
      ip, by rw [same]; rfl⟩
    · rw [others _ sealedSubject subjectStep, holds.subject]
    · rw [others _ sealedKeys keysStep, holds.keys]
    · rw [others _ sealedIndex indexStep, holds.index]
    · rw [others _ sealedLimit limitStep, holds.limit]

end Course.Busy

omit [Natives] in
theorem RangeSlots.limitOf_plain {kind : RangeKind} {value : Option Ty} {found : Value}
    {world : World} (ranged : kind.Over subject key value) (notChan : kind ≠ .chan)
    (is : found.Is subject) (bare : kind = .map → found.isNil = true) (keys : Value) :
    ∃ limit, slots.limitOf kind key env found world = .done limit world ∧
      Iteration.Begins ⟨found, keys, 0, limit, 1⟩ kind found world.heap world.heap := by
  cases kind with
  | chan => exact absurd rfl notChan
  | int =>
    obtain ⟨rfl, -, -⟩ := ranged.eq_int
    obtain ⟨number, rfl⟩ := is.eq_int
    refine ⟨number, rfl, rfl, rfl, rfl, ?_, by simp, by simp, Nat.le_refl _, fun _ _ => rfl,
      fun _ => rfl⟩
    rintro _ - ⟨⟩
    rfl
  | string =>
    obtain ⟨rfl, -, -⟩ := ranged.eq_string
    obtain ⟨text, rfl⟩ := is.eq_str
    exact ⟨_, rfl, rfl, rfl, rfl, by simp, by simp, by simp, Nat.le_refl _, fun _ _ => rfl,
      fun _ => rfl⟩
  | slice =>
    obtain ⟨elem, rfl, -, -⟩ := ranged.eq_slice
    rcases is.eq_slice with rfl | ⟨ref, rfl⟩
    · exact ⟨_, rfl, rfl, rfl, rfl, by simp, by simp, by simp, Nat.le_refl _, fun _ _ => rfl,
      fun _ => rfl⟩
    · refine ⟨_, rfl, rfl, rfl, rfl, by simp, ?_, by simp, Nat.le_refl _, fun _ _ => rfl, fun _ => rfl⟩
      rintro _ _ - ⟨⟩
      rfl
  | map =>
    obtain ⟨elem, rfl, -⟩ := ranged.eq_map
    rcases is.eq_map with rfl | ⟨ref, rfl⟩
    · exact ⟨_, rfl, rfl, rfl, rfl, by simp, by simp, by simp, Nat.le_refl _, fun _ _ => rfl,
      fun _ => rfl⟩
    · exact absurd (bare rfl) Bool.false_ne_true

namespace Course.Busy

theorem takesKeys {map : MapRef} {mapKey elem : Ty}
    (busy : course.Busy start task floor env blocks (layer :: layers) now) (quiet : now.Quiet task)
    (reserved : slots.Reserved layer.level subject key) :
    ∃ (later : Config strict) (limit : Int64) (ref : SliceRef),
      slots.limitOf .map key env (.map mapKey elem map) now.world = .done limit later.world ∧
      now.Advances task later ∧ later.Quiet task ∧
      course.Busy start task floor env blocks ({ layer with held := [] } :: layers) later ∧
      later.world.ip env = now.world.ip env ∧ later.world.load env slots.keys = .slice key ref ∧
      later.shape.keys ref = some (later.world.heap.items ref) ∧
      Iteration.Begins ⟨.map mapKey elem map, .slice key ref, 0, limit, 1⟩ .map (.map mapKey elem map)
        now.world.heap later.world.heap := by
  let keys := ((now.world.heap.entries map).keys.map MapKey.toValue).toArray
  obtain ⟨middle, isMiddle, calm, known⟩ := now.exists_keys keys
  obtain ⟨-, sealedKeys, -, -, -⟩ := reserved.sealed_each
  have isKeys : Value.Is (.slice key (now.world.heap.newSlice keys).1) slots.keys.type :=
    reserved.keys ▸ Value.is_self _
  obtain ⟨later, same, advances, quiets, busyLater, shape, ip, stored, -⟩ :=
    (busy.calm calm).puts sealedKeys isKeys
  have heap : later.world.heap = (now.world.heap.newSlice keys).2 := by
    rw [same, isMiddle]
    rfl
  have items : later.world.heap.items (now.world.heap.newSlice keys).1 = keys := by
    simp [heap, Heap.items, Heap.newSlice]
  have middleIp : middle.world.ip env = now.world.ip env := by
    rw [isMiddle]
    rfl
  refine ⟨later, Int64.ofNat ((now.world.heap.entries map).keys.map MapKey.toValue).length,
    (now.world.heap.newSlice keys).1, ?_, calm.advances.trans advances, quiets (calm.quiet quiet),
    busyLater, ip.trans middleIp, stored, ?_, rfl, rfl, rfl, by simp, by simp, ?_, ?_, ?_, ?_⟩
  · rw [same, isMiddle]
    rfl
  · rw [shape, items, known]
  · rintro _ _ _ - ⟨⟩
    exact ⟨key, _, rfl, items⟩
  · simp [heap, Heap.newSlice]
  · intro ref inside
    simp [heap, Heap.items, Heap.newSlice, Array.getElem?_push, Nat.ne_of_lt inside]
  · intro ref
    simp [heap, Heap.entries, Heap.newSlice]

theorem storesState {found : Value}
    (busy : course.Busy start task floor env blocks (layer :: layers) now) (quiet : now.Quiet task)
    (reserved : slots.Reserved layer.level subject key) (is : found.Is subject) (limit : Int64) :
    ∃ later : Config strict,
      (do
        Run.store env slots.subject found
        Run.store env slots.index (.int 0)
        Run.store env slots.limit (.int limit)
        Run.store env slots.step (.int 1)) now.world = .done () later.world ∧
      now.Advances task later ∧ later.Quiet task ∧
      course.Busy start task floor env blocks ({ layer with
        held := slots.holding ⟨found, now.world.load env slots.keys, 0, limit, 1⟩ } :: layers) later ∧
      later.world.ip env = now.world.ip env ∧ later.shape = now.shape ∧
      later.world.heap = now.world.heap := by
  obtain ⟨sealedSubject, sealedKeys, sealedIndex, sealedLimit, sealedStep⟩ := reserved.sealed_each
  obtain ⟨⟨subjectKeys, subjectIndex, subjectLimit, subjectStep⟩, ⟨keysIndex, keysLimit, keysStep⟩,
    ⟨indexLimit, indexStep⟩, limitStep⟩ := reserved.distinct_each
  have isSubject : found.Is slots.subject.type := reserved.subject ▸ is
  have isIndex : Value.Is (.int 0) slots.index.type := reserved.index ▸ Value.is_self _
  have isLimit : Value.Is (.int limit) slots.limit.type := reserved.limit ▸ Value.is_self _
  have isStep : Value.Is (.int 1) slots.step.type := reserved.step ▸ Value.is_self _
  obtain ⟨first, same1, advances1, quiets1, busy, shape1, ip1, stored1, others1⟩ :=
    busy.puts sealedSubject isSubject
  obtain ⟨second, same2, advances2, quiets2, busy, shape2, ip2, stored2, others2⟩ :=
    busy.puts sealedIndex isIndex
  obtain ⟨third, same3, advances3, quiets3, busy, shape3, ip3, stored3, others3⟩ :=
    busy.puts sealedLimit isLimit
  obtain ⟨last, same4, advances4, quiets4, busy, shape4, ip4, stored4, others4⟩ :=
    busy.puts sealedStep isStep
  have isLast : last.world = (((now.world.store env slots.subject found).store env slots.index
      (.int 0)).store env slots.limit (.int limit)).store env slots.step (.int 1) := by
    rw [same4, same3, same2, same1]
  refine ⟨last, by rw [isLast]; rfl, ((advances1.trans advances2).trans advances3).trans advances4,
    quiets4 (quiets3 (quiets2 (quiets1 quiet))), busy.holding reserved ⟨?_, ?_, ?_, ?_, stored4⟩,
    by rw [ip4, ip3, ip2, ip1], by rw [shape4, shape3, shape2, shape1], by rw [isLast]; rfl⟩
  · rw [others4 _ sealedSubject subjectStep, others3 _ sealedSubject subjectLimit,
      others2 _ sealedSubject subjectIndex, stored1]
  · rw [others4 _ sealedKeys keysStep, others3 _ sealedKeys keysLimit, others2 _ sealedKeys keysIndex,
      others1 _ sealedKeys subjectKeys.symm]
  · rw [others4 _ sealedIndex indexStep, others3 _ sealedIndex indexLimit, stored2]
  · rw [others4 _ sealedLimit limitStep, stored3]

theorem begins {kind : RangeKind} {value : Option Ty} {found : Value}
    (busy : course.Busy start task floor env blocks (layer :: layers) now) (quiet : now.Quiet task)
    (reserved : slots.Reserved layer.level subject key) (ranged : kind.Over subject key value)
    (notChan : kind ≠ .chan) (is : found.Is subject) :
    ∃ (later : Config strict) (iteration : Iteration),
      slots.start kind key env found now.world = .done () later.world ∧
      now.Advances task later ∧ later.Quiet task ∧
      course.Busy start task floor env blocks
        ({ layer with held := slots.holding iteration } :: layers) later ∧
      later.world.ip env = now.world.ip env ∧
      iteration.Begins kind found now.world.heap later.world.heap ∧
      ∀ mapKey elem map, kind = .map → found = .map mapKey elem map → ∃ type ref,
        iteration.keys = .slice type ref ∧
          later.shape.keys ref = some (later.world.heap.items ref) := by
  by_cases bare : kind = .map → found.isNil = true
  · obtain ⟨limit, ran, begins⟩ := RangeSlots.limitOf_plain ranged notChan is bare
      (now.world.load env slots.keys)
    obtain ⟨later, stores, advances, quiet, busy, ip, -, heap⟩ := busy.storesState quiet reserved is limit
    refine ⟨later, _, (Run.bind_done ran _).trans stores, advances, quiet, busy, ip, heap ▸ begins, ?_⟩
    rintro mapKey elem map isMap rfl
    exact absurd (bare isMap) Bool.false_ne_true
  · obtain ⟨rfl, notNil⟩ := Classical.not_imp.mp bare
    obtain ⟨elem, rfl, -⟩ := ranged.eq_map
    rcases is.eq_map with rfl | ⟨map, rfl⟩
    · exact absurd rfl notNil
    obtain ⟨middle, limit, ref, ran, first, quiet, busy, ipMiddle, isKeys, known, begins⟩ :=
      busy.takesKeys quiet reserved
    obtain ⟨later, stores, second, quiet, busy, ip, shape, heap⟩ :=
      busy.storesState quiet reserved is limit
    rw [isKeys] at busy
    refine ⟨later, _, (Run.bind_done ran _).trans stores, first.trans second, quiet, busy,
      ip.trans ipMiddle, heap ▸ begins, ?_⟩
    intro _ _ _ _ _
    exact ⟨key, ref, rfl, by rw [shape, heap, known]⟩

end Course.Busy

end Configs

end MiniGo
