import MiniGo.Proofs.Startup
import MiniGo.Proofs.Stores
/-!
The variables of one frame. However they are declared, no two of them share a place, and each holds
what was stored to it last, bit for bit, whatever is stored to the others.
-/

namespace MiniGo

/-- What the compiler asks of a frame: a variable with a name, or a slot that no name stands for. -/
inductive Request
  | named (name : String) (type : Ty) (span : Span)
  | hidden (type : Ty)

namespace Request

def type : Request → Ty
  | named _ type _ => type
  | hidden type => type

end Request

def Slot.Shares (slot other : Slot) : Prop :=
  slot.slotClass = other.slotClass ∧ slot.index = other.index

instance : Std.Symm fun slot other : Slot => ¬slot.Shares other where
  symm _ _ apart shares := apart ⟨shares.1.symm, shares.2.symm⟩

namespace Frame

variable {frame middle last : Frame} {slots others : List Slot}

def count (frame : Frame) : SlotClass → Nat
  | .object => frame.objects
  | .word => frame.words

/-- The slot that a request obtains, if any. A request that is rejected changes nothing. -/
def answer (frame : Frame) : Request → Option Slot × Frame
  | .named name type span =>
    match frame.declareVar name type span with
    | .ok (slot, after) => (slot, after)
    | .error _ => (none, frame)
  | .hidden type => (some (frame.allocate type).1, (frame.allocate type).2)

def answers (frame : Frame) : List Request → List (Option Slot) × Frame
  | [] => ([], frame)
  | request :: rest =>
    ((frame.answer request).1 :: ((frame.answer request).2.answers rest).1,
      ((frame.answer request).2.answers rest).2)

/-- Between two states of a frame some slots are given away, each to one variable. -/
structure Gives (frame last : Frame) (slots : List Slot) : Prop where
  objects : frame.objects ≤ last.objects
  words : frame.words ≤ last.words
  beyond : ∀ slot ∈ slots, slot.Beyond frame
  inside : ∀ slot ∈ slots, ¬slot.Beyond last
  scalar : ∀ slot ∈ slots, slot.slotClass = .word → slot.type.isScalar = true
  distinct : slots.Pairwise fun slot other => ¬slot.Shares other

theorem not_beyond_iff {slot : Slot} : ¬slot.Beyond frame ↔ slot.index < frame.count slot.slotClass := by
  unfold Slot.Beyond count
  cases slot.slotClass <;> simp

namespace Gives

theorem nothing (frame : Frame) : frame.Gives frame [] where
  objects := Nat.le_refl _
  words := Nat.le_refl _
  beyond := by simp
  inside := by simp
  scalar := by simp
  distinct := .nil

theorem trans (first : frame.Gives middle slots) (second : middle.Gives last others) :
    frame.Gives last (slots ++ others) where
  objects := Nat.le_trans first.objects second.objects
  words := Nat.le_trans first.words second.words
  beyond slot member := by
    rcases List.mem_append.mp member with early | late
    · exact first.beyond slot early
    · exact (second.beyond slot late).sooner first.objects first.words
  inside slot member := by
    rcases List.mem_append.mp member with early | late
    · exact fun beyond => first.inside slot early (beyond.sooner second.objects second.words)
    · exact second.inside slot late
  scalar slot member := by
    rcases List.mem_append.mp member with early | late
    · exact first.scalar slot early
    · exact second.scalar slot late
  distinct := by
    refine List.pairwise_append.mpr ⟨first.distinct, second.distinct, fun slot early other late => ?_⟩
    -- The later slot is one that the frame still had when the earlier one was gone.
    rintro ⟨sameClass, sameIndex⟩
    refine first.inside slot early ?_
    have beyond := second.beyond other late
    unfold Slot.Beyond at beyond ⊢
    rwa [sameClass, sameIndex]

end Gives

theorem allocate_gives (frame : Frame) (type : Ty) :
    frame.Gives (frame.allocate type).2 [(frame.allocate type).1] := by
  unfold allocate
  split <;> constructor <;> simp_all [Slot.Beyond]

theorem declareVar_gives {name : String} {type : Ty} {span : Span} {slot : Option Slot}
    (declared : frame.declareVar name type span = .ok (slot, last)) :
    frame.Gives last slot.toList := by
  obtain ⟨widens, -, placed⟩ := declareVar_widens declared
  cases slot with
  | none =>
    exact { Gives.nothing frame with
      objects := widens.objects
      words := widens.words
      inside := by simp }
  | some slot =>
    have here := placed slot rfl
    refine ⟨widens.objects, widens.words, ?_, ?_, ?_, List.pairwise_singleton _ _⟩
    all_goals simp only [Option.toList_some, List.mem_singleton, forall_eq]
    · exact here.beyond
    · exact here.inside
    · intro isWord
      by_contra notScalar
      rw [here.type] at notScalar
      exact absurd (here.object (by simpa using notScalar)) (by simp [isWord])

theorem answer_gives (frame : Frame) (request : Request) :
    frame.Gives (frame.answer request).2 (frame.answer request).1.toList ∧
      ∀ slot ∈ (frame.answer request).1, slot.type = request.type := by
  cases request with
  | hidden type => exact ⟨frame.allocate_gives type, by simp [answer, allocate_type, Request.type]⟩
  | named name type span =>
    cases declared : frame.declareVar name type span with
    | error error => simpa [answer, declared] using Gives.nothing frame
    | ok answered =>
      obtain ⟨slot, after⟩ := answered
      simp only [answer, declared]
      exact ⟨declareVar_gives declared, fun found isFound =>
        ((declareVar_widens declared).2.2 found isFound).type⟩

theorem answers_gives (frame : Frame) (requests : List Request) :
    frame.Gives (frame.answers requests).2 (frame.answers requests).1.reduceOption ∧
      List.Forall₂ (fun request answer => ∀ slot ∈ answer, Slot.type slot = Request.type request)
        requests (frame.answers requests).1 := by
  induction requests generalizing frame with
  | nil => exact ⟨.nothing frame, .nil⟩
  | cons request rest ih =>
    obtain ⟨gives, typed⟩ := frame.answer_gives request
    obtain ⟨later, others⟩ := ih (frame.answer request).2
    refine ⟨?_, .cons typed others⟩
    have parts : (frame.answers (request :: rest)).1.reduceOption =
        (frame.answer request).1.toList ++ ((frame.answer request).2.answers rest).1.reduceOption := by
      simp only [answers]
      cases (frame.answer request).1 <;> simp [List.reduceOption]
    rw [parts]
    exact gives.trans later

end Frame

/-- Values that are stored one after the other, each to a slot of one environment. -/
def World.stores (world : World) (ref : EnvRef) : List (Slot × Value) → World
  | [] => world
  | (slot, value) :: rest => (world.store ref slot value).stores ref rest

/-- A value that a slot has room for. Those of a word are the scalars of its type. -/
def Slot.Takes (slot : Slot) (value : Value) : Prop :=
  slot.type.isScalar = true → value.Is slot.type

def World.Backs (world : World) (ref : EnvRef) (frame : Frame) : Prop :=
  ∃ env, world.env? ref = some env ∧
    frame.objects ≤ env.slots.objects.size ∧ frame.words ≤ env.slots.words.size

section Stores

variable {world : World} {ref : EnvRef} {frame last : Frame} {slots : List Slot}

theorem World.Backs.store (backs : world.Backs ref last) (slot : Slot) (value : Value) :
    (world.store ref slot value).Backs ref last := by
  obtain ⟨env, present, objects, words⟩ := backs
  exact ⟨{ env with slots := env.slots.store slot value },
    by simp [World.store, World.env?_updateEnv, present], by simpa using objects, by simpa using words⟩

namespace Frame.Gives

theorem eq_of_shares (gives : frame.Gives last slots) {slot other : Slot} (member : slot ∈ slots)
    (member' : other ∈ slots) (shares : slot.Shares other) : slot = other := by
  by_contra differs
  exact gives.distinct.forall member member' differs shares

theorem load_store_self (gives : frame.Gives last slots) (backs : world.Backs ref last) {slot : Slot}
    {value : Value} (member : slot ∈ slots) (takes : slot.Takes value) :
    (world.store ref slot value).load ref slot = value := by
  obtain ⟨env, present, objects, words⟩ := backs
  have loaded : (world.store ref slot value).load ref slot = (env.slots.store slot value).load slot := by
    simp [World.load, World.store, World.env?_updateEnv, present]
  have inside := gives.inside slot member
  rw [loaded]
  unfold Slots.load
  cases slotClass : slot.slotClass with
  | object =>
    simp only [Slot.Beyond, slotClass, Nat.not_le] at inside
    exact (Slots.object_store _ _ _ _).trans (if_pos ⟨slotClass, rfl, by omega⟩)
  | word =>
    simp only [Slot.Beyond, slotClass, Nat.not_le] at inside
    have scalar := gives.scalar slot member slotClass
    have stored := (Slots.word_store env.slots slot value slot.index).trans
      (if_pos ⟨slotClass, rfl, by omega⟩)
    exact (congrArg (Value.ofBits · slot.type) stored).trans
      (Value.Is.ofBits_toBits (takes scalar) scalar)

theorem load_store (gives : frame.Gives last slots) (backs : world.Backs ref last)
    {slot target : Slot} {value : Value} (member : slot ∈ slots) (isTarget : target ∈ slots)
    (takes : target.Takes value) :
    (world.store ref target value).load ref slot =
      if slot = target then value else world.load ref slot := by
  split
  · rename_i same
    subst same
    exact gives.load_store_self backs member takes
  · rename_i differs
    exact World.load_store_ne _ _ fun same =>
      differs (gives.eq_of_shares member isTarget ⟨same.2.1, same.2.2⟩)

theorem load_stores (gives : frame.Gives last slots) (backs : world.Backs ref last)
    {writes : List (Slot × Value)}
    (fit : ∀ write ∈ writes, write.1 ∈ slots ∧ write.1.Takes write.2) {slot : Slot}
    (member : slot ∈ slots) :
    (world.stores ref writes).load ref slot =
      (writes.reverse.lookup slot).getD (world.load ref slot) := by
  induction writes generalizing world with
  | nil => rfl
  | cons write rest ih =>
    obtain ⟨target, value⟩ := write
    obtain ⟨isTarget, takes⟩ := fit _ (List.mem_cons_self ..)
    have later := ih (backs.store target value) fun write isWrite =>
        fit write (List.mem_cons_of_mem _ isWrite)
    calc (world.stores ref ((target, value) :: rest)).load ref slot
        = (rest.reverse.lookup slot).getD ((world.store ref target value).load ref slot) := later
      _ = (rest.reverse.lookup slot).getD (if slot = target then value else world.load ref slot) := by
        rw [gives.load_store backs member isTarget takes]
      _ = (((target, value) :: rest).reverse.lookup slot).getD (world.load ref slot) := by
        rw [List.reverse_cons, List.lookup_append]
        cases rest.reverse.lookup slot with
        | some found => rfl
        | none =>
          by_cases same : slot = target
          · simp [same]
          · simp [List.lookup_cons, same, beq_false_of_ne same]

end Frame.Gives

end Stores

/-- The slots of a frame are independent variables. Each has its own place among the slots of its class,
and the type it was asked for; it holds the last value that was stored to it. -/
theorem slots_independent (frame : Frame) (requests : List Request) :
    (frame.answers requests).1.reduceOption.Pairwise (fun slot other => ¬slot.Shares other) ∧
    (∀ slot ∈ (frame.answers requests).1.reduceOption,
      slot.index < (frame.answers requests).2.count slot.slotClass) ∧
    List.Forall₂ (fun request answer => ∀ slot ∈ answer, Slot.type slot = Request.type request)
      requests (frame.answers requests).1 ∧
    ∀ (world : World) (ref : EnvRef) (writes : List (Slot × Value)),
      world.Backs ref (frame.answers requests).2 →
      (∀ write ∈ writes, write.1 ∈ (frame.answers requests).1.reduceOption ∧
        write.1.Takes write.2) →
      ∀ slot ∈ (frame.answers requests).1.reduceOption,
        (world.stores ref writes).load ref slot =
          (writes.reverse.lookup slot).getD (world.load ref slot) := by
  obtain ⟨gives, typed⟩ := frame.answers_gives requests
  exact ⟨gives.distinct, fun slot member => Frame.not_beyond_iff.mp (gives.inside slot member), typed,
    fun world ref writes backs fit slot member => gives.load_stores backs fit member⟩

/-- A count, a ratio and a text; a blank and a second count, which obtain nothing; and a flag. -/
def Request.mixed : List Request :=
  [.named "count" .int ⟨0, 0⟩, .named "ratio" .float ⟨0, 0⟩, .named "text" .string ⟨0, 0⟩,
    .named "_" .int ⟨0, 0⟩, .named "count" .bool ⟨0, 0⟩, .hidden .bool]

/-- A payload of a NaN comes back from a word, whatever is stored to the other slots after it. -/
theorem slots_independent_mixed :
    let world : World := { envs := #[⟨.fresh 1 3, 0, {}, none, ⟨0⟩, 1⟩] }
    let count : Slot := ⟨.word, 0, .int⟩
    let ratio : Slot := ⟨.word, 1, .float⟩
    let writes : List (Slot × Value) := [(ratio, .float ⟨1⟩), (ratio, .float ⟨0x7ff8000000000123⟩),
      (count, .int Int64.minValue), (⟨.object, 0, .string⟩, .str "far"), (⟨.word, 2, .bool⟩, .bool true)]
    let frame : Frame := { owned := true }
    (world.Backs ⟨0⟩ (frame.answers Request.mixed).2 ∧
      ∀ write ∈ writes, write.1 ∈ (frame.answers Request.mixed).1.reduceOption ∧
        write.1.Takes write.2) ∧
    (world.stores ⟨0⟩ writes).load ⟨0⟩ ratio = .float ⟨0x7ff8000000000123⟩ := by
  intro world count ratio writes frame
  have backs : world.Backs ⟨0⟩ (frame.answers Request.mixed).2 :=
    ⟨_, rfl, by decide, by decide⟩
  have slots : (frame.answers Request.mixed).1.reduceOption =
    [count, ratio, ⟨.object, 0, .string⟩, ⟨.word, 2, .bool⟩] := rfl
  have fit : ∀ write ∈ writes, write.1 ∈ (frame.answers Request.mixed).1.reduceOption ∧
      write.1.Takes write.2 := by
    rw [slots]
    simp [writes, count, ratio, Slot.Takes, Value.Is, Value.dynamicType, Const.type, Ty.assignableTo]
  exact ⟨⟨backs, fit⟩, (slots_independent frame Request.mixed).2.2.2 world ⟨0⟩ writes backs fit ratio
    (by simp [slots])⟩

end MiniGo
