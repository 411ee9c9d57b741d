import MiniGo.Proofs.Compilation
import MiniGo.Proofs.Effects
/-!
Assignments and returns store all their values at once. What is stored, and where, is found out before
anything is stored; the stores then follow one another, and each location holds what was stored there
last.
-/

namespace MiniGo

variable {strict : Prop}

namespace Location

def content (location : Location) (world : World) : Except RuntimeError Value :=
  match location with
  | slot env target => pure (world.load env target)
  | item ref index => world.heap.item ref index
  | entry elem ref key => do
    let found ← world.heap.entry? ref key
    pure (found.getD (.zero elem))
  | nilMap elem => pure (.zero elem)
  | nilSlice index => throw (.indexOutOfRange index 0)
  | blank => throw (.internal "read through the blank identifier")

def put (location : Location) (value : Value) (world : World) : Except RuntimeError World :=
  match location with
  | slot env target => pure (world.store env target value)
  | item ref index => do
    let heap ← world.heap.setItem ref index value
    pure { world with heap }
  | entry _ ref key => do
    let heap ← world.heap.insertEntry ref key value
    pure { world with heap }
  | nilMap _ => throw .nilMap
  | nilSlice index => throw (.indexOutOfRange index 0)
  | blank => pure world

theorem load_apply (location : Location) (world : World) :
    location.load world = Run.ofExcept (location.content world) world := by
  cases location with
  | entry elem ref key =>
    show Run.bind (Run.tryRead _) _ world = _
    simp only [Run.bind, Run.tryRead, content]
    cases world.heap.entry? ref key <;> rfl
  | item ref index =>
    simp only [load, Run.tryRead, content]
    cases world.heap.item ref index <;> rfl
  | _ => rfl

theorem store_apply (location : Location) (value : Value) (world : World) :
    location.store value world = match location.put value world with
      | .ok after => .done () after
      | .error error => .fail error world := by
  cases location with
  | item ref index =>
    simp only [store, Run.tryHeap, put]
    cases world.heap.setItem ref index value <;> rfl
  | entry elem ref key =>
    simp only [store, Run.tryHeap, put]
    cases world.heap.insertEntry ref key value <;> rfl
  | _ => rfl

def isSame : Location → Location → Bool
  | slot env named, slot env' named' =>
    env == env' && named.slotClass == named'.slotClass && named.index == named'.index
  | item ref index, item ref' index' => ref == ref' && index == index'
  | entry _ ref key, entry _ ref' key' =>
    ref == ref' && (MapKey.ofValue key).toOption == (MapKey.ofValue key').toOption
  | _, _ => false

def storeEach : List (Location × Value) → Run Unit
  | [] => pure ()
  | (location, value) :: rest => do
    location.store value
    storeEach rest

theorem storeAll_eq_storeEach (locations : List Location) (values : List Value) :
    storeAll locations values = storeEach (locations.zip values) := by
  induction locations generalizing values with
  | nil => cases values <;> rfl
  | cons location locations ih =>
    cases values with
    | nil => rfl
    | cons value values =>
      show (location.store value >>= fun _ => storeAll locations values) = _
      rw [ih]
      rfl

def last? (location : Location) : List (Location × Value) → Option Value
  | [] => none
  | (other, value) :: rest =>
    (location.last? rest).or (if other.isSame location then some value else none)

inductive Puts : List (Location × Value) → World → World → Prop
  | nil {world} : Puts [] world world
  | cons {location value rest before middle after} :
    location.put value before = .ok middle →
    Puts rest middle after →
    Puts ((location, value) :: rest) before after

end Location

namespace Heap

theorem items_setItem {heap after : Heap} {ref : SliceRef} {index : Int64} {value : Value}
    (stored : heap.setItem ref index value = .ok after) :
    ∃ position, checkedIndex index (heap.items ref).size = .ok position ∧
      after.items ref = (heap.items ref).setIfInBounds position value ∧
      ∀ other, other ≠ ref → after.items other = heap.items other := by
  obtain ⟨position, inside, same⟩ := Except.bind_eq_ok.mp stored
  obtain rfl := Except.ok.inj same
  refine ⟨position, inside, ?_, fun other differs => ?_⟩
  · simp only [items, Array.getD_eq_getD_getElem?, Array.getElem?_modify, if_true]
    cases heap.slices[ref.index]? <;> rfl
  · have apart : ref.index ≠ other.index := fun same => differs (by cases ref; cases other; simp_all)
    simp [items, Array.getD_eq_getD_getElem?, Array.getElem?_modify, apart]

theorem item_setItem {heap after : Heap} {ref other : SliceRef} {index position : Int64}
    {value : Value} (stored : heap.setItem ref index value = .ok after) :
    after.item other position =
      if ref = other ∧ index = position then .ok value else heap.item other position := by
  obtain ⟨offset, inside, changed, others⟩ := items_setItem stored
  by_cases isRef : ref = other
  · subst other
    have bound := Run.checkedIndex_lt inside
    simp only [item, changed, Array.size_setIfInBounds, true_and]
    by_cases isIndex : index = position
    · subst position
      rw [inside, if_pos rfl]
      simp only [bind, Except.bind, Array.getD_eq_getD_getElem?, Array.getElem?_setIfInBounds_self, bound,
        if_true]
      rfl
    · rw [if_neg isIndex]
      cases reached : checkedIndex position (heap.items ref).size with
      | error error => rfl
      | ok found =>
        have differs : offset ≠ found := by
          rintro rfl
          refine isIndex (Int64.toInt_inj.mp ?_)
          exact (checkedIndex_eq_ok.mp inside).1.trans (checkedIndex_eq_ok.mp reached).1.symm
        simp only [bind, Except.bind, Array.getD_eq_getD_getElem?, Array.getElem?_setIfInBounds_ne
          differs]
  · simp only [item, others other (Ne.symm isRef), isRef, false_and, if_false]

theorem entry?_insertEntry {heap after : Heap} {ref other : MapRef} {key wanted value : Value}
    (inside : ref.index < heap.maps.size) (stored : heap.insertEntry ref key value = .ok after) :
    after.entry? other wanted =
      if ref = other ∧ MapKey.ofValue key = MapKey.ofValue wanted then .ok (some value)
      else heap.entry? other wanted := by
  obtain ⟨found, isKey, same⟩ := Except.bind_eq_ok.mp stored
  obtain rfl := Except.ok.inj same
  by_cases isRef : ref = other
  · subst other
    have entries : (heap.setEntries ref ((heap.entries ref).insert found value)).entries ref =
        (heap.entries ref).insert found value := by
      simp [entries, setEntries, Array.getD_eq_getD_getElem?, inside]
    simp only [entries, entry?, true_and, isKey]
    cases isWanted : MapKey.ofValue wanted with
    | error error => simp
    | ok sought =>
      simp only [bind, Except.bind, Entries.get?_insert, Except.ok.injEq]
      by_cases same : found = sought
      · simp [same, pure, Except.pure]
      · simp [same, Ne.symm same]
  · have differs : ref.index ≠ other.index := fun same => isRef (by cases ref; cases other; simp_all)
    have entries : (heap.setEntries ref ((heap.entries ref).insert found value)).entries other =
        heap.entries other := by
      simp [entries, setEntries, Array.getD_eq_getD_getElem?, differs]
    simp only [entries, entry?, isRef, false_and, if_false]

end Heap

def Slot.kept (slot : Slot) (value : Value) : Value :=
  match slot.slotClass with
  | .object => value
  | .word => .ofBits value.toBits slot.type

theorem Value.Is.ofBits_toBits {value : Value} {type : Ty} (is : value.Is type)
    (scalar : type.isScalar = true) : Value.ofBits value.toBits type = value := by
  cases type with
  | bool =>
    obtain ⟨truth, rfl⟩ := is.eq_bool
    exact congrArg Value.const (Const.ofBits_toBits_bool truth)
  | int =>
    obtain ⟨number, rfl⟩ := is.eq_int
    exact congrArg Value.const (Const.ofBits_toBits_int number)
  | float =>
    obtain ⟨number, rfl⟩ := is.eq_float
    exact congrArg Value.const (Const.ofBits_toBits_float number)
  | _ => cases scalar

namespace Slot.Among

variable {level : Level} {slot : Slot}

theorem object_lt (among : slot.Among level.objects level.words) (object : slot.slotClass = .object) :
    slot.index < level.frame.objects := by
  simp only [Slot.Among, object] at among
  exact level.objects_length ▸ (List.getElem?_eq_some_iff.mp among).1

theorem word_lt (among : slot.Among level.objects level.words) (word : slot.slotClass = .word) :
    slot.index < level.frame.words := by
  simp only [Slot.Among, word] at among
  exact level.words_length ▸ (List.getElem?_eq_some_iff.mp among).1

theorem scalar (among : slot.Among level.objects level.words) (word : slot.slotClass = .word) :
    slot.type.isScalar = true := by
  simp only [Slot.Among, word] at among
  exact level.words_scalar _ (List.mem_of_getElem? among)

theorem kept (among : slot.Among level.objects level.words) {value : Value} (is : value.Is slot.type) :
    slot.kept value = value := by
  unfold Slot.kept
  split <;> rename_i slotClass
  · rfl
  · exact is.ofBits_toBits (among.scalar slotClass)

end Slot.Among

theorem Level.Has.kept {level : Level} {slot : Slot} {value : Value} (has : level.Has slot)
    (is : value.Is slot.type) : slot.kept value = value := has.1.kept is

def Location.kept : Location → Value → Value
  | .slot _ named, value => named.kept value
  | _, value => value

theorem Location.Sound.slot_inj {shape : Shape strict} {ref : EnvRef}
    {named named' : Slot} {target target' : Option Ty} (sound : (slot ref named).Sound shape target)
    (sound' : (slot ref named').Sound shape target') (slotClass : named.slotClass = named'.slotClass)
    (index : named.index = named'.index) : named = named' := by
  obtain ⟨-, known, found, shared⟩ := sound
  obtain ⟨-, known', found', shared'⟩ := sound'
  obtain rfl := Option.some.inj (found.symm.trans found')
  exact Slot.Among.unique shared'.1.1 shared.1.1 slotClass index

section Sound

variable [Natives]

theorem Env.Sound.load_store {shape : Shape strict} {ref : EnvRef} {known : EnvShape} {env : Env}
    (sound : env.Sound shape ref known) {slot : Slot} (value : Value)
    (among : slot.Among known.level.objects known.level.words) :
    (env.slots.store slot value).load slot = slot.kept value := by
  unfold Slots.load Slot.kept
  cases slotClass : slot.slotClass with
  | object =>
    have there := sound.objects ▸ among.object_lt slotClass
    exact (Slots.object_store _ _ _ _).trans (if_pos ⟨slotClass, rfl, there⟩)
  | word =>
    have there := sound.words ▸ among.word_lt slotClass
    exact congrArg (Value.ofBits · _)
      ((Slots.word_store _ _ _ _).trans (if_pos ⟨slotClass, rfl, there⟩))

namespace Location

variable {start : Config strict} {location other : Location} {target target' : Option Ty}
  {value : Value}

theorem slot_content_put {ref ref' : EnvRef} {named named' : Slot}
    (sound : (slot ref named).Sound start.shape target)
    (sound' : (slot ref' named').Sound start.shape target') (value : Value) :
    (start.world.store ref named value).load ref' named' =
      if (slot ref named).isSame (slot ref' named') then named'.kept value
      else start.world.load ref' named' := by
  simp only [isSame, Bool.and_eq_true, beq_iff_eq]
  split
  · rename_i same
    obtain ⟨⟨rfl, slotClass⟩, index⟩ := same
    obtain rfl := sound.slot_inj sound' slotClass index
    obtain ⟨-, known, found, shared⟩ := sound
    obtain ⟨-, here, isHere, holds⟩ := start.sound.envs ref known found
    have loaded : (start.world.store ref named value).load ref named =
        (here.slots.store named value).load named := by
      simp [World.load, World.store, World.env?_updateEnv, isHere]
    exact loaded.trans (holds.load_store value shared.1.1)
  · rename_i differs
    exact World.load_store_ne _ _ fun same =>
      differs ⟨⟨same.1.symm, same.2.1.symm⟩, same.2.2.symm⟩

theorem content_put {world : World} (sound : location.Sound start.shape target)
    (sound' : other.Sound start.shape target')
    (made : location.put value start.world = .ok world) :
    other.content world =
      if location.isSame other then .ok (other.kept value) else other.content start.world := by
  cases location with
  | slot ref named =>
    obtain rfl := Except.ok.inj made
    cases other with
    | slot ref' named' =>
      simp only [content, slot_content_put sound sound' value]
      split <;> rfl
    | _ => rfl
  | item ref index =>
    obtain ⟨heap, stored, same⟩ := Except.bind_eq_ok.mp made
    obtain rfl := Except.ok.inj same
    cases other with
    | item ref' index' =>
      simp only [content, isSame, Heap.item_setItem stored, Bool.and_eq_true, beq_iff_eq, kept]
    | entry elem ref' key =>
      obtain ⟨offset, -, same⟩ := Except.bind_eq_ok.mp stored
      obtain rfl := Except.ok.inj same
      rfl
    | _ => rfl
  | entry elem ref key =>
    obtain ⟨heap, stored, same⟩ := Except.bind_eq_ok.mp made
    obtain rfl := Except.ok.inj same
    cases other with
    | item ref' index' =>
      obtain ⟨found, -, same⟩ := Except.bind_eq_ok.mp stored
      obtain rfl := Except.ok.inj same
      rfl
    | entry elem' ref' key' =>
      obtain ⟨keyType, known, -⟩ := sound
      obtain ⟨-, entries, isThere, -⟩ := start.sound.heap.maps ref keyType elem known
      have inside : ref.index < start.world.heap.maps.size :=
        (Array.getElem?_eq_some_iff.mp isThere).1
      obtain ⟨found, isKey, -⟩ := Except.bind_eq_ok.mp stored
      simp only [content, Heap.entry?_insertEntry inside stored, isSame, Bool.and_eq_true, beq_iff_eq]
      have keys : (MapKey.ofValue key).toOption = (MapKey.ofValue key').toOption ↔
          MapKey.ofValue key = MapKey.ofValue key' := by
        rw [isKey]
        cases MapKey.ofValue key' <;> simp [Except.toOption]
      simp only [keys]
      split <;> rfl
    | _ => rfl
  | nilMap elem => cases made
  | nilSlice index => cases made
  | blank =>
    obtain rfl := Except.ok.inj made
    rfl

def Stores (shape : Shape strict) (stores : List (Location × Value)) : Prop :=
  ∀ entry ∈ stores, ∃ target, entry.1.Sound shape target ∧ entry.2.Stores shape target

theorem Stores.grows {before after : Shape strict} {stores : List (Location × Value)}
    (sound : Stores before stores) (grown : before.Grows after) : Stores after stores := by
  intro entry member
  obtain ⟨target, located, known, is⟩ := sound entry member
  exact ⟨target, located.grows grown, known.grows grown, is⟩

theorem exists_put {task : ThreadRef} {world : World} (quiet : start.Quiet task)
    (sound : location.Sound start.shape target) (stores : value.Stores start.shape target)
    (made : location.put value start.world = .ok world) :
    ∃ now : Config strict, now.world = world ∧ start.shape.Grows now.shape ∧ now.Quiet task := by
  have meets : (location.store value).Meets start task 0 _ := store_meets quiet sound stores
  unfold Run.Meets at meets
  rw [store_apply, made] at meets
  obtain ⟨now, same, advances, -, stillQuiet, -⟩ := meets
  exact ⟨now, same, advances.grows, stillQuiet⟩

end Location

def Config.Shows (before : Config strict) (stores : List (Location × Value)) (after : World) : Prop :=
  ∀ (location : Location) (target : Option Ty), location.Sound before.shape target →
    location.content after = match location.last? stores with
      | some value => .ok (location.kept value)
      | none => location.content before.world

/-- The stores are made in their order, up to the first that fails. What has been made by then shows,
and nothing else. -/
def Config.Commits (before : Config strict) (stores : List (Location × Value)) : Prop :=
  ∃ (count : Nat) (after : World), Location.Puts (stores.take count) before.world after ∧
    before.Shows (stores.take count) after ∧
    ((count = stores.length ∧ Location.storeEach stores before.world = .done () after) ∨
      ∃ location value error, stores[count]? = some (location, value) ∧
        location.put value after = .error error ∧
        Location.storeEach stores before.world = .fail error after)

theorem Config.shows_nil (before : Config strict) : before.Shows [] before.world := fun _ _ _ => rfl

theorem Config.Shows.cons {before now : Config strict} {location : Location} {target : Option Ty}
    {value : Value} {rest : List (Location × Value)} {after : World}
    (sound : location.Sound before.shape target)
    (made : location.put value before.world = .ok now.world) (grown : before.shape.Grows now.shape)
    (shows : now.Shows rest after) : before.Shows ((location, value) :: rest) after := by
  intro other target' sound'
  rw [shows other target' (sound'.grows grown), Location.last?,
    Location.content_put sound sound' made]
  cases other.last? rest with
  | some last => rfl
  | none =>
    rw [Option.none_or]
    cases location.isSame other <;> rfl

theorem Config.commits {start : Config strict} {task : ThreadRef} {stores : List (Location × Value)}
    (quiet : start.Quiet task) (sound : Location.Stores start.shape stores) :
    start.Commits stores := by
  induction stores generalizing start with
  | nil => exact ⟨0, start.world, .nil, start.shows_nil, .inl ⟨rfl, rfl⟩⟩
  | cons entry rest ih =>
    obtain ⟨location, value⟩ := entry
    obtain ⟨⟨target, located, storable⟩, others⟩ := List.forall_mem_cons.mp sound
    have runs : ∀ world, Location.storeEach ((location, value) :: rest) world =
        ((location.store value >>= fun _ => Location.storeEach rest) : Run Unit) world := fun _ => rfl
    cases made : location.put value start.world with
    | error error =>
      refine ⟨0, start.world, .nil, start.shows_nil, .inr ⟨location, value, error, rfl, made, ?_⟩⟩
      rw [runs]
      show Run.bind _ _ _ = _
      rw [Run.bind_apply, Location.store_apply, made]
      rfl
    | ok world =>
      obtain ⟨now, rfl, grown, stillQuiet⟩ := Location.exists_put quiet located storable made
      have same : Location.storeEach ((location, value) :: rest) start.world =
          Location.storeEach rest now.world := by
        rw [runs, Run.bind_done (by rw [Location.store_apply, made])]
      obtain ⟨count, after, puts, shows, ends⟩ := ih stillQuiet (Location.Stores.grows others grown)
      refine ⟨count + 1, after, .cons made puts, shows.cons located made grown, ?_⟩
      rw [same]
      exact ends.imp (fun done => ⟨congrArg (· + 1) done.1, done.2⟩) id

/-- The values fit the locations, which are so many. -/
structure Location.Fit (shape : Shape strict) (count : Nat) (stores : List (Location × Value)) :
    Prop where
  sound : Location.Stores shape stores
  length : strict → stores.length = count

theorem Location.Fit.zip {shape : Shape strict} {targets : List (Option Ty)}
    {locations : List Location} {values : List Value}
    (sound : List.Forall₂ (fun target location => Location.Sound shape target location) targets
      locations)
    (known : ∀ value ∈ values, value.Known shape)
    (are : strict → List.Forall₂ (fun (value : Value) target => ∀ wanted, target = some wanted →
      value.Is wanted) values targets) :
    Location.Fit shape targets.length (locations.zip values) := by
  induction sound generalizing values with
  | nil => exact ⟨by simp [Location.Stores], fun _ => by simp⟩
  | cons head tail ih =>
    cases values with
    | nil => exact ⟨by simp [Location.Stores], fun isStrict => by cases are isStrict⟩
    | cons value values =>
      obtain ⟨isKnown, others⟩ := List.forall_mem_cons.mp known
      have rest := ih others fun isStrict => by
        cases are isStrict with
        | cons _ rest => exact rest
      refine ⟨List.forall_mem_cons.mpr ⟨⟨_, head, isKnown, fun isStrict => ?_⟩, rest.sound⟩,
        fun isStrict => congrArg (· + 1) (rest.length isStrict)⟩
      cases are isStrict with
      | cons is _ => exact is

theorem Location.Sound.kept {shape : Shape strict} {location : Location} {target : Option Ty}
    {value : Value} (sound : location.Sound shape target) (stores : value.Stores shape target)
    (isStrict : strict) : location.kept value = value := by
  cases location with
  | slot ref named =>
    obtain ⟨isTarget, known, -, shared⟩ := sound
    exact shared.1.kept (stores.2 isStrict _ isTarget)
  | _ => rfl

theorem Location.Stores.kept {shape : Shape strict} {stores : List (Location × Value)}
    (sound : Location.Stores shape stores) (isStrict : strict) :
    ∀ entry ∈ stores, entry.1.kept entry.2 = entry.2 := by
  rintro ⟨location, value⟩ member
  obtain ⟨target, located, storable⟩ := sound _ member
  exact located.kept storable isStrict

/-- All that is to be stored, for so many targets, is found out before any of it is stored. Meanwhile
nothing is stored but by called functions and by others. Then it is stored, and in well-typed states
each location keeps its value as it is. -/
def Config.Prepares (start : Config strict) (task : ThreadRef) (call : Caller) (count : Nat)
    (prepare : Run (List (Location × Value))) : Prop :=
  (prepare start.world).Safe task (fun before result =>
    (∃ made, start.world.Evaluates call (Config.Others strict task) made before.world) ∧
      ∀ stores, result = .ok stores → before.Commits stores ∧
        (strict → stores.length = count ∧ ∀ entry ∈ stores, entry.1.kept entry.2 = entry.2)) start

theorem Run.Meets.prepares {start : Config strict} {task : ThreadRef} {floor : Nat} {call : Caller}
    {count : Nat} {prepare : Run (List (Location × Value))}
    (meets : prepare.Meets start task floor fun now stores => Location.Fit now.shape count stores)
    (evaluates : prepare.Evaluates call (Config.Others strict task) []) :
    start.Prepares task call count prepare := by
  refine meets.finishes.mono ?_
  rintro now result ⟨finishes, -, quiet, ends⟩
  obtain ⟨made, -, evaluated⟩ := evaluates _ _ _ _ _ .start (List.nil_subset _) finishes
  refine ⟨⟨made, evaluated⟩, ?_⟩
  rintro stores rfl
  exact ⟨Config.commits quiet ends.sound,
    fun isStrict => ⟨ends.length isStrict, ends.sound.kept isStrict⟩⟩

namespace Step

/-- What an assignment stores: the operands of all its places are evaluated, then all its values. -/
def assigned (call : Caller) (env : EnvRef) (places : List Place) (values : Values) :
    Run (List (Location × Value)) := do
  let locations ← Location.ofPlaces call env places
  let values ← evalValues call env values
  pure (locations.zip values)

/-- What a return stores: all its values are evaluated, and go to the results of the function. -/
def returned (call : Caller) (env : EnvRef) (hops : Nat) (results : List Slot) (values : Values) :
    Run (List (Location × Value)) := do
  let values ← evalValues call env values
  let target ← Run.read (·.up env hops)
  pure ((results.map (.slot target)).zip values)

variable {call : Caller} {env : EnvRef} {fuel : Nat}

omit [Natives] in
theorem run_assign (places : List Place) (values : Values) :
    run call fuel env (.assign places values) = (do
      let stores ← assigned call env places values
      Location.storeEach stores
      advance env) := by
  simp only [run, assigned, Location.storeAll_eq_storeEach, Run.bind_assoc]
  rfl

omit [Natives] in
theorem storeSlots_eq_storeEach (target : EnvRef) (slots : List Slot) (values : List Value) :
    storeSlots target slots values =
      Location.storeEach ((slots.map (Location.slot target)).zip values) := by
  induction slots generalizing values with
  | nil => cases values <;> rfl
  | cons slot slots ih =>
    cases values with
    | nil => rfl
    | cons value values =>
      show (Run.store target slot value >>= fun _ => storeSlots target slots values) = _
      rw [ih]
      rfl

omit [Natives] in
theorem run_ret (hops : Nat) (results : List Slot) (values : Values) :
    run call fuel env (.ret hops results values) = (do
      let stores ← returned call env hops results values
      Location.storeEach stores
      interrupt env .ret) := by
  simp only [run, returned, storeSlots_eq_storeEach, Run.bind_assoc]
  rfl

variable {start : Config strict} {task : ThreadRef} {floor : Nat} {ctx : Ctx strict}

theorem assigned_meets (safe : call.Safe strict) {places : List Place} {targets : List (Option Ty)}
    {values : Values} {types : List Ty} (placesTyped : PlacesTyped strict ctx places targets)
    (typed : ValuesTyped strict ctx values types) (storesTo : List.Forall₂ Ty.StoresTo types targets)
    (hosts : start.Hosts task floor env ctx.layers) :
    (assigned call env places values).Meets start task floor fun now stores =>
      Location.Fit now.shape places.length stores := by
  refine (Location.ofPlaces_meets safe placesTyped hosts).bind
    fun first locations since quiet sound => ?_
  refine (evalValues_meets safe _ typed (hosts.since since quiet)).bind
    fun now found later quiet inhabit => ?_
  rw [placesTyped.length_eq]
  exact Run.pure_meets quiet (.zip (sound.grows later.grows).1 inhabit.1 fun isStrict =>
    forall₂_chain (inhabit.2 isStrict) storesTo fun _ _ _ is storesTo wanted same =>
      is.assign (storesTo wanted same))

omit [Natives] in
theorem assigned_evaluates {others : World → World → Prop} {made : List MapRef} (places : List Place)
    (values : Values) : (assigned call env places values).Evaluates call others made :=
  (ofPlaces_evaluates places).bind fun _ => (evalValues_evaluates values).bind fun _ =>
    Run.evaluates_pure _

theorem returned_meets (safe : call.Safe strict) {hops : Nat} {layer : Layer} {results : List Slot}
    {values : Values} {types : List Ty} (isLayer : ctx.layers[hops]? = some layer)
    (shared : ∀ slot ∈ results, layer.level.Shared slot) (typed : ValuesTyped strict ctx values types)
    (assignable : List.Forall₂ (fun type (slot : Slot) => type.assignableTo slot.type = true) types
      results) (hosts : start.Hosts task floor env ctx.layers) :
    (returned call env hops results values).Meets start task floor fun now stores =>
      Location.Fit now.shape results.length stores := by
  refine (evalValues_meets safe _ typed hosts).bind fun now found since quiet inhabit => ?_
  obtain ⟨known, isKnown, level, -⟩ := now.up_spec (hosts.since since quiet).spans isLayer
  refine (Run.read_meets (fun later target => later = now ∧ target = now.world.up env hops) quiet
    ⟨rfl, rfl⟩).bind fun later target _ quiet same => ?_
  obtain ⟨rfl, rfl⟩ := same
  have located : List.Forall₂ (fun target location => Location.Sound later.shape target location)
      (results.map fun slot => some slot.type)
      (results.map (Location.slot (later.world.up env hops))) := by
    rw [List.forall₂_map_left_iff, List.forall₂_map_right_iff, List.forall₂_same]
    exact fun slot member => ⟨rfl, known, isKnown, level ▸ shared slot member⟩
  have fit := Location.Fit.zip located inhabit.1 fun isStrict =>
    List.forall₂_map_right_iff.mpr <| forall₂_chain (inhabit.2 isStrict) assignable
      fun _ _ _ is assignable wanted same => Option.some.inj same ▸ is.assign assignable
  rw [List.length_map] at fit
  exact Run.pure_meets quiet fit

omit [Natives] in
theorem returned_evaluates {others : World → World → Prop} {made : List MapRef} (hops : Nat)
    (results : List Slot) (values : Values) :
    (returned call env hops results values).Evaluates call others made :=
  (evalValues_evaluates values).bind fun _ => (Run.evaluates_read _).bind fun _ =>
    Run.evaluates_pure _

end Step

end Sound

end MiniGo
