import MiniGo.Proofs.Slices
import Mathlib.Logic.Relation
/-!
Slices and their aliases. Copies of a slice share its elements, wherever they are kept and however they
got there, and slices that have been made apart share nothing.

A `Stage` is a state of a program with a record of the slices that are held, each with the number of
the creation that it stems from. A `Deed` is an operation on slices, or whatever other code does.
-/

namespace MiniGo

/-- A slice that is held, and the number of the creation it stems from. -/
structure Held where
  value : Value
  origin : Nat

/-- A state of a program, with the slices that are held in it. -/
structure Stage [Natives] where
  config : Config True
  held : List Held := []
  /-- Places that hold copies of slices, each with the creation that its slice stems from. -/
  places : List (Location × Nat) := []
  /-- Number of creations so far. -/
  made : Nat := 0

variable [Natives]

namespace Stage

def heap (stage : Stage) : Heap := stage.config.world.heap

open Classical in
noncomputable def kept (stage : Stage) (world : World) : List (Location × Nat) :=
  stage.places.filter fun place => place.1.content world = place.1.content stage.config.world

theorem mem_kept {stage : Stage} {world : World} {place : Location × Nat} :
    place ∈ stage.kept world ↔
      place ∈ stage.places ∧ place.1.content world = place.1.content stage.config.world := by
  simp [kept]

noncomputable def after (stage : Stage) (later : Config True) : Stage :=
  { stage with config := later, places := stage.kept later.world }

def created (stage : Stage) (later : Config True) (value : Value) (ref : SliceRef)
    (brought : List (Int64 × Nat)) : Stage where
  config := later
  held := ⟨value, stage.made⟩ :: stage.held
  places := brought.map (fun copy => (.item ref copy.1, copy.2)) ++ stage.places
  made := stage.made + 1

def others (stage : Stage) (location : Location) : List (Location × Nat) :=
  stage.places.filter fun place => !location.isSame place.1

/-- An element of a new slice is a copy of a slice: of one among the elements of the base, of one that is
added, or of one among the elements that are added. -/
inductive Brings (stage : Stage) (base : Value) (extras : Extras) : Int64 → Nat → Prop
  | base {ref : SliceRef} {index : Int64} {origin : Nat} :
    base.items? = some ref → (.item ref index, origin) ∈ stage.places →
    Brings stage base extras index origin
  | given {values : List Value} {held : Held} {position : Nat} {index : Int64} :
    extras = .each values → held ∈ stage.held → values[position]? = some held.value →
    index.toInt = ((stage.heap.elementsOf base).length + position : Nat) →
    Brings stage base extras index held.origin
  | element {slice : Value} {ref : SliceRef} {index last : Int64} {origin : Nat} :
    extras = .elements slice → slice.items? = some ref → (.item ref index, origin) ∈ stage.places →
    last.toInt = (stage.heap.elementsOf base).length + index.toInt →
    Brings stage base extras last origin

end Stage

/-- An operation on slices. What is read or passed is held with the origin of what it is a copy of, and
what is made has an origin of its own. -/
inductive Deed : Stage → Stage → Prop
  /-- Other code runs. What it changes is not known any more. -/
  | goes {stage : Stage} {later : Config True} :
    stage.config.Leads later → Deed stage (stage.after later)
  /-- Other code hands over a slice that is none of those held. It stems from a creation of its own. -/
  | finds {stage : Stage} {value : Value} {ref : SliceRef} :
    value.Known stage.config.shape → value.items? = some ref →
    (∀ held ∈ stage.held, held.value.items? ≠ some ref) →
    Deed stage { stage with held := ⟨value, stage.made⟩ :: stage.held, made := stage.made + 1 }
  /-- A slice is made. -/
  | makes {stage : Stage} {later : Config True} {run : Run Value} {base value : Value} {extras : Extras}
      {ref : SliceRef} {brought : List (Int64 × Nat)} :
    Making run base extras → run stage.config.world = .done value later.world →
    value.items? = some ref → value.Known later.shape → stage.config.Leads later →
    (∀ copy ∈ brought, stage.Brings base extras copy.1 copy.2) →
    Deed stage (stage.created later value ref brought)
  /-- A slice is stored to a variable, an element of a slice or an entry of a map. -/
  | copies {stage : Stage} {later : Config True} {held : Held} {location : Location} {type : Ty} :
    held ∈ stage.held → location.Sound stage.config.shape (some type) →
    held.value.Inhabits stage.config.shape type →
    location.store held.value stage.config.world = .done () later.world → stage.config.Leads later →
    Deed stage
      { stage with config := later, places := (location, held.origin) :: stage.others location }
  /-- Any value is stored. -/
  | writes {stage : Stage} {later : Config True} {location : Location} {target : Option Ty}
      {value : Value} :
    location.Sound stage.config.shape target →
    location.store value stage.config.world = .done () later.world → stage.config.Leads later →
    Deed stage { stage with config := later, places := stage.others location }
  /-- A place is read that holds a copy. -/
  | reads {stage : Stage} {location : Location} {origin : Nat} {value : Value} :
    (location, origin) ∈ stage.places →
    location.load stage.config.world = .done value stage.config.world →
    Deed stage { stage with held := ⟨value, origin⟩ :: stage.held }
  /-- A slice is given to a function as an argument that has a parameter of its own, or as all the
  arguments of a variadic one. -/
  | passes {stage : Stage} {signature : Signature} {args given : List Value} {spread : Bool}
      {index : Nat} {held : Held} {value : Value} {world : World} :
    held ∈ stage.held → args[index]? = some held.value →
    spread = true ∨ signature.variadicElem? = none ∨ index < signature.fixed →
    Machine.arguments signature args spread stage.config.world = .done given world →
    given[index]? = some value → Deed stage { stage with held := ⟨value, held.origin⟩ :: stage.held }

theorem Location.content_newSlice {config : Config True} {location : Location} {target : Option Ty}
    (sound : location.Sound config.shape target) (items : Array Value) :
    location.content { config.world with heap := (config.world.heap.newSlice items).2 } =
      location.content config.world := by
  cases location with
  | item ref index =>
    obtain ⟨elem, known, -⟩ := sound
    obtain ⟨old, present, -⟩ := config.sound.heap.slices ref elem known
    have inside := (Array.getElem?_eq_some_iff.mp present).1
    simp only [content, Heap.item, Heap.items_newSlice_of_lt inside]
  | _ => rfl

omit [Natives] in
theorem Location.put_of_store {location : Location} {value : Value} {before after : World}
    (done : location.store value before = .done () after) : location.put value before = .ok after := by
  have finishes : (location.store value before).Finishes (fun _ _ => False) (.ok ()) after := by
    rw [done]
    exact .done
  exact put_of_finishes finishes

omit [Natives] in
theorem Location.content_of_load {location : Location} {value : Value} {world after : World}
    (done : location.load world = .done value after) : location.content world = .ok value := by
  rw [load_apply] at done
  cases content : location.content world with
  | ok found =>
    rw [content] at done
    rw [(Outcome.done.inj done).1]
  | error error =>
    rw [content] at done
    cases done

namespace Stage

/-- The slices that are held refer to the same elements if they have the same origin, and only then. The
places hold what they are recorded to hold. -/
structure Tracked (stage : Stage) : Prop where
  slices : ∀ held ∈ stage.held, ∃ ref, held.value.items? = some ref
  known : ∀ held ∈ stage.held, held.value.Known stage.config.shape
  made : ∀ held ∈ stage.held, held.origin < stage.made
  one : ∀ first ∈ stage.held, ∀ second ∈ stage.held,
    first.origin = second.origin → first.value = second.value
  apart : ∀ first ∈ stage.held, ∀ second ∈ stage.held,
    first.value.items? = second.value.items? → first.origin = second.origin
  places : ∀ place ∈ stage.places, (∃ target, place.1.Sound stage.config.shape target) ∧
    ∃ held ∈ stage.held, held.origin = place.2 ∧ place.1.content stage.config.world = .ok held.value

namespace Tracked

variable {stage : Stage} {later : Config True}

theorem inside (tracked : stage.Tracked) {held : Held} (member : held ∈ stage.held) {ref : SliceRef}
    (refers : held.value.items? = some ref) : ref.index < stage.heap.slices.size := by
  obtain ⟨elem, isSlice⟩ := Value.eq_slice_of_items? refers
  have known : stage.config.shape.slice ref = some elem := by
    have known := tracked.known held member
    rwa [isSlice] at known
  obtain ⟨items, present, -⟩ := stage.config.sound.heap.slices ref elem known
  exact (Array.getElem?_eq_some_iff.mp present).1

theorem one_cons (tracked : stage.Tracked) {value : Value} :
    ∀ first ∈ Held.mk value stage.made :: stage.held, ∀ second ∈ Held.mk value stage.made :: stage.held,
      first.origin = second.origin → first.value = second.value := by
  rintro first (_ | ⟨_, isFirst⟩) second (_ | ⟨_, isSecond⟩) same
  · rfl
  · exact absurd same.symm (Nat.ne_of_lt (tracked.made second isSecond))
  · exact absurd same (Nat.ne_of_lt (tracked.made first isFirst))
  · exact tracked.one first isFirst second isSecond same

theorem again (tracked : stage.Tracked) {held : Held} (member : held ∈ stage.held) :
    { stage with held := held :: stage.held }.Tracked := by
  have old : ∀ other ∈ held :: stage.held, other ∈ stage.held := by
    simp [member]
  refine ⟨fun other isHeld => tracked.slices other (old other isHeld),
    fun other isHeld => tracked.known other (old other isHeld),
    fun other isHeld => tracked.made other (old other isHeld),
    fun first isFirst second isSecond =>
      tracked.one first (old first isFirst) second (old second isSecond),
    fun first isFirst second isSecond =>
      tracked.apart first (old first isFirst) second (old second isSecond), fun place isPlace => ?_⟩
  obtain ⟨located, other, isHeld, holds⟩ := tracked.places place isPlace
  exact ⟨located, other, List.mem_cons_of_mem _ isHeld, holds⟩

theorem finds (tracked : stage.Tracked) {value : Value} {ref : SliceRef}
    (known : value.Known stage.config.shape) (refers : value.items? = some ref)
    (differs : ∀ held ∈ stage.held, held.value.items? ≠ some ref) :
    { stage with held := ⟨value, stage.made⟩ :: stage.held, made := stage.made + 1 }.Tracked := by
  refine ⟨List.forall_mem_cons.mpr ⟨⟨ref, refers⟩, tracked.slices⟩,
    List.forall_mem_cons.mpr ⟨known, tracked.known⟩,
    List.forall_mem_cons.mpr ⟨Nat.lt_succ_self _, fun held member =>
      Nat.lt_succ_of_lt (tracked.made held member)⟩, ?_, ?_, fun place isPlace => ?_⟩
  · exact tracked.one_cons
  · rintro first (_ | ⟨_, isFirst⟩) second (_ | ⟨_, isSecond⟩) same
    · rfl
    · exact absurd (same.symm.trans refers) (differs second isSecond)
    · exact absurd (same.trans refers) (differs first isFirst)
    · exact tracked.apart first isFirst second isSecond same
  · obtain ⟨located, held, member, holds⟩ := tracked.places place isPlace
    exact ⟨located, held, List.mem_cons_of_mem _ member, holds⟩

theorem moved (tracked : stage.Tracked) (leads : stage.config.Leads later)
    {places : List (Location × Nat)}
    (holds : ∀ place ∈ places, (∃ target, place.1.Sound stage.config.shape target) ∧
      ∃ held ∈ stage.held, held.origin = place.2 ∧ place.1.content later.world = .ok held.value) :
    { stage with config := later, places }.Tracked := by
  refine ⟨tracked.slices, fun held member => (tracked.known held member).grows leads.grows, tracked.made,
    tracked.one, tracked.apart, fun place isPlace => ?_⟩
  obtain ⟨⟨target, located⟩, held⟩ := holds place isPlace
  exact ⟨⟨target, located.grows leads.grows⟩, held⟩

theorem holds_others (tracked : stage.Tracked) {location : Location} {target : Option Ty} {value : Value}
    (sound : location.Sound stage.config.shape target)
    (stored : location.put value stage.config.world = .ok later.world) :
    ∀ place ∈ stage.others location, (∃ target, place.1.Sound stage.config.shape target) ∧
      ∃ held ∈ stage.held, held.origin = place.2 ∧ place.1.content later.world = .ok held.value := by
  intro place isOther
  obtain ⟨isPlace, differs⟩ := List.mem_filter.mp isOther
  obtain ⟨⟨wanted, located⟩, held, member, isOrigin, holds⟩ := tracked.places place isPlace
  refine ⟨⟨wanted, located⟩, held, member, isOrigin, ?_⟩
  rw [Location.content_put sound located stored, if_neg (by simpa using differs), holds]

theorem brings (tracked : stage.Tracked) {base : Value} {extras : Extras} {index : Int64} {origin : Nat}
    (brings : stage.Brings base extras index origin) :
    ∃ held ∈ stage.held, held.origin = origin ∧
      ∃ position : Nat, index.toInt = position ∧
        (stage.heap.elementsOf base ++ extras.values stage.heap)[position]? = some held.value := by
  have element {ref : SliceRef} {index : Int64} {origin : Nat}
      (isPlace : (Location.item ref index, origin) ∈ stage.places) :
      ∃ held ∈ stage.held, held.origin = origin ∧
        ∃ position : Nat, index.toInt = position ∧
          (stage.heap.items ref).toList[position]? = some held.value := by
    obtain ⟨-, held, member, isOrigin, holds⟩ := tracked.places _ isPlace
    obtain ⟨position, isIndex, found⟩ := Heap.item_eq_ok.mp holds
    exact ⟨held, member, isOrigin, position, isIndex, (Array.getElem?_toList).trans found⟩
  cases brings with
  | base refers isPlace =>
    obtain ⟨held, member, isOrigin, position, isIndex, found⟩ := element isPlace
    rw [← Heap.elementsOf_eq refers] at found
    exact ⟨held, member, isOrigin, position, isIndex,
      List.getElem?_append_left (List.getElem?_eq_some_iff.mp found).1 ▸ found⟩
  | given same member found isIndex =>
    subst same
    refine ⟨_, member, rfl, _, isIndex, ?_⟩
    rw [List.getElem?_append_right (Nat.le_add_right _ _), Nat.add_sub_cancel_left]
    exact found
  | element same refers isPlace isIndex =>
    subst same
    obtain ⟨held, member, isOrigin, position, isOld, found⟩ := element isPlace
    rw [← Heap.elementsOf_eq refers] at found
    refine ⟨held, member, isOrigin, (stage.heap.elementsOf base).length + position, ?_, ?_⟩
    · rw [isIndex, isOld]
      rfl
    · rw [List.getElem?_append_right (Nat.le_add_right _ _), Nat.add_sub_cancel_left]
      exact found

theorem makes (tracked : stage.Tracked) {run : Run Value} {base value : Value} {extras : Extras}
    {ref : SliceRef} {brought : List (Int64 × Nat)} (making : Making run base extras)
    (made : run stage.config.world = .done value later.world) (refers : value.items? = some ref)
    (known : value.Known later.shape) (leads : stage.config.Leads later)
    (brings : ∀ copy ∈ brought, stage.Brings base extras copy.1 copy.2) :
    (stage.created later value ref brought).Tracked := by
  obtain ⟨elem, gives⟩ := making.run_eq stage.config.world
  obtain ⟨rfl, world⟩ := Outcome.done.inj (made.symm.trans gives)
  obtain rfl := Option.some.inj refers
  have isNew {held : Held} (member : held ∈ stage.held) {other : SliceRef}
      (refers : held.value.items? = some other) : other ≠ ⟨stage.heap.slices.size⟩ := by
    rintro rfl
    exact Nat.lt_irrefl _ (tracked.inside member refers)
  have differs {held : Held} (member : held ∈ stage.held) :
      held.value.items? ≠ some ⟨stage.heap.slices.size⟩ := fun refers => isNew member refers rfl
  refine ⟨?_, ?_, ?_, ?_, ?_, ?_⟩
  · exact List.forall_mem_cons.mpr ⟨⟨_, rfl⟩, tracked.slices⟩
  · exact List.forall_mem_cons.mpr
      ⟨known, fun held member => (tracked.known held member).grows leads.grows⟩
  · exact List.forall_mem_cons.mpr
      ⟨Nat.lt_succ_self _, fun held member => Nat.lt_succ_of_lt (tracked.made held member)⟩
  · exact tracked.one_cons
  · rintro first (_ | ⟨_, isFirst⟩) second (_ | ⟨_, isSecond⟩) same
    · rfl
    · exact absurd same.symm (differs isSecond)
    · exact absurd same (differs isFirst)
    · exact tracked.apart first isFirst second isSecond same
  · intro place isPlace
    rcases List.mem_append.mp isPlace with isBrought | isOld
    · obtain ⟨⟨index, origin⟩, isCopy, rfl⟩ := List.mem_map.mp isBrought
      obtain ⟨held, member, isOrigin, position, isIndex, found⟩ := tracked.brings (brings _ isCopy)
      refine ⟨⟨some elem, elem, known, fun _ => rfl⟩, held, List.mem_cons_of_mem _ member, isOrigin, ?_⟩
      show (Location.item _ index).content later.world = _
      rw [world]
      refine Heap.item_eq_ok.mpr ⟨position, isIndex, ?_⟩
      rw [Heap.items_newSlice, List.getElem?_toArray]
      exact found
    · obtain ⟨⟨target, located⟩, held, member, isOrigin, holds⟩ := tracked.places place isOld
      refine ⟨⟨target, located.grows leads.grows⟩, held, List.mem_cons_of_mem _ member, isOrigin, ?_⟩
      show place.1.content later.world = _
      rw [world, Location.content_newSlice located]
      exact holds

end Tracked

end Stage

namespace Deed

variable {stage next : Stage}

theorem tracked (deed : Deed stage next) (before : stage.Tracked) : next.Tracked := by
  cases deed with
  | goes leads =>
    refine before.moved leads fun place isKept => ?_
    obtain ⟨isPlace, same⟩ := Stage.mem_kept.mp isKept
    obtain ⟨located, held, member, isOrigin, holds⟩ := before.places place isPlace
    exact ⟨located, held, member, isOrigin, same.trans holds⟩
  | finds known refers differs => exact before.finds known refers differs
  | makes making made refers known leads brings =>
    exact before.makes making made refers known leads brings
  | copies member sound inhabits done leads =>
    have stored := Location.put_of_store done
    have stores : Value.Stores _ _ (some _) :=
      ⟨inhabits.1, fun isStrict _ same => Option.some.inj same ▸ inhabits.2 isStrict⟩
    have shows := Location.content_put_self sound nofun stores stored
    exact before.moved leads
      (List.forall_mem_cons.mpr ⟨⟨⟨_, sound⟩, _, member, rfl, shows⟩,
        before.holds_others sound stored⟩)
  | writes sound done leads =>
    exact before.moved leads (before.holds_others sound (Location.put_of_store done))
  | reads isPlace done =>
    obtain ⟨-, held, member, rfl, holds⟩ := before.places _ isPlace
    obtain rfl := Except.ok.inj (holds.symm.trans (Location.content_of_load done))
    exact before.again member
  | passes member isArg own done isGiven =>
    have inside := (List.getElem?_eq_some_iff.mp isArg).1
    rw [Machine.arguments_getElem? inside own done, isArg] at isGiven
    obtain rfl := Option.some.inj isGiven
    exact before.again member

theorem keeps_size (deed : Deed stage next) {ref : SliceRef}
    (inside : ref.index < stage.heap.slices.size) :
    ref.index < next.heap.slices.size ∧ (next.heap.items ref).size = (stage.heap.items ref).size := by
  cases deed with
  | goes leads | makes _ _ _ _ leads _ | copies _ _ _ _ leads | writes _ _ leads =>
    exact ⟨leads.inside inside, leads.size_items inside⟩
  | finds | reads | passes => exact ⟨inside, rfl⟩

end Deed

theorem Deed.exists_makes (stage : Stage) {run : Run Value} {base : Value} {extras : Extras} {elem : Ty}
    {ref : SliceRef} {world : World} (making : Making run base extras)
    (made : run stage.config.world = .done (.slice elem ref) world)
    (inhabit : ∀ value ∈ stage.heap.elementsOf base ++ extras.values stage.heap,
      value.Inhabits stage.config.shape elem) :
    ∃ later : Config True, later.world = world ∧ later.shape.slice ref = some elem ∧
      Deed stage
        { stage with
          config := later
          held := ⟨.slice elem ref, stage.made⟩ :: stage.held
          made := stage.made + 1 } := by
  obtain ⟨_, gives⟩ := making.run_eq stage.config.world
  obtain ⟨⟨⟩, rfl⟩ := Outcome.done.inj (made.symm.trans gives)
  let now := stage.config.measured
  have grown := now.shape.grows_withSlice elem now.sound.heap.slice_fresh
  have inhabit : ∀ value ∈ (stage.heap.elementsOf base ++ extras.values stage.heap).toArray,
      value.Inhabits now.shape elem := fun value member =>
    (inhabit value (List.mem_toArray.mp member)).grows Config.calm_measured.grows
  let later := now.withHeap _ _ grown ⟨rfl, rfl, rfl, rfl, rfl, rfl⟩ (now.sound.heap.newSlice inhabit)
  have known : later.shape.slice ⟨stage.heap.slices.size⟩ = some elem := if_pos rfl
  refine ⟨later, rfl, known, ?_⟩
  exact @Deed.makes _ stage later _ _ _ _ _ [] making made rfl known grown (by simp)

open Relation (ReflTransGen)

namespace Stage

/-- Nobody holds a slice, and no place is recorded. -/
structure Bare (stage : Stage) : Prop where
  held : stage.held = []
  places : stage.places = []

variable {start stage next : Stage}

theorem Bare.tracked (bare : start.Bare) : start.Tracked := by
  constructor <;> simp [bare.held, bare.places]

theorem Tracked.deeds (tracked : stage.Tracked) (deeds : ReflTransGen Deed stage next) :
    next.Tracked := by
  induction deeds with
  | refl => exact tracked
  | tail _ deed ih => exact deed.tracked ih

theorem keeps_size (deeds : ReflTransGen Deed stage next) {ref : SliceRef}
    (inside : ref.index < stage.heap.slices.size) :
    ref.index < next.heap.slices.size ∧ (next.heap.items ref).size = (stage.heap.items ref).size := by
  induction deeds with
  | refl => exact ⟨inside, rfl⟩
  | tail _ deed ih =>
    obtain ⟨present, same⟩ := deed.keeps_size ih.1
    exact ⟨present, same.trans ih.2⟩

/-- How slices behave in a stage that has come out of an earlier one. -/
structure Behaves (earlier now : Stage) : Prop where
  /-- Two slices are one if they stem from one creation, and only then. They share elements then, if
  they have any, and share nothing otherwise. -/
  shares : ∀ first ∈ now.held, ∀ second ∈ now.held,
    (first.value = second.value ↔ first.origin = second.origin) ∧
      (now.heap.Shares first.value second.value ↔
        first.origin = second.origin ∧ now.heap.elementsOf first.value ≠ [])
  /-- An assignment to an element fails if the index is outside. Otherwise each alias shows it, and no
  other slice does, be it held or not. -/
  writes : ∀ written ∈ now.held, ∀ ref index item, written.value.items? = some ref →
    match checkedIndex index (now.heap.elementsOf written.value).length with
    | .error error => (Location.item ref index).store item now.config.world = .fail error now.config.world
    | .ok position => ∃ heap,
      (Location.item ref index).store item now.config.world = .done () { now.config.world with heap } ∧
        (∀ other ∈ now.held, other.origin = written.origin →
          heap.elementsOf other.value = (now.heap.elementsOf other.value).set position item) ∧
        (∀ other ∈ now.held, other.origin ≠ written.origin →
          heap.elementsOf other.value = now.heap.elementsOf other.value) ∧
        ∀ other : Value, other.items? ≠ some ref → heap.elementsOf other = now.heap.elementsOf other
  /-- Whatever makes a slice succeeds. What the slice has is what the base has at that moment and
  then what is added, and it shares nothing with any slice that the program has, which all stay as
  they are. -/
  makes : ∀ run base extras, Making run base extras → ∃ value heap,
    run now.config.world = .done value { now.config.world with heap } ∧ value.items?.isSome = true ∧
      heap.elementsOf value = now.heap.elementsOf base ++ extras.values now.heap ∧
      ∀ existing : Value, existing.Known now.config.shape →
        heap.elementsOf existing = now.heap.elementsOf existing ∧ ¬heap.Shares value existing ∧
          ¬heap.Shares existing value
  /-- Each slice that was there has its length. -/
  lengths : ∀ ref : SliceRef, ref.index < earlier.heap.slices.size →
    (now.heap.items ref).size = (earlier.heap.items ref).size

namespace Tracked

theorem eq_iff (tracked : stage.Tracked) {first second : Held} (isFirst : first ∈ stage.held)
    (isSecond : second ∈ stage.held) : first.value = second.value ↔ first.origin = second.origin :=
  ⟨fun same => tracked.apart first isFirst second isSecond (by rw [same]),
    tracked.one first isFirst second isSecond⟩

theorem items_eq_iff (tracked : stage.Tracked) {first second : Held} (isFirst : first ∈ stage.held)
    (isSecond : second ∈ stage.held) :
    first.value.items? = second.value.items? ↔ first.origin = second.origin :=
  ⟨tracked.apart first isFirst second isSecond,
    fun same => congrArg Value.items? (tracked.one first isFirst second isSecond same)⟩

theorem shares_iff (tracked : stage.Tracked) {first second : Held} (isFirst : first ∈ stage.held)
    (isSecond : second ∈ stage.held) : stage.heap.Shares first.value second.value ↔
      first.origin = second.origin ∧ stage.heap.elementsOf first.value ≠ [] := by
  obtain ⟨ref, refers⟩ := tracked.slices first isFirst
  rw [Heap.shares_iff refers, ← tracked.items_eq_iff isFirst isSecond, refers, eq_comm]

theorem writes (tracked : stage.Tracked) {written : Held} (isWritten : written ∈ stage.held)
    {ref : SliceRef} (refers : written.value.items? = some ref) {index : Int64} {position : Nat}
    (item : Value)
    (inside : checkedIndex index (stage.heap.items ref).size = .ok position) :
    ∃ heap,
      (Location.item ref index).store item stage.config.world = .done ()
        { stage.config.world with heap } ∧
        (∀ other ∈ stage.held, other.origin = written.origin →
          heap.elementsOf other.value = (stage.heap.elementsOf other.value).set position item) ∧
        (∀ other ∈ stage.held, other.origin ≠ written.origin →
          heap.elementsOf other.value = stage.heap.elementsOf other.value) ∧
        ∀ other : Value, other.items? ≠ some ref →
          heap.elementsOf other = stage.heap.elementsOf other := by
  obtain ⟨changed, stored, items, others⟩ := Heap.setItem_eq_ok item inside
  have apart (other : Value) (differs : other.items? ≠ some ref) :
      changed.elementsOf other = stage.heap.elementsOf other := by
    refine Heap.elementsOf_congr fun ref' refers' => others ref' ?_
    rintro rfl
    exact differs refers'
  refine ⟨changed, ?_, fun other isOther same => ?_, fun other isOther differs => apart _ fun same => ?_,
    apart⟩
  · have stored : stage.config.world.heap.setItem ref index item = .ok changed := stored
    simp only [Location.store, Run.tryHeap, stored]
  · have refers' := (tracked.items_eq_iff isOther isWritten).mpr same
    rw [refers] at refers'
    rw [Heap.elementsOf_eq refers', Heap.elementsOf_eq refers', items, Array.toList_setIfInBounds]
  · exact differs ((tracked.items_eq_iff isOther isWritten).mp (same.trans refers.symm))

end Tracked

theorem Bare.behaves {earlier now : Stage} (bare : start.Bare) (before : ReflTransGen Deed start earlier)
    (after : ReflTransGen Deed earlier now) : earlier.Behaves now := by
  have tracked : now.Tracked := bare.tracked.deeds (before.trans after)
  refine ⟨fun first isFirst second isSecond =>
    ⟨tracked.eq_iff isFirst isSecond, tracked.shares_iff isFirst isSecond⟩, ?_, ?_,
    fun ref inside => (keeps_size after inside).2⟩
  · intro written isWritten ref index item refers
    rw [Heap.elementsOf_eq refers, Array.length_toList]
    cases inside : checkedIndex index (now.heap.items ref).size with
    | error error =>
      have failed : now.config.world.heap.setItem ref index item = .error error :=
        Heap.setItem_eq_error item inside
      simp only [Location.store, Run.tryHeap, failed]
    | ok position => exact tracked.writes isWritten refers item inside
  · intro run base extras making
    obtain ⟨elem, made⟩ := making.run_eq now.config.world
    refine ⟨_, _, made, rfl, ?_, fun existing known => Heap.newSlice_apart fun ref refers => ?_⟩
    · rw [Heap.elementsOf_eq rfl, Heap.items_newSlice]
      rfl
    · obtain ⟨elem, rfl⟩ := Value.eq_slice_of_items? refers
      obtain ⟨items, present, -⟩ := now.config.sound.heap.slices ref elem known
      exact (Array.getElem?_eq_some_iff.mp present).1

end Stage

end MiniGo
