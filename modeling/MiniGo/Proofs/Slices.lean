import MiniGo.Proofs.Looping
/-!
The elements of slices. A slice value refers to its elements. An assignment to one of them changes what
the values have that refer to the same elements, and nothing else; and whatever makes a slice makes it
from new elements, the ones of a base and some more.
-/

namespace MiniGo

namespace Value

def items? : Value → Option SliceRef
  | slice _ ref => some ref
  | _ => none

theorem eq_slice_of_items? {value : Value} {ref : SliceRef} (refers : value.items? = some ref) :
    ∃ elem, value = .slice elem ref := by
  cases value with
  | slice elem other =>
    obtain rfl := Option.some.inj refers
    exact ⟨elem, rfl⟩
  | _ => cases refers

end Value

namespace Heap

def elementsOf (heap : Heap) (value : Value) : List Value :=
  match value.items? with
  | some ref => (heap.items ref).toList
  | none => []

/-- Two slices share elements: an assignment to an element of the first can change what the second
has. -/
def Shares (heap : Heap) (first second : Value) : Prop :=
  ∃ ref index item changed, first.items? = some ref ∧ heap.setItem ref index item = .ok changed ∧
    changed.elementsOf second ≠ heap.elementsOf second

variable {heap : Heap} {value : Value} {ref : SliceRef}

theorem elementsOf_eq (refers : value.items? = some ref) :
    heap.elementsOf value = (heap.items ref).toList := by
  simp only [elementsOf, refers]

theorem elementsOf_congr {other : Heap}
    (same : ∀ ref, value.items? = some ref → other.items ref = heap.items ref) :
    other.elementsOf value = heap.elementsOf value := by
  cases refers : value.items? with
  | none => simp [elementsOf, refers]
  | some ref => rw [elementsOf_eq refers, elementsOf_eq refers, same ref refers]

theorem items_newSlice_of_lt {items : Array Value} (inside : ref.index < heap.slices.size) :
    (heap.newSlice items).2.items ref = heap.items ref := by
  simp [Heap.items, newSlice, Array.getD_eq_getD_getElem?, Array.getElem?_push, Nat.ne_of_lt inside]

theorem items_newSlice (items : Array Value) :
    (heap.newSlice items).2.items (heap.newSlice items).1 = items := by
  simp [Heap.items, newSlice, Array.getD_eq_getD_getElem?]

theorem setItem_eq_ok {index : Int64} {position : Nat} (item : Value)
    (inside : checkedIndex index (heap.items ref).size = .ok position) :
    ∃ changed, heap.setItem ref index item = .ok changed ∧
      changed.items ref = (heap.items ref).setIfInBounds position item ∧
      ∀ other, other ≠ ref → changed.items other = heap.items other := by
  obtain ⟨changed, stored⟩ : ∃ changed, heap.setItem ref index item = .ok changed :=
    ⟨_, Except.bind_eq_ok.mpr ⟨position, inside, rfl⟩⟩
  obtain ⟨_, reached, items, others⟩ := items_setItem stored
  obtain rfl := Except.ok.inj (inside.symm.trans reached)
  exact ⟨changed, stored, items, others⟩

theorem setItem_eq_error {index : Int64} {error : RuntimeError} (item : Value)
    (outside : checkedIndex index (heap.items ref).size = .error error) :
    heap.setItem ref index item = .error error := by
  simp [setItem, outside, bind, Except.bind]

theorem shares_iff {first second : Value} (refers : first.items? = some ref) :
    heap.Shares first second ↔ second.items? = some ref ∧ heap.elementsOf first ≠ [] := by
  constructor
  · rintro ⟨ref', index, item, changed, isRef, stored, differs⟩
    obtain rfl := Option.some.inj (isRef.symm.trans refers)
    cases inside : checkedIndex index (heap.items ref').size with
    | error error => simp [setItem_eq_error item inside] at stored
    | ok position =>
      obtain ⟨heap', stored', -, others⟩ := setItem_eq_ok item inside
      obtain rfl := Except.ok.inj (stored.symm.trans stored')
      refine ⟨?_, ?_⟩
      · by_contra notRef
        refine differs (elementsOf_congr fun other isOther => others other ?_)
        rintro rfl
        exact notRef isOther
      · have bound := Run.checkedIndex_lt inside
        rw [elementsOf_eq refers, ← List.length_pos_iff, Array.length_toList]
        omega
  · rintro ⟨isRef, nonempty⟩
    rw [elementsOf_eq refers, ← List.length_pos_iff, Array.length_toList] at nonempty
    -- Some value is not the one that stands first.
    obtain ⟨item, isNew⟩ : ∃ item : Value, item ≠ (heap.items ref)[0] := by
      cases (heap.items ref)[0] with
      | const constant => exact ⟨.slice .any ref, by simp⟩
      | _ => exact ⟨.nil, by simp⟩
    have inside : checkedIndex 0 (heap.items ref).size = .ok 0 := by
      simp [checkedIndex, nonempty, pure, Except.pure]
    obtain ⟨changed, stored, items, -⟩ := setItem_eq_ok item inside
    refine ⟨ref, 0, item, changed, refers, stored, fun same => isNew ?_⟩
    rw [elementsOf_eq isRef, elementsOf_eq isRef, items] at same
    have first := congrArg (·[0]?) (Array.toList_inj.mp same)
    simpa [nonempty] using first

theorem newSlice_apart {existing : Value} {elem : Ty} {items : Array Value}
    (old : ∀ ref, existing.items? = some ref → ref.index < heap.slices.size) :
    (heap.newSlice items).2.elementsOf existing = heap.elementsOf existing ∧
      ¬(heap.newSlice items).2.Shares (.slice elem (heap.newSlice items).1) existing ∧
        ¬(heap.newSlice items).2.Shares existing (.slice elem (heap.newSlice items).1) := by
  have differs : existing.items? ≠ some (heap.newSlice items).1 := fun refers =>
    Nat.lt_irrefl _ (old _ refers)
  refine ⟨elementsOf_congr fun ref refers => items_newSlice_of_lt (old ref refers), fun shares => ?_,
    fun shares => ?_⟩
  · exact differs ((shares_iff rfl).mp shares).1
  · obtain ⟨ref, -, -, -, refers, -⟩ := id shares
    refine differs (refers.trans ?_)
    exact ((shares_iff refers).mp shares).1.symm

end Heap

/-- What a call hands to its function: the arguments as they are, or with those beyond the fixed
parameters of a variadic function packed. -/
def Machine.arguments (signature : Signature) (args : List Value) (spread : Bool) : Run (List Value) :=
  if spread then pure args else packed signature args

theorem Machine.watchedCall_eq (watch : Watch) (host : Host) (fuel : Nat) (thread : ThreadRef)
    (function : Func) (args : List Value) (spread : Bool) :
    watchedCall watch host (fuel + 1) thread ⟨.func function, args, spread⟩ =
      arguments function.signature args spread >>= fun given =>
        apply host (watchedCall watch host fuel)
          (execWith (watchedCall watch host fuel) (loop watch host fuel)) function thread given := by
  rw [watchedCall]
  cases spread <;> rfl

/-- Values that a new slice gets in addition: some given one by one, or the elements of a slice. -/
inductive Extras
  | each (values : List Value)
  | elements (slice : Value)

def Extras.values (heap : Heap) : Extras → List Value
  | each values => values
  | elements slice => heap.elementsOf slice

/-- Makes a slice of the elements of a base, none for nil, and what is added to them. -/
def Run.makeSlice (elem : Ty) (base : Value) : Extras → Run Value
  | .each values => appended elem base values
  | .elements slice => elements slice >>= appended elem base

/-- The ways to make a slice, each with its base and with what is added to that. -/
inductive Making : Run Value → Value → Extras → Prop
  /-- A literal, `make` or `append`. The slice that is added may be the base itself. -/
  | slice (elem : Ty) (base : Value) (extras : Extras) :
    Making (Run.makeSlice elem base extras) base extras
  /-- The last parameter of a variadic function, whose call gives some arguments to it. -/
  | pack {signature : Signature} {elem : Ty} {args : List Value} :
    signature.variadicElem? = some elem → signature.fixed ≤ args.length →
    Making (Machine.arguments signature args false >>= fun given => pure (given.getLastD .nil)) .nil
      (.each (args.drop signature.fixed))

theorem Run.newSlice_apply (elem : Ty) (items : List Value) (world : World) :
    newSlice elem items world = .done (.slice elem (world.heap.newSlice items.toArray).1)
      { world with heap := (world.heap.newSlice items.toArray).2 } := rfl

theorem Run.elements_apply (value : Value) (world : World) :
    elements value world = .done (world.heap.elementsOf value) world := by
  cases value <;> rfl

theorem Run.appended_apply (elem : Ty) (base : Value) (values : List Value) (world : World) :
    ∃ type, appended elem base values world =
      .done (.slice type (world.heap.newSlice (world.heap.elementsOf base ++ values).toArray).1)
        { world with
          heap := (world.heap.newSlice (world.heap.elementsOf base ++ values).toArray).2 } := by
  cases base with
  | slice elem ref =>
    refine ⟨elem, ?_⟩
    have items : (world.heap.elementsOf (.slice elem ref) ++ values).toArray =
        world.heap.items ref ++ values.toArray := by
      rw [Heap.elementsOf_eq rfl]
      simp
    rw [items]
    rfl
  | _ => exact ⟨elem, rfl⟩

theorem Machine.arguments_packed {signature : Signature} {elem : Ty} {args : List Value}
    (isVariadic : signature.variadicElem? = some elem) (enough : signature.fixed ≤ args.length) :
    arguments signature args false =
      Run.newSlice elem (args.drop signature.fixed) >>= fun rest =>
        pure (args.take signature.fixed ++ [rest]) := by
  simp [arguments, packed, isVariadic, Nat.not_lt.mpr enough]

theorem Making.run_eq {run : Run Value} {base : Value} {extras : Extras}
    (making : Making run base extras) (world : World) :
    ∃ elem, run world = .done
      (.slice elem
        (world.heap.newSlice (world.heap.elementsOf base ++ extras.values world.heap).toArray).1)
      { world with
        heap :=
          (world.heap.newSlice (world.heap.elementsOf base ++ extras.values world.heap).toArray).2 } := by
  cases making with
  | slice elem base extras =>
    cases extras with
    | each values => exact Run.appended_apply elem base values world
    | elements other =>
      simp only [Run.makeSlice, Extras.values]
      rw [Run.bind_done (Run.elements_apply other world)]
      exact Run.appended_apply elem base (world.heap.elementsOf other) world
  | @pack signature elem args isVariadic enough =>
    refine ⟨elem, ?_⟩
    rw [Machine.arguments_packed isVariadic enough, Run.bind_assoc]
    refine Eq.trans (Run.bind_done (Run.newSlice_apply elem _ world) _) ?_
    refine Eq.trans (Run.bind_done rfl _) ?_
    rw [List.getLastD_concat]
    rfl

theorem Machine.arguments_getElem? {signature : Signature} {args given : List Value} {spread : Bool}
    {index : Nat} {before after : World} (inside : index < args.length)
    (own : spread = true ∨ signature.variadicElem? = none ∨ index < signature.fixed)
    (done : arguments signature args spread before = .done given after) :
    given[index]? = args[index]? := by
  have asGiven (same : (pure args : Run (List Value)) before = .done given after) :
      given[index]? = args[index]? := by
    cases same
    rfl
  unfold arguments at done
  split at done
  · exact asGiven done
  rename_i notSpread
  unfold packed at done
  cases isVariadic : signature.variadicElem? with
  | none =>
    rw [isVariadic] at done
    exact asGiven done
  | some elem =>
  have isFixed : index < signature.fixed := by
    rcases own with isSpread | notVariadic | isFixed
    · exact absurd isSpread notSpread
    · exact nomatch isVariadic.symm.trans notVariadic
    · exact isFixed
  simp only [isVariadic] at done
  split at done
  · cases done
  cases (Run.bind_done (Run.newSlice_apply elem _ before) _).symm.trans done
  have inTaken : index < (args.take signature.fixed).length := by
    rw [List.length_take]
    exact Nat.lt_min.mpr ⟨isFixed, inside⟩
  rw [List.getElem?_append_left inTaken, List.getElem?_take_of_lt isFixed]

namespace CodeOf

/-- A slice literal, `make` for a slice, or `append`, with the type of the elements. -/
def madeOf? {τ : Type} : CodeOf τ → Option Ty
  | .sliceLit elem _ | .makeSlice elem _ | .append elem _ _ => some elem
  | _ => none

/-- Evaluates the operands of code that makes a slice: a base, nil for a literal and for `make`, and what
is added to that. -/
def givenFor (call : Caller) (env : EnvRef) : Code → Run (Value × Extras)
  | .sliceLit _ items => do
    let items ← evalAll call env items
    pure (.nil, .each items)
  | .makeSlice elem size => do
    let size ← eval call env size
    let size ← Run.asInt size
    let size ← Run.ofExcept (checkedSize size "makeslice: len out of range")
    pure (.nil, .each (List.replicate size (.zero elem)))
  | .append _ base (.elements slice) => do
    let base ← eval call env base
    let slice ← eval call env slice
    pure (base, .elements slice)
  | .append _ base extra => do
    let base ← eval call env base
    let extra ← evalValues call env extra
    pure (base, .each extra)
  | _ => pure (.nil, .each [])

def isRead {τ : Type} : CodeOf τ → Bool
  | .load .. | .sliceIndex .. | .mapIndex .. => true
  | _ => false

def readFrom (call : Caller) (env : EnvRef) : Code → Run Location
  | .load hops slot => Run.read fun world => .slot (world.up env hops) slot
  | .sliceIndex base index => do
    let index ← eval call env index
    let index ← Run.asInt index
    let base ← eval call env base
    match base with
    | .slice _ ref => pure (.item ref index)
    | _ => pure (.nilSlice index)
  | .mapIndex elem base key => do
    let key ← eval call env key
    let base ← eval call env base
    match base with
    | .map _ _ ref => pure (.entry elem ref key)
    | _ => pure (.nilMap elem)
  | _ => pure .blank

end CodeOf

theorem eval_makes {call : Caller} {env : EnvRef} {code : Code} {elem : Ty}
    (makes : code.madeOf? = some elem) : eval call env code =
      code.givenFor call env >>= fun given => Run.makeSlice elem given.1 given.2 := by
  cases code with
  | sliceLit | makeSlice =>
    cases makes
    simp only [eval, CodeOf.givenFor, Run.bind_assoc]
    rfl
  | append elem base extra =>
    cases makes
    cases extra <;> simp only [eval, evalValues, CodeOf.givenFor, Run.bind_assoc] <;> rfl
  | _ => cases makes

theorem eval_reads {call : Caller} {env : EnvRef} {code : Code} (reads : code.isRead = true) :
    eval call env code = code.readFrom call env >>= Location.load := by
  cases code with
  | load hops slot => rfl
  | sliceIndex base index =>
    simp only [eval, CodeOf.readFrom, Run.bind_assoc]
    refine congrArg (eval call env index >>= ·) (funext fun _ => congrArg (_ >>= ·) (funext fun _ =>
      congrArg (eval call env base >>= ·) (funext fun base => ?_)))
    cases base <;> rfl
  | mapIndex elem base key =>
    simp only [eval, CodeOf.readFrom, Run.bind_assoc]
    refine congrArg (eval call env key >>= ·) (funext fun _ =>
      congrArg (eval call env base >>= ·) (funext fun base => ?_))
    cases base <;> rfl
  | _ => cases reads

section Operands

variable [Natives] {strict : Prop} {start : Config strict} {task : ThreadRef} {floor : Nat}
  {env : EnvRef} {call : Caller} {ctx : Ctx strict}

def Extras.Inhabit (extras : Extras) (shape : Shape strict) (elem : Ty) : Prop :=
  match extras with
  | .each values => ∀ value ∈ values, value.Inhabits shape elem
  | .elements slice => slice.Inhabits shape (.slice elem)

theorem Extras.Inhabit.grows {extras : Extras} {before after : Shape strict} {elem : Ty}
    (inhabit : extras.Inhabit before elem) (grown : before.Grows after) :
    extras.Inhabit after elem := by
  cases extras with
  | each values => exact fun value member => (inhabit value member).grows grown
  | elements slice => exact Value.Inhabits.grows inhabit grown

theorem Run.makeSlice_meets {elem : Ty} {base : Value} {extras : Extras} (quiet : start.Quiet task)
    (isBase : base.Inhabits start.shape (.slice elem)) (inhabit : extras.Inhabit start.shape elem) :
    (makeSlice elem base extras).Meets start task floor
      fun now value => value.Inhabits now.shape (.slice elem) := by
  cases extras with
  | each values => exact appended_meets quiet isBase inhabit
  | elements slice =>
    exact (elements_meets quiet inhabit).bind fun _ _ since quiet each =>
      appended_meets quiet (isBase.grows since.grows) each

theorem CodeOf.givenFor_meets (safe : call.Safe strict) {code : Code} {type elem : Ty}
    (typed : CodeTyped strict ctx code type) (makes : code.madeOf? = some elem)
    (hosts : start.Hosts task floor env ctx.layers) :
    (code.givenFor call env).Meets start task floor fun now given =>
      given.1.Inhabits now.shape (.slice elem) ∧ given.2.Inhabit now.shape elem := by
  have isNil {shape : Shape strict} : (Value.const .nil).Inhabits shape (.slice elem) :=
    Value.inhabits_const (Value.zero_is (.slice elem))
  cases typed with
  | sliceLit fit =>
    cases makes
    exact (evalAll_meets safe _ fit hosts).bind fun _ _ _ quiet inhabit =>
      Run.pure_meets quiet ⟨isNil, inhabit.each⟩
  | makeSlice fits =>
    cases makes
    refine (eval_meets safe _ fits hosts).bind fun _ _ _ quiet is => ?_
    refine (Run.asInt_meets (fun _ _ => True) quiet is.2 fun _ _ => trivial).bind ?_
    intro _ _ _ quiet _
    refine (Run.checkedSize_meets quiet).bind fun _ size _ quiet _ => Run.pure_meets quiet ⟨isNil, ?_⟩
    intro value member
    rw [List.eq_of_mem_replicate member]
    exact Value.inhabits_const (Value.zero_is _)
  | @append _ _ _ extra baseFits extraTyped =>
    cases makes
    cases extraTyped with
    | each fit =>
      refine (eval_meets safe _ baseFits hosts).bind fun _ _ since quiet fits => ?_
      exact (evalAll_meets safe _ fit (hosts.since since quiet)).bind fun _ _ later quiet inhabit =>
        Run.pure_meets quiet ⟨fits.grows later.grows, inhabit.each⟩
    | elements slice =>
      refine (eval_meets safe _ baseFits hosts).bind fun _ _ since quiet fits => ?_
      exact (eval_meets safe _ slice (hosts.since since quiet)).bind fun _ _ later quiet inhabits =>
        Run.pure_meets quiet ⟨fits.grows later.grows, inhabits⟩
  | _ => cases makes

theorem CodeOf.readFrom_meets (safe : call.Safe strict) {code : Code} {type : Ty}
    (typed : CodeTyped strict ctx code type) (reads : code.isRead = true)
    (hosts : start.Hosts task floor env ctx.layers) :
    (code.readFrom call env).Meets start task floor fun _ _ => True := by
  cases typed with
  | load found => exact Run.read_meets _ hosts.quiet trivial
  | sliceIndex baseFits indexFits =>
    refine (eval_meets safe _ indexFits hosts).bind fun _ _ since quiet is => ?_
    refine (Run.asInt_meets (fun _ _ => True) quiet is.2 fun _ _ => trivial).bind ?_
    intro _ _ later quiet _
    refine (eval_meets safe _ baseFits ((hosts.since since ‹_›).since later quiet)).bind
      fun _ value _ quiet _ => ?_
    cases value <;> exact Run.pure_meets quiet trivial
  | mapIndex baseFits keyFits =>
    refine (eval_meets safe _ keyFits hosts).bind fun _ _ since quiet _ => ?_
    refine (eval_meets safe _ baseFits (hosts.since since quiet)).bind fun _ value _ quiet _ => ?_
    cases value <;> exact Run.pure_meets quiet trivial
  | _ => cases reads

end Operands

theorem Machine.arguments_meets [Natives] {strict : Prop} {start : Config strict} {task : ThreadRef}
    {floor : Nat} {signature : Signature} {args : List Value} {spread : Bool} (quiet : start.Quiet task)
    (known : ∀ value ∈ args, value.Known start.shape) (proper : strict → signature.Proper)
    (fits : strict → ∃ targets, List.Forall₂ Value.Is args targets ∧ signature.Accepts spread targets) :
    (arguments signature args spread).Meets start task floor fun now given =>
      Inhabit now.shape given signature.params := by
  unfold arguments
  split
  · next isSpread =>
    refine Run.pure_meets quiet ⟨known, fun isStrict => ?_⟩
    obtain ⟨targets, are, accepts⟩ := fits isStrict
    rw [isSpread] at accepts
    exact (show targets = signature.params from accepts) ▸ are
  · next notSpread =>
    rw [Bool.eq_false_iff.mpr notSpread] at fits
    exact packed_meets quiet known proper fits

section Leads

variable [Natives] {strict : Prop} {start now later : Config strict} {task : ThreadRef}

/-- Code runs from one state to another: whatever was known still is, and each slice has its length. -/
def Config.Leads (now later : Config strict) : Prop := now.measured.shape.Grows later.shape

namespace Config.Leads

theorem grows (leads : now.Leads later) : now.shape.Grows later.shape :=
  Config.calm_measured.grows.trans leads

theorem size_items (leads : now.Leads later) {ref : SliceRef}
    (inside : ref.index < now.world.heap.slices.size) :
    (later.world.heap.items ref).size = (now.world.heap.items ref).size := Config.size_items leads inside

theorem inside (leads : now.Leads later) {ref : SliceRef}
    (inside : ref.index < now.world.heap.slices.size) : ref.index < later.world.heap.slices.size := by
  have noted : now.measured.shape.lengths ref = some now.world.heap.slices[ref.index].size := by
    simp [measured, withHeap, Shape.withLengths, inside]
  obtain ⟨items, present, -⟩ := later.sound.heap.lengths ref _ (Shape.Grows.lengths leads _ _ noted)
  exact (Array.getElem?_eq_some_iff.mp present).1

end Config.Leads

theorem Run.Meets.leads {α : Type} {run : Run α} {floor : Nat} {post : Config strict → α → Prop}
    (meets : run.Meets now.measured task floor post) :
    (run now.world).Safe task (fun later result =>
      now.Leads later ∧ now.Ends task floor post later result) now := by
  refine Outcome.Safe.sooner (Outcome.Safe.mono meets fun later _ ends => ?_)
    Config.calm_measured.advances
  exact ⟨ends.1.grows, Config.calm_measured.since.trans ends.1, ends.2⟩

end Leads

end MiniGo
