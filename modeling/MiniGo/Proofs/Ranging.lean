import MiniGo.Proofs.Spots
/-!
Range loops. The iteration state of a typed loop lies in slots that no name stands for; the keys and
values that it hands out have the types of the loop.
-/

namespace MiniGo

variable {strict : Prop}

namespace RangeKind.Over

variable {kind : RangeKind} {subject key : Ty} {value : Option Ty}

theorem ne_any (ranged : kind.Over subject key value) : subject ≠ .any := by
  cases ranged <;> simp

theorem eq_int (ranged : RangeKind.Over .int subject key value) :
    subject = .int ∧ key = .int ∧ value = none := by
  cases ranged
  exact ⟨rfl, rfl, rfl⟩

theorem eq_slice (ranged : RangeKind.Over .slice subject key value) :
    ∃ elem, subject = .slice elem ∧ key = .int ∧ value = some elem := by
  cases ranged
  exact ⟨_, rfl, rfl, rfl⟩

theorem eq_string (ranged : RangeKind.Over .string subject key value) :
    subject = .string ∧ key = .int ∧ value = some .int := by
  cases ranged
  exact ⟨rfl, rfl, rfl⟩

theorem eq_map (ranged : RangeKind.Over .map subject key value) :
    ∃ elem, subject = .map key elem ∧ value = some elem := by
  cases ranged
  exact ⟨_, rfl, rfl⟩

theorem eq_chan (ranged : RangeKind.Over .chan subject key value) :
    ∃ direction, subject = .chan direction key ∧ value = none := by
  cases ranged
  exact ⟨_, rfl, rfl⟩

end RangeKind.Over

variable [Natives]

section Slots

variable {start : Config strict} {task : ThreadRef} {floor : Nat} {env : EnvRef}

theorem Run.loadSlot_meets {known : EnvShape} {slot : Slot} (quiet : start.Quiet task)
    (found : start.shape.env env = some known) (has : known.level.Has slot) :
    (Run.load env 0 slot).Meets start task floor fun now value =>
      value.Rests now.shape slot.type ∧
        (strict → now.shape.ready env slot → value.Is slot.type) := by
  obtain ⟨-, there, present, sound⟩ := start.sound.envs env known found
  refine Run.read_meets _ quiet ?_
  have loaded : start.world.load (start.world.up env 0) slot = there.slots.load slot := by
    simp [World.up, World.load, present]
  rw [loaded]
  exact ⟨sound.load_rests has, fun isStrict ready => (sound.ready slot ready).2 isStrict⟩

end Slots

namespace RangeSlots

variable {spot : Spot strict} {now : Config strict} {state : RangeSlots} {kind : RangeKind}
  {key : Ty} {value : Option Ty} {layer : Layer}

open Spot

theorem number_inhabits {shape : Shape strict} {slot : Slot} (integer : slot.type = .int)
    (number : Int64) : (Value.int number).Inhabits shape slot.type := by
  rw [integer]
  exact Value.inhabits_const (Value.is_self _)

theorem storeInt_acts {slot : Slot} (poised : spot.Poised now)
    (isLayer : spot.ctx.layers[0]? = some layer) (inside : layer.level.Has slot ∧ slot.type = .int)
    (number : Int64) :
    spot.Acts (Run.store spot.env slot (.int number)) now fun _ _ => True :=
  (Acts.store poised isLayer inside.1 (by simp [inside.2]) (number_inhabits inside.2 number)).mono
    fun _ _ _ _ => trivial

theorem limitOf_acts {subject : Value} (poised : spot.Poised now)
    (isLayer : spot.ctx.layers[0]? = some layer)
    (ranged : kind.Over state.subject.type key value)
    (inside : state.In layer.level state.subject.type key)
    (inhabits : subject.Inhabits now.shape state.subject.type) :
    spot.Acts (state.limitOf kind key spot.env subject) now fun _ _ => True := by
  unfold limitOf
  split
  · exact .pure poised trivial
  · next foundKey elem ref =>
    refine (Acts.of_meets poised (Run.read_meets
      (fun later keys => ∀ value ∈ keys, value.Inhabits later.shape key) poised.quiet ?_)).bind
        fun later keys poised _ inhabit => ?_
    · intro value member
      simp only [Entries.keys, List.map_map, List.mem_map, Function.comp_apply] at member
      obtain ⟨entry, isEntry, rfl⟩ := member
      refine ⟨by cases entry.1 <;> trivial, fun isStrict => ?_⟩
      have is := (now.sound.heap.entries inhabits.1 entry isEntry).1 isStrict
      obtain ⟨_, isMap, -⟩ := ranged.eq_map
      rcases (isMap ▸ inhabits.2 isStrict).eq_map with isNil | ⟨_, same⟩
      · cases isNil
      · cases same
        exact is
    · refine (Acts.of_meets poised (Run.newSlice_meets poised.quiet inhabit)).bind
        fun last slice poised _ fits => ?_
      refine (Acts.store poised isLayer inside.keys.1 (by simp [inside.keys.2]) ?_).bind
        fun _ _ poised _ _ => .pure poised trivial
      rw [inside.keys.2]
      exact fits
  · exact .pure poised trivial
  · next notChan notInt notMap =>
    have reads : (Run.tryRead (·.length subject)).Meets now spot.task now.world.envs.size
        fun _ _ => True := by
      refine Run.tryRead_meets poised.quiet (fun _ _ => trivial) fun error failed isStrict => ?_
      have is := inhabits.2 isStrict
      cases kind with
      | int =>
        obtain ⟨number, rfl⟩ := (ranged.eq_int.1 ▸ is).eq_int
        exact absurd rfl (notInt number rfl)
      | chan => exact absurd rfl notChan
      | slice =>
        obtain ⟨elem, isSlice, -, -⟩ := ranged.eq_slice
        rcases (isSlice ▸ is).eq_slice with rfl | ⟨ref, rfl⟩ <;> cases failed
      | string =>
        obtain ⟨text, rfl⟩ := (ranged.eq_string.1 ▸ is).eq_str
        cases failed
      | map =>
        obtain ⟨elem, isMap, -⟩ := ranged.eq_map
        rcases (isMap ▸ is).eq_map with rfl | ⟨ref, rfl⟩ <;> cases failed
    exact (Acts.of_meets poised reads).bind fun _ _ poised _ _ => .pure poised trivial

theorem start_acts {subject : Value} (poised : spot.Poised now)
    (isLayer : spot.ctx.layers[0]? = some layer)
    (ranged : kind.Over state.subject.type key value)
    (inside : state.In layer.level state.subject.type key)
    (inhabits : subject.Inhabits now.shape state.subject.type) :
    spot.Acts (state.start kind key spot.env subject) now fun later _ =>
      later.shape.ready spot.env state.subject := by
  refine (limitOf_acts poised isLayer ranged inside inhabits).bind fun _ limit poised first _ => ?_
  refine (Acts.store poised isLayer inside.subject.1 ranged.ne_any (inhabits.grows first)).bind
    fun _ _ poised _ ready => ?_
  refine (storeInt_acts poised isLayer inside.index 0).bind fun _ _ poised second _ => ?_
  refine (storeInt_acts poised isLayer inside.limit limit).bind fun _ _ poised third _ => ?_
  refine (storeInt_acts poised isLayer inside.step 1).mono fun _ _ fourth _ => ?_
  exact fourth.ready _ _ (third.ready _ _ (second.ready _ _ ready))

def Hands (shape : Shape strict) (key : Ty) (value : Option Ty) (found : Option (Value × Value)) :
    Prop :=
  ∀ entry ∈ found, entry.1.Inhabits shape key ∧ entry.2.Known shape ∧
    ∀ type, value = some type → entry.2.Inhabits shape type

theorem Hands.none {shape : Shape strict} : Hands shape key value none := by simp [Hands]

theorem Hands.some {shape : Shape strict} {first second : Value} (isKey : first.Inhabits shape key)
    (known : second.Known shape) (is : ∀ type, value = .some type → second.Inhabits shape type) :
    Hands shape key value (.some (first, second)) := by
  rintro _ ⟨⟩
  exact ⟨isKey, known, is⟩

theorem firstPresent_spec {shape : Shape strict} {entries : Entries} {keyType foundKey elem : Ty}
    {keys : List Value} {skipped : Nat} {found : Value × Value}
    (sound : entries.Sound shape foundKey elem)
    (inhabit : ∀ value ∈ keys, value.Inhabits shape keyType)
    (first : firstPresent entries keys = .some (skipped, found)) :
    found.1.Inhabits shape keyType ∧ found.2.Inhabits shape elem := by
  induction keys generalizing skipped with
  | nil => simp [firstPresent] at first
  | cons key keys ih =>
    simp only [firstPresent] at first
    split at first
    · next value isValue =>
      simp only [Option.some.injEq, Prod.mk.injEq] at first
      obtain ⟨-, rfl⟩ := first
      obtain ⟨wanted, -, present⟩ := Option.bind_eq_some_iff.mp isValue
      exact ⟨inhabit key (.head _), sound.get? present⟩
    · simp only [Option.map_eq_some_iff, Prod.mk.injEq, Prod.exists] at first
      obtain ⟨less, first, second, isFirst, -, rfl⟩ := first
      exact ih (fun value member => inhabit value (.tail _ member)) isFirst

theorem nextEntry_acts {index : Int64} {map : MapRef} {keys : SliceRef} {keyType foundKey elem : Ty}
    (poised : spot.Poised now) (isLayer : spot.ctx.layers[0]? = some layer)
    (inside : state.In layer.level state.subject.type key)
    (isMap : now.shape.map map = some (foundKey, elem)) (isKeys : now.shape.slice keys = some keyType)
    (same : strict → keyType = key ∧ value = some elem) :
    spot.Acts (state.nextEntry spot.env index map keys) now fun later found =>
      Hands later.shape key value found := by
  refine Acts.bind (Acts.of_meets poised (Run.read_meets
    (fun later items => later = now ∧ ∀ value ∈ items, value.Inhabits now.shape keyType) poised.quiet
      ⟨rfl, fun value member => ?_⟩)) ?_
  · exact now.sound.heap.items isKeys value (Array.mem_toList_iff.mp (List.mem_of_mem_drop member))
  rintro now rest poised - ⟨rfl, inhabit⟩
  refine Acts.bind (Acts.of_meets poised (Run.read_meets
    (fun later entries => later = now ∧ entries.Sound now.shape foundKey elem) poised.quiet
      ⟨rfl, now.sound.heap.entries isMap⟩)) ?_
  rintro now entries poised - ⟨rfl, sound⟩
  split
  · next skipped found first =>
    obtain ⟨isKey, isValue⟩ := firstPresent_spec sound inhabit first
    refine (storeInt_acts poised isLayer inside.index _).bind fun _ _ poised grows _ => ?_
    refine .pure poised (Hands.some ⟨isKey.1.grows grows, fun isStrict => ?_⟩
      (isValue.1.grows grows) fun type isType => ⟨isValue.1.grows grows, fun isStrict => ?_⟩)
    · exact (same isStrict).1 ▸ isKey.2 isStrict
    · obtain rfl := Option.some.inj ((same isStrict).2.symm.trans isType)
      exact isValue.2 isStrict
  · exact (storeInt_acts poised isLayer inside.index _).bind fun _ _ poised _ _ =>
      .pure poised .none

theorem nextChar_acts {index : Int64} {text : String} (poised : spot.Poised now)
    (isLayer : spot.ctx.layers[0]? = some layer)
    (inside : layer.level.Has state.step ∧ state.step.type = .int) :
    spot.Acts (state.nextChar spot.env index text) now fun later found =>
      Hands later.shape .int (some .int) found := by
  unfold nextChar
  split
  · next char _ =>
    refine (storeInt_acts poised isLayer inside _).bind fun _ _ poised _ _ => ?_
    refine .pure poised (Hands.some (Value.inhabits_const (Value.is_self _)) trivial ?_)
    rintro _ ⟨⟩
    exact Value.inhabits_const (Value.is_self _)
  · exact .pure poised .none

theorem load_acts {slot : Slot} (poised : spot.Poised now)
    (isLayer : spot.ctx.layers[0]? = some layer) (has : layer.level.Has slot)
    (ready : strict → slot.type = .string → slot ∈ layer.ready) :
    spot.Acts (Run.load spot.env 0 slot) now fun later value =>
      value.Inhabits later.shape slot.type := by
  obtain ⟨known, found, level, described, -⟩ := poised.layer isLayer
  refine Acts.of_meets poised ?_
  refine (Run.loadSlot_meets poised.quiet found (level ▸ has)).mono fun later value since _ fits => ?_
  refine ⟨fits.1.1, fun isStrict => ?_⟩
  rcases fits.1.2 isStrict with is | ⟨string, -⟩
  · exact is
  · have isReady := described.ready isStrict slot (ready isStrict string)
    exact fits.2 isStrict (since.grows.ready _ _ isReady)

theorem loadInt_acts {slot : Slot} (poised : spot.Poised now)
    (isLayer : spot.ctx.layers[0]? = some layer) (inside : layer.level.Has slot ∧ slot.type = .int) :
    spot.Acts (loadInt spot.env slot) now fun _ _ => True := by
  refine (load_acts poised isLayer inside.1 (by simp [inside.2])).bind fun _ value poised _ fits => ?_
  refine .of_meets poised (Run.asInt_meets _ poised.quiet (fun isStrict => ?_) fun _ _ => trivial)
  exact inside.2 ▸ fits.2 isStrict

theorem next_acts (poised : spot.Poised now) (isLayer : spot.ctx.layers[0]? = some layer)
    (ranged : kind.Over state.subject.type key value)
    (inside : state.In layer.level state.subject.type key)
    (ready : strict → state.subject.type = .string → state.subject ∈ layer.ready) :
    spot.Acts (state.next kind spot.env) now fun later found => Hands later.shape key value found := by
  refine (loadInt_acts poised isLayer inside.index).bind fun _ index poised _ _ => ?_
  refine (loadInt_acts poised isLayer inside.limit).bind fun _ limit poised _ _ => ?_
  refine (load_acts poised isLayer inside.subject.1 ready).bind fun now subject poised _ fits => ?_
  cases kind with
  | int =>
    refine .pure poised ?_
    obtain ⟨-, rfl, rfl⟩ := ranged.eq_int
    split
    · exact .some (Value.inhabits_const (Value.is_self _)) trivial (by simp)
    · exact .none
  | slice =>
    obtain ⟨elem, isSlice, rfl, rfl⟩ := ranged.eq_slice
    dsimp only
    split
    · next found ref =>
      split
      · refine (Acts.of_meets poised (Run.item_meets poised.quiet fits.1)).bind
          fun _ item poised _ inhabits => .pure poised ?_
        refine .some (Value.inhabits_const (Value.is_self _)) inhabits.1 ?_
        rintro _ ⟨⟩
        refine ⟨inhabits.1, fun isStrict => ?_⟩
        rcases (isSlice ▸ fits.2 isStrict).eq_slice with isNil | ⟨_, same⟩
        · cases isNil
        · cases same
          exact inhabits.2 isStrict
      · exact .pure poised .none
    · exact .pure poised .none
  | string =>
    obtain ⟨isString, rfl, rfl⟩ := ranged.eq_string
    refine (Acts.of_meets poised (Run.asStr_meets (fun _ _ => True) poised.quiet
      (fun isStrict => isString ▸ fits.2 isStrict) fun _ _ => trivial)).bind
        fun _ text poised _ _ => nextChar_acts poised isLayer inside.step
  | map =>
    obtain ⟨elem, isMap, rfl⟩ := ranged.eq_map
    refine (load_acts poised isLayer inside.keys.1 (by simp [inside.keys.2])).bind
      fun _ keys poised grows keysFit => ?_
    split
    · next foundKey found map keyType items =>
      refine nextEntry_acts poised isLayer inside (grows.map _ _ fits.1) keysFit.1 fun isStrict => ?_
      rcases (isMap ▸ fits.2 isStrict).eq_map with isNil | ⟨_, same⟩
      · cases isNil
      · rcases (inside.keys.2 ▸ keysFit.2 isStrict).eq_slice with isNil | ⟨_, sameKeys⟩
        · cases isNil
        · cases same
          cases sameKeys
          exact ⟨rfl, rfl⟩
    · exact .pure poised .none
  | chan =>
    obtain ⟨direction, isChan, rfl⟩ := ranged.eq_chan
    dsimp only
    split
    · next elem ref =>
      refine (Acts.of_meets poised (Run.recv_meets poised.quiet fits.1)).bind
        fun _ received poised _ inhabits => .pure poised ?_
      split
      · refine .some ⟨inhabits.1, fun isStrict => ?_⟩ trivial (by simp)
        obtain rfl := Run.chan_elem (isChan ▸ fits.2 isStrict)
        exact inhabits.2 isStrict
      · exact .none
    · exact .of_meets poised (Run.fail_meets poised.quiet (RuntimeError.allowed_unsupported (by decide)))

theorem advance_acts (poised : spot.Poised now) (isLayer : spot.ctx.layers[0]? = some layer)
    {subject : Ty} (inside : state.In layer.level subject key) :
    spot.Acts (state.advance spot.env) now fun _ _ => True := by
  refine (loadInt_acts poised isLayer inside.index).bind fun _ index poised _ _ => ?_
  refine (loadInt_acts poised isLayer inside.step).bind fun _ step poised _ _ => ?_
  exact storeInt_acts poised isLayer inside.index _

end RangeSlots

theorem storeTarget_acts {spot : Spot strict} {now : Config strict} {call : Caller}
    {target : Option Place} {targets : List (Option Ty)} {value : Value}
    (safe : call.Safe strict) (poised : spot.Poised now)
    (typed : PlacesTyped strict spot.ctx target.toList targets)
    (stores : ∀ wanted ∈ targets, value.Stores now.shape wanted) :
    spot.Acts (storeTarget call spot.env target value) now fun later _ =>
      ∀ slot ∈ target.toList.filterMap PlaceOf.inner?, later.shape.ready spot.env slot := by
  cases target with
  | none => exact .pure poised (by simp)
  | some place =>
    obtain ⟨wanted, rest, rfl, -, places⟩ := Location.ofFirst_meets safe typed poised.hosts
    refine (Spot.Acts.of_meets poised places).bind fun later location poised grows sound => ?_
    refine (Spot.Acts.of_meets poised (Location.store_meets poised.quiet sound.1
      ⟨(stores wanted (.head _)).1.grows grows, (stores wanted (.head _)).2⟩)).mono
        fun last _ _ ready slot member => ?_
    obtain ⟨_, isPlace, inner⟩ := List.mem_filterMap.mp member
    obtain rfl := List.mem_singleton.mp isPlace
    exact ready _ _ (sound.2 slot inner)

end MiniGo
