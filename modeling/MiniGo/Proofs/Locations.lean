import MiniGo.Proofs.Evaluation
/-!
Locations. The operands of a typed place give a location that takes values of its type, and a store
through it keeps the state sound.
-/

namespace MiniGo

variable {strict : Prop}

def Location.Sound (shape : Shape strict) (target : Option Ty) : Location → Prop
  | .slot ref named =>
    target = some named.type ∧
      ∃ known, shape.env ref = some known ∧ known.level.Shared named
  | .item ref _ => ∃ elem, shape.slice ref = some elem ∧ (strict → target = some elem)
  | .entry elem ref key =>
    ∃ keyType, shape.map ref = some (keyType, elem) ∧
      (strict → key.Is keyType ∧ target = some elem)
  | .nilMap elem => strict → target = some elem
  | .nilSlice _ => True
  | .blank => target = none

def Location.Readable (shape : Shape strict) : Location → Prop
  | .slot ref named => strict → named.type = .string → shape.ready ref named
  | _ => True

theorem Location.Sound.grows {before after : Shape strict} {target : Option Ty} {location : Location}
    (sound : location.Sound before target) (grown : before.Grows after) :
    location.Sound after target := by
  cases location with
  | slot ref slot =>
    obtain ⟨same, known, found, shared⟩ := sound
    exact ⟨same, known, grown.env _ _ found, shared⟩
  | item ref index =>
    obtain ⟨elem, known, same⟩ := sound
    exact ⟨elem, grown.slice _ _ known, same⟩
  | entry elem ref key =>
    obtain ⟨keyType, known, same⟩ := sound
    exact ⟨keyType, grown.map _ _ known, same⟩
  | nilMap elem => exact sound
  | nilSlice index => exact sound
  | blank => exact sound

variable [Natives]

def Value.Stores (shape : Shape strict) (value : Value) (target : Option Ty) : Prop :=
  value.Known shape ∧ (strict → ∀ wanted, target = some wanted → value.Is wanted)

theorem Value.Inhabits.stores {shape : Shape strict} {value : Value} {type : Ty}
    {target : Option Ty} (inhabits : value.Inhabits shape type) (storesTo : type.StoresTo target) :
    value.Stores shape target :=
  ⟨inhabits.1, fun isStrict wanted same => (inhabits.2 isStrict).assign (storesTo wanted same)⟩

section Locations

variable {start : Config strict} {task : ThreadRef} {floor : Nat} {env : EnvRef} {call : Caller}
  {ctx : Ctx strict}

namespace Run

theorem store_meets {ref : EnvRef} {known : EnvShape} {slot : Slot} {value : Value}
    (quiet : start.Quiet task) (found : start.shape.env ref = some known)
    (shared : known.level.Shared slot) (inhabits : value.Inhabits start.shape slot.type) :
    (store ref slot value).Meets start task floor fun now _ => now.shape.ready ref slot :=
  .calm (start.store found shared.1 inhabits) rfl (Config.calm_store shared) quiet
    (Or.inl ⟨rfl, rfl⟩)

end Run

namespace Location

open Run

theorem item_spec {base index : Value} {elem : Ty}
    (baseFits : base.Inhabits start.shape (.slice elem)) (isInt : strict → index.Is .int) :
    (∀ location, element (.slice elem) base index = .ok location →
      location.Sound start.shape (some elem) ∧ ∀ ref slot, location ≠ .slot ref slot) ∧
      ∀ error, element (.slice elem) base index = .error error → error.Allowed strict := by
  have integer : ∀ error, index.asInt = .error error → error.Allowed strict := by
    intro error failed isStrict
    obtain ⟨number, rfl⟩ := (isInt isStrict).eq_int
    cases failed
  cases base with
  | slice found ref =>
    constructor
    · intro location ok
      obtain ⟨number, _, same⟩ := Except.bind_eq_ok.mp ok
      obtain rfl := Except.ok.inj same
      refine ⟨⟨found, baseFits.1, fun isStrict => ?_⟩, by simp⟩
      rcases (baseFits.2 isStrict).eq_slice with isNil | ⟨_, same⟩
      · cases isNil
      · cases same
        rfl
    · intro error failed
      rcases Except.bind_eq_error.mp failed with noInt | ⟨_, _, impossible⟩
      · exact integer error noInt
      · cases impossible
  | map key found ref =>
    refine ⟨fun location ok => ?_, fun error failed => by cases failed⟩
    obtain rfl := Except.ok.inj ok
    refine ⟨⟨key, baseFits.1, fun isStrict => ?_⟩, by simp⟩
    rcases (baseFits.2 isStrict).eq_slice with isNil | ⟨_, same⟩
    · cases isNil
    · cases same
  | const constant =>
    cases constant with
    | nil =>
      constructor
      · intro location ok
        obtain ⟨number, _, same⟩ := Except.bind_eq_ok.mp ok
        obtain rfl := Except.ok.inj same
        exact ⟨trivial, by simp⟩
      · intro error failed
        rcases Except.bind_eq_error.mp failed with noInt | ⟨_, _, impossible⟩
        · exact integer error noInt
        · cases impossible
    | _ =>
      refine ⟨fun location ok => (by cases ok), fun error _ isStrict => ?_⟩
      rcases (baseFits.2 isStrict).eq_slice with isNil | ⟨_, same⟩
      · cases isNil
      · cases same
  | chan found ref =>
    refine ⟨fun location ok => (by cases ok), fun error _ isStrict => ?_⟩
    rcases (baseFits.2 isStrict).eq_slice with isNil | ⟨_, same⟩
    · cases isNil
    · cases same
  | func function =>
    refine ⟨fun location ok => (by cases ok), fun error _ isStrict => ?_⟩
    rcases (baseFits.2 isStrict).eq_slice with isNil | ⟨_, same⟩
    · cases isNil
    · cases same

theorem entry_spec {base index : Value} {key elem : Ty}
    (baseFits : base.Inhabits start.shape (.map key elem)) (isKey : strict → index.Is key) :
    (∀ location, element (.map key elem) base index = .ok location →
      location.Sound start.shape (some elem) ∧ ∀ ref slot, location ≠ .slot ref slot) ∧
      ∀ error, element (.map key elem) base index = .error error → error.Allowed strict := by
  cases base with
  | map foundKey found ref =>
    refine ⟨fun location ok => ?_, fun error failed => by cases failed⟩
    obtain rfl := Except.ok.inj ok
    refine ⟨⟨foundKey, baseFits.1, fun isStrict => ?_⟩, by simp⟩
    rcases (baseFits.2 isStrict).eq_map with isNil | ⟨_, same⟩
    · cases isNil
    · cases same
      exact ⟨isKey isStrict, rfl⟩
  | slice found ref =>
    have impossible : ¬strict := by
      intro isStrict
      rcases (baseFits.2 isStrict).eq_map with isNil | ⟨_, same⟩
      · cases isNil
      · cases same
    refine ⟨fun location ok => ?_, fun error _ isStrict => absurd isStrict impossible⟩
    obtain ⟨number, _, same⟩ := Except.bind_eq_ok.mp ok
    obtain rfl := Except.ok.inj same
    exact ⟨⟨found, baseFits.1, fun isStrict => absurd isStrict impossible⟩, by simp⟩
  | const constant =>
    cases constant with
    | nil =>
      refine ⟨fun location ok => ?_, fun error failed => by cases failed⟩
      obtain rfl := Except.ok.inj ok
      exact ⟨fun _ => rfl, by simp⟩
    | _ =>
      refine ⟨fun location ok => (by cases ok), fun error _ isStrict => ?_⟩
      rcases (baseFits.2 isStrict).eq_map with isNil | ⟨_, same⟩
      · cases isNil
      · cases same
  | chan found ref =>
    refine ⟨fun location ok => (by cases ok), fun error _ isStrict => ?_⟩
    rcases (baseFits.2 isStrict).eq_map with isNil | ⟨_, same⟩
    · cases isNil
    · cases same
  | func function =>
    refine ⟨fun location ok => (by cases ok), fun error _ isStrict => ?_⟩
    rcases (baseFits.2 isStrict).eq_map with isNil | ⟨_, same⟩
    · cases isNil
    · cases same

theorem slot_sound (hosts : start.Hosts task floor env ctx.layers) {hops : Nat} {named : Slot}
    {name : String} (found : ctx.scope.lookup name = some (hops, .var named)) :
    (slot (start.world.up env hops) named).Sound start.shape (some named.type) ∧
      (slot (start.world.up env hops) named).Readable start.shape := by
  obtain ⟨layer, isLayer, shared, ready⟩ := ctx.fits.lookup_var found
  obtain ⟨known, isKnown, level, isReady, _⟩ := start.up_spec hosts.spans isLayer
  exact ⟨⟨rfl, known, isKnown, level ▸ shared⟩,
    fun isStrict string => isReady isStrict named (ready isStrict string)⟩

omit [Natives] in
theorem readable_of_ne {shape : Shape strict} {location : Location}
    (noSlot : ∀ ref slot, location ≠ .slot ref slot) : location.Readable shape := by
  cases location with
  | slot ref named => exact absurd rfl (noSlot ref named)
  | _ => trivial

theorem ofPlace_meets (safe : call.Safe strict) {place : Place} {target : Option Ty}
    (typed : PlaceTyped strict ctx place target) (hosts : start.Hosts task floor env ctx.layers) :
    (ofPlace call env place).Meets start task floor fun now location =>
      location.Sound now.shape target ∧ location.Readable now.shape ∧
        ∀ named, place.inner? = some named → location = .slot env named := by
  cases typed with
  | @known _ hops named name found =>
    refine read_meets _ hosts.quiet ⟨(slot_sound hosts found).1, (slot_sound hosts found).2, ?_⟩
    intro inner same
    cases hops with
    | zero =>
      obtain rfl : named = inner := by simpa [PlaceOf.inner?] using same
      rfl
    | succ hops => simp [PlaceOf.inner?] at same
  | item baseFits indexFits =>
    refine (eval_meets safe _ baseFits hosts).bind fun first base since quiet fits => ?_
    refine (eval_meets safe _ indexFits (hosts.since since quiet)).bind
      fun now index later quiet is => ?_
    have spec := item_spec (fits.grows later.grows) is.2
    refine ofExcept_meets quiet (fun location ok => ?_) spec.2
    exact ⟨(spec.1 location ok).1, readable_of_ne (spec.1 location ok).2, by simp [PlaceOf.inner?]⟩
  | entry baseFits indexFits =>
    refine (eval_meets safe _ baseFits hosts).bind fun first base since quiet fits => ?_
    refine (eval_meets safe _ indexFits (hosts.since since quiet)).bind
      fun now index later quiet is => ?_
    have spec := entry_spec (fits.grows later.grows) is.2
    refine ofExcept_meets quiet (fun location ok => ?_) spec.2
    exact ⟨(spec.1 location ok).1, readable_of_ne (spec.1 location ok).2, by simp [PlaceOf.inner?]⟩
  | blank => exact pure_meets hosts.quiet ⟨rfl, trivial, by simp [PlaceOf.inner?]⟩

/-- Locations of some places: those of variables of the innermost environment are where they are
expected. -/
def AllSound (shape : Shape strict) (env : EnvRef) (places : List Place) (targets : List (Option Ty))
    (locations : List Location) : Prop :=
  List.Forall₂ (fun target location => location.Sound shape target) targets locations ∧
    List.Forall₂ (fun (place : Place) location =>
      ∀ named, place.inner? = some named → location = .slot env named) places locations

omit [Natives] in
theorem AllSound.grows {before after : Shape strict} {places : List Place}
    {targets : List (Option Ty)} {locations : List Location}
    (sound : AllSound before env places targets locations) (grown : before.Grows after) :
    AllSound after env places targets locations :=
  ⟨sound.1.imp fun _ _ location => location.grows grown, sound.2⟩

omit [Natives] in
theorem AllSound.slot_mem {shape : Shape strict} {places : List Place} {targets : List (Option Ty)}
    {locations : List Location} (sound : AllSound shape env places targets locations) {named : Slot}
    (member : named ∈ places.filterMap PlaceOf.inner?) : .slot env named ∈ locations := by
  obtain ⟨place, isPlace, inner⟩ := List.mem_filterMap.mp member
  obtain ⟨location, isLocation, same⟩ := exists_of_forall₂ sound.2 isPlace
  exact same named inner ▸ isLocation

theorem ofFirst_meets (safe : call.Safe strict) {place : Place} {places : List Place}
    {targets : List (Option Ty)} (typed : PlacesTyped strict ctx (place :: places) targets)
    (hosts : start.Hosts task floor env ctx.layers) :
    ∃ target rest, targets = target :: rest ∧ PlacesTyped strict ctx places rest ∧
      (ofPlace call env place).Meets start task floor fun now location =>
        location.Sound now.shape target ∧
          ∀ named, place.inner? = some named → location = .slot env named := by
  cases typed with
  | cons head tail =>
    refine ⟨_, _, rfl, tail, ?_⟩
    exact (ofPlace_meets safe head hosts).mono fun _ _ _ _ holds => ⟨holds.1, holds.2.2⟩
  | @fresh _ named layer name _ _ found member tail =>
    refine ⟨_, _, rfl, tail, ?_⟩
    obtain ⟨known, isKnown, level, _, _⟩ := start.up_spec hosts.spans found
    refine read_meets _ hosts.quiet ⟨⟨rfl, known, isKnown, ?_⟩, ?_⟩
    · exact level ▸ layer.level.named name named member
    · intro inner same
      obtain rfl : named = inner := by simpa [PlaceOf.inner?] using same
      rfl

theorem ofPlaces_meets (safe : call.Safe strict) {places : List Place} {targets : List (Option Ty)}
    (typed : PlacesTyped strict ctx places targets) {start : Config strict}
    (hosts : start.Hosts task floor env ctx.layers) :
    (ofPlaces call env places).Meets start task floor fun now locations =>
      AllSound now.shape env places targets locations := by
  induction places generalizing targets start with
  | nil =>
    cases typed
    exact pure_meets hosts.quiet ⟨.nil, .nil⟩
  | cons place places ih =>
    obtain ⟨target, rest, rfl, tail, located⟩ := ofFirst_meets safe typed hosts
    refine located.bind fun first location since quiet holds => ?_
    refine (ih tail (hosts.since since quiet)).bind fun now locations later quiet rest => ?_
    exact pure_meets quiet ⟨.cons (holds.1.grows later.grows) rest.1, .cons holds.2 rest.2⟩

theorem load_meets {location : Location} {type : Ty} (quiet : start.Quiet task)
    (sound : location.Sound start.shape (some type)) (readable : location.Readable start.shape) :
    location.load.Meets start task floor fun now value => value.Inhabits now.shape type := by
  cases location with
  | slot ref named =>
    obtain ⟨same, known, found, shared⟩ := sound
    obtain rfl := Option.some.inj same
    obtain ⟨_, here, isHere, holds⟩ := start.sound.envs ref known found
    refine read_meets _ quiet ?_
    have loaded : start.world.load (start.world.up ref 0) named = here.slots.load named := by
      simp [World.up, World.load, isHere]
    rw [loaded]
    have rests := holds.load_rests shared.1
    refine ⟨rests.1, fun isStrict => ?_⟩
    rcases rests.2 isStrict with is | ⟨string, _⟩
    · exact is
    · exact (holds.ready named (readable isStrict string)).2 isStrict
  | item ref index =>
    obtain ⟨elem, known, same⟩ := sound
    refine (item_meets quiet known).mono fun now value _ _ inhabits => ⟨inhabits.1, fun isStrict => ?_⟩
    obtain rfl := Option.some.inj (same isStrict)
    exact inhabits.2 isStrict
  | entry elem ref key =>
    obtain ⟨keyType, known, same⟩ := sound
    refine (entry_meets quiet known fun isStrict => (same isStrict).1).bind
      fun now found _ quiet holds => pure_meets quiet ?_
    have inhabits : (found.getD (.zero elem)).Inhabits now.shape elem := by
      cases found with
      | some value => exact holds value rfl
      | none => exact Value.inhabits_const (Value.zero_is elem)
    refine ⟨inhabits.1, fun isStrict => ?_⟩
    obtain rfl := Option.some.inj (same isStrict).2
    exact inhabits.2 isStrict
  | nilMap elem =>
    refine pure_meets quiet ⟨trivial, fun isStrict => ?_⟩
    obtain rfl := Option.some.inj (sound isStrict)
    exact Value.zero_is _
  | nilSlice index => exact fail_meets quiet (RuntimeError.allowed_indexOutOfRange _ _)
  | blank => cases sound

theorem store_meets {location : Location} {target : Option Ty} {value : Value}
    (quiet : start.Quiet task) (sound : location.Sound start.shape target)
    (stores : value.Stores start.shape target) :
    (location.store value).Meets start task floor fun now _ =>
      ∀ ref named, location = .slot ref named → now.shape.ready ref named := by
  cases location with
  | slot ref named =>
    obtain ⟨same, known, found, shared⟩ := sound
    refine (Run.store_meets quiet found shared
      ⟨stores.1, fun isStrict => stores.2 isStrict _ same⟩).mono fun now _ _ _ ready => ?_
    rintro _ _ ⟨⟩
    exact ready
  | item ref index =>
    obtain ⟨elem, known, same⟩ := sound
    exact (setItem_meets quiet known
      ⟨stores.1, fun isStrict => stores.2 isStrict _ (same isStrict)⟩).mono (by simp)
  | entry elem ref key =>
    obtain ⟨keyType, known, same⟩ := sound
    exact (insertEntry_meets quiet known (fun isStrict => (same isStrict).1)
      ⟨stores.1, fun isStrict => stores.2 isStrict _ (same isStrict).2⟩).mono (by simp)
  | nilMap elem => exact fail_meets quiet RuntimeError.allowed_nilMap
  | nilSlice index => exact fail_meets quiet (RuntimeError.allowed_indexOutOfRange _ _)
  | blank => exact pure_meets quiet (by simp)

theorem storeAll_meets {locations : List Location} {targets : List (Option Ty)} {values : List Value}
    {start : Config strict} (quiet : start.Quiet task)
    (sound : List.Forall₂ (fun target location => Location.Sound start.shape target location) targets
      locations)
    (known : ∀ value ∈ values, value.Known start.shape)
    (stores : strict → List.Forall₂ (fun (value : Value) target =>
      ∀ wanted, target = some wanted → value.Is wanted) values targets) :
    (storeAll locations values).Meets start task floor fun now _ =>
      strict → ∀ ref named, .slot ref named ∈ locations → now.shape.ready ref named := by
  induction locations generalizing targets values start with
  | nil => exact pure_meets quiet (by simp)
  | cons location locations ih =>
    cases sound with
    | cons head tail =>
      cases values with
      | nil =>
        refine pure_meets quiet fun isStrict => ?_
        cases stores isStrict
      | cons value values =>
        have first : value.Stores start.shape _ := ⟨known value (by simp), fun isStrict => by
          cases stores isStrict with
          | cons is _ => exact is⟩
        refine (store_meets quiet head first).bind fun middle _ since quiet ready => ?_
        refine (ih quiet (tail.imp fun _ _ holds => holds.grows since.grows)
          (fun value member => (known value (by simp [member])).grows since.grows)
          fun isStrict => by
            cases stores isStrict with
            | cons _ rest => exact rest).mono ?_
        intro now _ later _ rest isStrict ref named member
        rcases List.mem_cons.mp member with same | inTail
        · exact later.grows.ready _ _ (ready ref named same.symm)
        · exact rest isStrict ref named inTail

end Location

end Locations

end MiniGo
