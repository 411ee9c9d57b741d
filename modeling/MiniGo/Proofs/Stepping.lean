import MiniGo.Proofs.Ranging
import MiniGo.Proofs.Spawning
/-!
Typed instructions. At the position it was compiled for, an instruction keeps the state sound; it
leads to a position that takes the environments found there, ends the body, or fails in a way that
its types allow.
-/

namespace MiniGo

variable [Natives] {strict : Prop}

section Operands

variable {start : Config strict} {task : ThreadRef} {floor : Nat} {env : EnvRef} {call : Caller}
  {ctx : Ctx strict}

open Run

def SelectCase.Receives (strict : Prop) (case : SelectCase) (elem : Option Ty) : Prop :=
  match case with
  | .send _ _ => elem = none
  | .recv found _ => ∃ type, elem = some type ∧ (strict → found = type)
  | .never => True

theorem SelectCase.sendTo_sound {shape : Shape strict} {channel value : Value}
    {direction : Direction} {elem : Ty} (inhabits : channel.Inhabits shape (.chan direction elem))
    (fits : value.Inhabits shape elem) :
    (SelectCase.sendTo channel value).Sound shape ∧
      (SelectCase.sendTo channel value).Receives strict none := by
  unfold SelectCase.sendTo
  split
  · next found ref =>
    refine ⟨⟨found, inhabits.1, fits.1, fun isStrict => ?_⟩, rfl⟩
    exact chan_elem (inhabits.2 isStrict) ▸ fits.2 isStrict
  · exact ⟨trivial, trivial⟩

theorem SelectCase.recvFrom_sound {shape : Shape strict} {channel : Value} {direction : Direction}
    {elem : Ty} (inhabits : channel.Inhabits shape (.chan direction elem)) :
    (SelectCase.recvFrom channel).Sound shape ∧
      (SelectCase.recvFrom channel).Receives strict (some elem) := by
  unfold SelectCase.recvFrom
  split
  · next found ref =>
    exact ⟨inhabits.1, elem, rfl, fun isStrict => chan_elem (inhabits.2 isStrict)⟩
  · exact ⟨trivial, trivial⟩

theorem Selected.Of.partner {shape : Shape strict} {cases : List SelectCase} {hasDefault : Bool}
    {received : List (Option Ty)} {index : Nat} {found : Option (Value × Bool)}
    (chosen : (Selected.case index found).Of shape cases hasDefault)
    (receives : List.Forall₂ (SelectCase.Receives strict) cases received) :
    ∃ elem, received[index]? = some elem ∧ ((elem = none ∧ found = none) ∨
      ∃ type value flag, elem = some type ∧ found = some (value, flag) ∧
        value.Inhabits shape type) := by
  have partner {case : SelectCase} (isCase : cases[index]? = some case) :
      ∃ elem, received[index]? = some elem ∧ case.Receives strict elem := by
    obtain ⟨inside, rfl⟩ := List.getElem?_eq_some_iff.mp isCase
    have inside' : index < received.length := receives.length_eq ▸ inside
    exact ⟨received[index], List.getElem?_eq_getElem inside', receives.get inside inside'⟩
  rcases chosen with ⟨case, isCase, isSend, rfl⟩ | ⟨type, ref, value, flag, isCase, rfl, fits⟩
  · obtain ⟨elem, isElem, receives⟩ := partner isCase
    cases case with
    | send => exact ⟨elem, isElem, .inl ⟨receives, rfl⟩⟩
    | recv => simp [SelectCase.isSend] at isSend
    | never => simp [SelectCase.isSend] at isSend
  · obtain ⟨elem, isElem, wanted, rfl, same⟩ := partner isCase
    exact ⟨_, isElem, .inr ⟨wanted, value, flag, rfl, rfl, fits.1,
      fun isStrict => same isStrict ▸ fits.2 isStrict⟩⟩

omit [Natives] in
theorem CommsTyped.length_eq {comms : List Comm} {received : List (Option Ty)}
    (typed : CommsTyped strict ctx comms received) : comms.length = received.length := by
  induction comms generalizing received with
  | nil =>
    cases typed
    rfl
  | cons comm comms ih =>
    cases typed with
    | send _ _ rest => simp [ih rest]
    | recv _ rest => simp [ih rest]

theorem evalComm_meets (safe : call.Safe strict) {comm : Comm} {comms : List Comm}
    {received : List (Option Ty)} (typed : CommsTyped strict ctx (comm :: comms) received)
    (hosts : start.Hosts task floor env ctx.layers) :
    ∃ elem rest, received = elem :: rest ∧ CommsTyped strict ctx comms rest ∧
      (evalComm call env comm).Meets start task floor fun now case =>
        case.Sound now.shape ∧ case.Receives strict elem := by
  cases typed with
  | send channelFits valueFits rest =>
    refine ⟨_, _, rfl, rest, ?_⟩
    refine (eval_meets safe _ channelFits hosts).bind fun middle channel since quiet inhabits => ?_
    refine (eval_meets safe _ valueFits (hosts.since since quiet)).bind
      fun now value later quiet fits => pure_meets quiet ?_
    exact SelectCase.sendTo_sound (inhabits.grows later.grows) fits
  | recv channelFits rest =>
    refine ⟨_, _, rfl, rest, ?_⟩
    exact (eval_meets safe _ channelFits hosts).bind fun middle channel since quiet inhabits =>
      pure_meets quiet (SelectCase.recvFrom_sound inhabits)

theorem evalComms_meets (safe : call.Safe strict) {comms : List Comm} {received : List (Option Ty)}
    (typed : CommsTyped strict ctx comms received) {start : Config strict}
    (hosts : start.Hosts task floor env ctx.layers) :
    (evalComms call env comms).Meets start task floor fun now cases =>
      (∀ case ∈ cases, case.Sound now.shape) ∧
        List.Forall₂ (SelectCase.Receives strict) cases received := by
  induction comms generalizing received start with
  | nil =>
    cases typed
    exact pure_meets hosts.quiet ⟨by simp, .nil⟩
  | cons comm comms ih =>
    obtain ⟨elem, others, rfl, rest, first⟩ := evalComm_meets safe typed hosts
    refine first.bind fun middle case since quiet sound => ?_
    refine (ih rest (hosts.since since quiet)).bind fun now cases later quiet sounds => ?_
    refine pure_meets quiet ⟨?_, .cons sound.2 sounds.2⟩
    exact List.forall_mem_cons.mpr ⟨sound.1.grows later.grows, sounds.1⟩

namespace Step

theorem findCase_meets (safe : call.Safe strict) {tag : Value} {fallback : Nat}
    {cases : List (Code × Nat)} {types : List Ty}
    (typed : CodesFit strict ctx (cases.map (·.1)) types) {start : Config strict}
    (hosts : start.Hosts task floor env ctx.layers) :
    (findCase call env tag fallback cases).Meets start task floor fun _ position =>
      position = fallback ∨ ∃ entry ∈ cases, position = entry.2 := by
  induction cases generalizing types start with
  | nil => exact pure_meets hosts.quiet (.inl rfl)
  | cons entry rest ih =>
    cases typed with
    | cons fits others =>
      refine (eval_meets safe _ fits hosts).bind fun middle value since quiet _ => ?_
      split
      · exact pure_meets quiet (.inr ⟨entry, .head _, rfl⟩)
      · refine (ih others (hosts.since since quiet)).mono fun _ position _ _ found => ?_
        exact found.imp_right fun ⟨entry, member, same⟩ => ⟨entry, .tail _ member, same⟩

theorem storeSlots_meets {ref : EnvRef} {known : EnvShape} {slots : List Slot} {values : List Value}
    {start : Config strict} (quiet : start.Quiet task) (found : start.shape.env ref = some known)
    (shared : ∀ slot ∈ slots, known.level.Shared slot)
    (isKnown : ∀ value ∈ values, value.Known start.shape)
    (are : strict → List.Forall₂ (fun (value : Value) (slot : Slot) => value.Is slot.type) values
      slots) :
    (storeSlots ref slots values).Meets start task floor fun _ _ => True := by
  induction slots generalizing values start with
  | nil =>
    cases values <;> exact pure_meets quiet trivial
  | cons slot slots ih =>
    cases values with
    | nil => exact pure_meets quiet trivial
    | cons value values =>
      have first : value.Inhabits start.shape slot.type := ⟨isKnown value (.head _), fun isStrict => by
        cases are isStrict with
        | cons is _ => exact is⟩
      refine (Run.store_meets quiet found (shared slot (.head _)) first).bind
        fun middle _ since quiet _ => ?_
      refine ih quiet (since.grows.env _ _ found) (fun slot member => shared slot (.tail _ member))
        (fun value member => (isKnown value (.tail _ member)).grows since.grows) fun isStrict => ?_
      cases are isStrict with
      | cons _ rest => exact rest

theorem storeInit_meets {ref : EnvRef} {known : EnvShape} {slots : List (Option Slot)}
    {values : List Value} {start : Config strict} (quiet : start.Quiet task)
    (found : start.shape.env ref = some known)
    (shared : ∀ slot, some slot ∈ slots → known.level.Shared slot)
    (isKnown : ∀ value ∈ values, value.Known start.shape)
    (are : strict → List.Forall₂ (fun (value : Value) (slot : Option Slot) =>
      ∀ wanted, slot.map (·.type) = some wanted → value.Is wanted) values slots) :
    (storeInit ref slots values).Meets start task floor fun now _ =>
      strict → ∀ slot, some slot ∈ slots → now.shape.ready ref slot := by
  induction slots generalizing values start with
  | nil =>
    cases values <;> exact pure_meets quiet (by simp)
  | cons slot slots ih =>
    cases values with
    | nil =>
      have impossible : ¬strict := fun isStrict => by cases are isStrict
      cases slot <;> exact pure_meets quiet fun isStrict => absurd isStrict impossible
    | cons value values =>
      have rest (isStrict : strict) := by
        cases are isStrict with
        | cons _ rest => exact rest
      have others {middle : Config strict} (since : start.Since task floor middle)
          (quiet : middle.Quiet task) :=
        ih quiet (since.grows.env _ _ found) (fun slot member => shared slot (.tail _ member))
          (fun value member => (isKnown value (.tail _ member)).grows since.grows) rest
      cases slot with
      | none =>
        refine (others (.refl _ _ _) quiet).mono fun now _ _ _ ready isStrict slot member => ?_
        rcases List.mem_cons.mp member with same | member
        · cases same
        · exact ready isStrict slot member
      | some slot =>
        have first : value.Inhabits start.shape slot.type :=
          ⟨isKnown value (.head _), fun isStrict => by
            cases are isStrict with
            | cons is _ => exact is _ rfl⟩
        refine (Run.store_meets quiet found (shared slot (.head _)) first).bind
          fun middle _ since quiet isReady => ?_
        refine (others since quiet).mono fun now _ later _ ready isStrict other member => ?_
        rcases List.mem_cons.mp member with same | member
        · obtain rfl := Option.some.inj same
          exact later.grows.ready _ _ isReady
        · exact ready isStrict other member

end Step

end Operands

section Instructions

variable {spot : Spot strict} {now : Config strict} {call : Caller}

theorem Spot.Poised.hops_le (poised : spot.Poised now) {hops : Nat}
    (inside : spot.course.base < (spot.ctx.layers.drop hops).length) : hops ≤ spot.blocks.length := by
  have length := poised.busy.within.length_eq
  rw [List.length_drop] at inside
  omega

theorem eval_acts (safe : call.Safe strict) (poised : spot.Poised now) {code : Code} {type : Ty}
    (fits : CodeFits strict spot.ctx code type) :
    spot.Acts (eval call spot.env code) now fun later value => value.Inhabits later.shape type :=
  .of_meets poised (eval_meets safe code fits poised.hosts)

theorem evalValues_acts (safe : call.Safe strict) (poised : spot.Poised now) {values : Values}
    {types : List Ty} (typed : ValuesTyped strict spot.ctx values types) :
    spot.Acts (evalValues call spot.env values) now fun later found =>
      Inhabit later.shape found types :=
  .of_meets poised (evalValues_meets safe values typed poised.hosts)

namespace Step

open Spot

theorem stored_steps (poised : spot.Poised now) {slots : List Slot}
    (ready : strict → ∀ slot ∈ slots, now.shape.ready spot.env slot)
    (lands : spot.course.Lands (spot.here + 1) (stored slots spot.ctx.layers)) :
    spot.Steps (advance spot.env) now :=
  next_steps poised (Course.Busy.stored poised.busy ready) lands

theorem push_steps (poised : spot.Poised now) {level : Level}
    (lands : spot.course.Lands (spot.here + 1) ({ level } :: spot.ctx.layers)) :
    spot.Steps (do
      let inner ← Run.update (·.push spot.env level.frame.objects level.frame.words)
      Run.modify (·.drop spot.env)
      advance inner) now := by
  obtain ⟨inner, middle, pushed, advances, quiet, busy, ip⟩ :=
    Course.Busy.push poised.busy poised.quiet level
  have calm := middle.calm_alike (middle.world.alike_drop spot.env)
  refine .after (Run.update_done pushed) advances ?_
  refine @Spot.Steps.after _ _ _ _ (middle.alike (middle.world.alike_drop spot.env)) _ _ _ () rfl
    calm.advances (advance_steps (busy.calm calm) (calm.quiet quiet) ?_)
  obtain ⟨known, found, -, -⟩ := busy.within.known
  rw [(calm.kept inner known found).1, ip, poised.ip]
  exact lands

theorem pop_steps (poised : spot.Poised now) {layer : Layer} {layers : List Layer}
    (same : spot.ctx.layers = layer :: layers) (inside : spot.course.base < layers.length)
    (lands : spot.course.Lands (spot.here + 1) layers) :
    spot.Steps (do
      let outer ← Run.update (·.pop spot.env)
      advance outer) now := by
  have some := poised.hops_le (show spot.course.base < (spot.ctx.layers.drop 1).length by rwa [same])
  obtain ⟨outer, later, popped, advances, quiet, busy, ip⟩ :=
    Course.Busy.pop poised.busy poised.quiet (List.ne_nil_of_length_pos some)
  refine .after (Run.update_done popped) advances (advance_steps busy quiet ?_)
  rw [ip, poised.ip, same]
  exact lands

theorem leave_steps (poised : spot.Poised now) {hops position : Nat}
    (inside : spot.course.base < (spot.ctx.layers.drop hops).length)
    (lands : spot.course.Lands position (spot.ctx.layers.drop hops)) :
    spot.Steps (do
      let outer ← Run.update (·.leave spot.env hops)
      goto outer position) now := by
  obtain ⟨outer, later, left, advances, quiet, busy⟩ :=
    Course.Busy.leave poised.busy poised.quiet hops (poised.hops_le inside)
  exact .after (Run.update_done left) advances (goto_steps busy quiet lands)

theorem test_acts (safe : call.Safe strict) (poised : spot.Poised now) {cond : Code}
    (fits : CodeFits strict spot.ctx cond .bool) :
    spot.Acts (do
      let value ← eval call spot.env cond
      Run.asBool value) now fun _ _ => True :=
  (eval_acts safe poised fits).bind fun _ _ poised _ fits =>
    .of_meets poised (Run.asBool_meets (fun _ _ => True) poised.quiet fits.2 fun _ _ => trivial)

theorem jumpUnless_steps (safe : call.Safe strict) (poised : spot.Poised now) {cond : Code}
    {position : Nat} (fits : CodeFits strict spot.ctx cond .bool)
    (next : spot.course.Lands (spot.here + 1) spot.ctx.layers)
    (lands : spot.course.Lands position spot.ctx.layers) :
    spot.Steps (do
      let value ← eval call spot.env cond
      let holds ← Run.asBool value
      if holds then advance spot.env else goto spot.env position) now := by
  rw [← Run.bind_assoc]
  refine (test_acts safe poised fits).andThen fun _ holds poised _ _ => ?_
  split
  · exact next_steps poised poised.busy next
  · exact goto_steps poised.busy poised.quiet lands

theorem deliver_acts (safe : call.Safe strict) (poised : spot.Poised now) {hops : Nat} {layer : Layer}
    {results : List Slot} {values : Values} {types : List Ty}
    (isLayer : spot.ctx.layers[hops]? = some layer)
    (shared : ∀ slot ∈ results, layer.level.Shared slot)
    (typed : ValuesTyped strict spot.ctx values types)
    (assignable : List.Forall₂ (fun type (slot : Slot) => type.assignableTo slot.type = true) types
      results) :
    spot.Acts (do
      let values ← evalValues call spot.env values
      let target ← Run.read (·.up spot.env hops)
      storeSlots target results values) now fun _ _ => True := by
  refine (evalValues_acts safe poised typed).bind fun middle values poised _ inhabit => ?_
  refine (Acts.of_meets poised (Run.read_meets (fun later target => later.shape = middle.shape ∧
    ∃ known, middle.shape.env target = some known ∧ known.level = layer.level) poised.quiet
      ⟨rfl, ?_⟩)).bind fun later target poised _ found => ?_
  · obtain ⟨known, found, level, -, -⟩ := middle.up_spec poised.busy.within.spans isLayer
    exact ⟨known, found, level⟩
  · obtain ⟨same, known, found, level⟩ := found
    refine Acts.of_meets poised (storeSlots_meets poised.quiet (same ▸ found)
      (fun slot member => level ▸ shared slot member) (same ▸ inhabit.1) fun isStrict => ?_)
    exact forall₂_chain (inhabit.2 isStrict) assignable fun _ _ _ is assignable => is.assign assignable

theorem return_steps (safe : call.Safe strict) (poised : spot.Poised now) {hops : Nat} {layer : Layer}
    {results : List Slot} {values : Values} {types : List Ty}
    (isLayer : spot.ctx.layers[hops]? = some layer)
    (shared : ∀ slot ∈ results, layer.level.Shared slot)
    (typed : ValuesTyped strict spot.ctx values types)
    (assignable : List.Forall₂ (fun type (slot : Slot) => type.assignableTo slot.type = true) types
      results) :
    spot.Steps (do
      let values ← evalValues call spot.env values
      let target ← Run.read (·.up spot.env hops)
      storeSlots target results values
      interrupt spot.env .ret) now := by
  have ends := (deliver_acts safe poised isLayer shared typed assignable).andThen
    fun _ _ poised _ _ => ret_steps poised.busy poised.quiet
  simpa only [Run.bind_assoc] using ends

theorem assign_acts (safe : call.Safe strict) (poised : spot.Poised now) {places : List Place}
    {targets : List (Option Ty)} {values : Values} {types : List Ty}
    (places_typed : PlacesTyped strict spot.ctx places targets)
    (typed : ValuesTyped strict spot.ctx values types)
    (stores : List.Forall₂ Ty.StoresTo types targets) :
    spot.Acts (do
      let locations ← Location.ofPlaces call spot.env places
      let values ← evalValues call spot.env values
      Location.storeAll locations values) now fun later _ =>
        strict → ∀ slot ∈ places.filterMap PlaceOf.inner?, later.shape.ready spot.env slot := by
  refine (Acts.of_meets poised (Location.ofPlaces_meets safe places_typed poised.hosts)).bind
    fun _ locations poised _ sound => ?_
  refine (evalValues_acts safe poised typed).bind fun _ values poised grows inhabit => ?_
  refine (Acts.of_meets poised (Location.storeAll_meets poised.quiet (sound.grows grows).1 inhabit.1
    fun isStrict => ?_)).mono fun _ _ _ ready isStrict slot member => ?_
  · exact forall₂_chain (inhabit.2 isStrict) stores fun _ _ _ is storesTo wanted same =>
      is.assign (storesTo wanted same)
  · exact ready isStrict spot.env slot (sound.slot_mem member)

theorem assign_steps (safe : call.Safe strict) (poised : spot.Poised now) {places : List Place}
    {targets : List (Option Ty)} {values : Values} {types : List Ty}
    (places_typed : PlacesTyped strict spot.ctx places targets)
    (typed : ValuesTyped strict spot.ctx values types)
    (stores : List.Forall₂ Ty.StoresTo types targets)
    (lands : spot.course.Lands (spot.here + 1)
      (stored (places.filterMap PlaceOf.inner?) spot.ctx.layers)) :
    spot.Steps (do
      let locations ← Location.ofPlaces call spot.env places
      let values ← evalValues call spot.env values
      Location.storeAll locations values
      advance spot.env) now := by
  have ends := (assign_acts safe poised places_typed typed stores).andThen
    fun _ _ poised _ ready => stored_steps poised ready lands
  simpa only [Run.bind_assoc] using ends

theorem update_acts (safe : call.Safe strict) (poised : spot.Poised now) {op : BinaryOp}
    {place : Place} {operand : Code} {type : Ty}
    (typed : PlaceTyped strict spot.ctx place (some type))
    (fits : CodeFits strict spot.ctx operand type) (takes : op.Takes type type type) :
    spot.Acts (do
      let location ← Location.ofPlace call spot.env place
      let current ← location.load
      let operand ← eval call spot.env operand
      let value ← Run.ofExcept (Value.binary op current operand)
      location.store value) now fun _ _ => True := by
  refine (Acts.of_meets poised (Location.ofPlace_meets safe typed poised.hosts)).bind
    fun _ location poised _ sound => ?_
  refine (Acts.of_meets poised (Location.load_meets poised.quiet sound.1 sound.2.1)).bind
    fun _ current poised first isCurrent => ?_
  refine (eval_acts safe poised fits).bind fun _ operand poised second isOperand => ?_
  refine (Acts.of_meets poised (Run.binary_meets poised.quiet takes isCurrent.2 isOperand.2)).bind
    fun _ value poised third isValue => ?_
  have stores : value.Stores _ (some type) :=
    isValue.stores (by rintro _ ⟨⟩; exact Ty.assignableTo_refl _)
  exact (Acts.of_meets poised (Location.store_meets poised.quiet
    (sound.1.grows (first.trans (second.trans third))) stores)).mono fun _ _ _ _ => trivial

theorem update_steps (safe : call.Safe strict) (poised : spot.Poised now) {op : BinaryOp}
    {place : Place} {operand : Code} {type : Ty}
    (typed : PlaceTyped strict spot.ctx place (some type))
    (fits : CodeFits strict spot.ctx operand type) (takes : op.Takes type type type)
    (lands : spot.course.Lands (spot.here + 1) spot.ctx.layers) :
    spot.Steps (do
      let location ← Location.ofPlace call spot.env place
      let current ← location.load
      let operand ← eval call spot.env operand
      let value ← Run.ofExcept (Value.binary op current operand)
      location.store value
      advance spot.env) now := by
  have ends := (update_acts safe poised typed fits takes).andThen
    fun _ _ poised _ _ => next_steps poised poised.busy lands
  simpa only [Run.bind_assoc] using ends

theorem init_acts (safe : call.Safe strict) (poised : spot.Poised now) {layer : Layer}
    {slots : List (Option Slot)} {values : Values} {types : List Ty}
    (isLayer : spot.ctx.layers[0]? = some layer)
    (shared : ∀ slot, some slot ∈ slots → layer.level.Shared slot)
    (typed : ValuesTyped strict spot.ctx values types)
    (stores : List.Forall₂ (fun type (slot : Option Slot) => type.StoresTo (slot.map (·.type))) types
      slots) :
    spot.Acts (do
      let values ← evalValues call spot.env values
      storeInit spot.env slots values) now fun later _ =>
        strict → ∀ slot ∈ slots.filterMap id, later.shape.ready spot.env slot := by
  refine (evalValues_acts safe poised typed).bind fun _ values poised _ inhabit => ?_
  obtain ⟨known, found, level, -, -⟩ := poised.layer isLayer
  refine (Acts.of_meets poised (storeInit_meets poised.quiet found
    (fun slot member => level ▸ shared slot member) inhabit.1 fun isStrict => ?_)).mono
      fun _ _ _ ready isStrict slot member => ?_
  · exact forall₂_chain (inhabit.2 isStrict) stores fun _ _ _ is storesTo wanted same =>
      is.assign (storesTo wanted same)
  · exact ready isStrict slot (by simpa using member)

section Storing

variable {last : Config strict → Except RuntimeError Next → Prop}
  (fails : ∀ later error, spot.Poised later → error.Allowed strict → last later (.error error))

include fails

theorem init_leads (safe : call.Safe strict) (poised : spot.Poised now) {layer : Layer}
    {slots : List (Option Slot)} {values : Values} {types : List Ty}
    (isLayer : spot.ctx.layers[0]? = some layer)
    (shared : ∀ slot, some slot ∈ slots → layer.level.Shared slot)
    (typed : ValuesTyped strict spot.ctx values types)
    (stores : List.Forall₂ (fun type (slot : Option Slot) => type.StoresTo (slot.map (·.type))) types
      slots)
    (goes : ∀ later, spot.Poised later →
      (strict → ∀ slot ∈ slots.filterMap id, later.shape.ready spot.env slot) →
      (advance spot.env later.world).Safe spot.task last later) :
    ((do
      let values ← evalValues call spot.env values
      storeInit spot.env slots values
      advance spot.env : Run Next) now.world).Safe spot.task last now := by
  rw [← Run.bind_assoc]
  exact (init_acts safe poised isLayer shared typed stores).leads fails
    fun later _ poised _ ready => goes later poised ready

theorem bind_leads (poised : spot.Poised now) {layer : Layer} {slot : Slot} {template : Template}
    (isLayer : spot.ctx.layers[0]? = some layer) (shared : layer.level.Shared slot)
    (typed : TemplateTyped strict spot.ctx.lasting template)
    (same : strict → template.signature.toTy = slot.type)
    (goes : ∀ later, spot.Poised later → later.shape.ready spot.env slot →
      (advance spot.env later.world).Safe spot.task last later) :
    ((do
      let function ← Run.closure template spot.env
      Run.store spot.env slot function
      advance spot.env : Run Next) now.world).Safe spot.task last now := by
  refine (Acts.of_meets poised (Run.closure_meets poised.hosts typed)).leads fails
    fun _ function poised _ fits => ?_
  obtain ⟨known, found, level, -, -⟩ := poised.layer isLayer
  exact (Acts.of_meets poised (Run.store_meets poised.quiet found (level ▸ shared)
    ⟨fits.1, fun isStrict => same isStrict ▸ fits.2 isStrict⟩)).leads fails
      fun later _ poised _ ready => goes later poised ready

theorem callInit_leads (safe : call.Safe strict) (poised : spot.Poised now) {template : Template}
    (typed : TemplateTyped strict spot.ctx.lasting template)
    (none : template.signature.params = [])
    (goes : ∀ later, spot.Poised later → (advance spot.env later.world).Safe spot.task last later) :
    ((do
      let function ← Run.closure template spot.env
      let thread ← Run.read (·.threadOf spot.env)
      let _ ← call thread ⟨function, [], false⟩
      advance spot.env : Run Next) now.world).Safe spot.task last now := by
  refine (Acts.of_meets poised (Run.closure_meets poised.hosts typed)).leads fails
    fun _ function poised _ fits => ?_
  have accepts : template.signature.Accepts false [] := by
    simp [Signature.Accepts, Invoke.argumentTypes, Signature.fixed, none]
  exact (Acts.of_meets poised (invoked_meets safe poised.hosts fits Inhabit.nil .nil accepts)).leads
    fails fun later _ poised _ _ => goes later poised

end Storing

theorem ended_error (later : Config strict) (error : RuntimeError) (poised : spot.Poised later)
    (allowed : error.Allowed strict) : spot.Ended later (.error error) :=
  ⟨allowed, poised.quiet, _, poised.busy⟩

theorem init_steps (safe : call.Safe strict) (poised : spot.Poised now) {layer : Layer}
    {slots : List (Option Slot)} {values : Values} {types : List Ty}
    (isLayer : spot.ctx.layers[0]? = some layer)
    (shared : ∀ slot, some slot ∈ slots → layer.level.Shared slot)
    (typed : ValuesTyped strict spot.ctx values types)
    (stores : List.Forall₂ (fun type (slot : Option Slot) => type.StoresTo (slot.map (·.type))) types
      slots)
    (lands : spot.course.Lands (spot.here + 1) (stored (slots.filterMap id) spot.ctx.layers)) :
    spot.Steps (do
      let values ← evalValues call spot.env values
      storeInit spot.env slots values
      advance spot.env) now :=
  init_leads ended_error safe poised isLayer shared typed stores fun _ poised ready =>
    stored_steps poised ready lands

theorem bind_steps (poised : spot.Poised now) {layer : Layer} {slot : Slot} {template : Template}
    (isLayer : spot.ctx.layers[0]? = some layer) (shared : layer.level.Shared slot)
    (typed : TemplateTyped strict spot.ctx.lasting template)
    (same : strict → template.signature.toTy = slot.type)
    (lands : spot.course.Lands (spot.here + 1) (stored [slot] spot.ctx.layers)) :
    spot.Steps (do
      let function ← Run.closure template spot.env
      Run.store spot.env slot function
      advance spot.env) now :=
  bind_leads ended_error poised isLayer shared typed same fun _ poised ready =>
    stored_steps poised (fun _ _ member => List.mem_singleton.mp member ▸ ready) lands

theorem callInit_steps (safe : call.Safe strict) (poised : spot.Poised now) {template : Template}
    (typed : TemplateTyped strict spot.ctx.lasting template)
    (none : template.signature.params = [])
    (lands : spot.course.Lands (spot.here + 1) spot.ctx.layers) :
    spot.Steps (do
      let function ← Run.closure template spot.env
      let thread ← Run.read (·.threadOf spot.env)
      let _ ← call thread ⟨function, [], false⟩
      advance spot.env) now :=
  callInit_leads ended_error safe poised typed none fun _ poised =>
    next_steps poised poised.busy lands

theorem dispatch_acts (safe : call.Safe strict) (poised : spot.Poised now) {tag : Code}
    {cases : List (Code × Nat)} {fallback : Nat} {tagType : Ty} {types : List Ty}
    (fits : CodeFits strict spot.ctx tag tagType)
    (typed : CodesFit strict spot.ctx (cases.map (·.1)) types)
    (lands : ∀ entry ∈ cases, spot.course.Lands entry.2 spot.ctx.layers)
    (otherwise : spot.course.Lands fallback spot.ctx.layers) :
    spot.Acts (do
      let tag ← eval call spot.env tag
      findCase call spot.env tag fallback cases) now fun _ position =>
        spot.course.Lands position spot.ctx.layers := by
  refine (eval_acts safe poised fits).bind fun _ tag poised _ _ => ?_
  refine (Acts.of_meets poised (findCase_meets safe typed poised.hosts)).mono
    fun _ position _ found => ?_
  rcases found with rfl | ⟨entry, member, rfl⟩
  · exact otherwise
  · exact lands entry member

theorem switch_steps (safe : call.Safe strict) (poised : spot.Poised now) {tag : Code}
    {cases : List (Code × Nat)} {fallback : Nat} {tagType : Ty} {types : List Ty}
    (fits : CodeFits strict spot.ctx tag tagType)
    (typed : CodesFit strict spot.ctx (cases.map (·.1)) types)
    (lands : ∀ entry ∈ cases, spot.course.Lands entry.2 spot.ctx.layers)
    (otherwise : spot.course.Lands fallback spot.ctx.layers) :
    spot.Steps (do
      let tag ← eval call spot.env tag
      let position ← findCase call spot.env tag fallback cases
      goto spot.env position) now := by
  have ends := (dispatch_acts safe poised fits typed lands otherwise).andThen
    fun _ _ poised _ lands => goto_steps poised.busy poised.quiet lands
  simpa only [Run.bind_assoc] using ends

omit [Natives] in
theorem findType_spec (value : Value) (fallback : Nat) (cases : List (Option Ty × Nat)) :
    findType value fallback cases = fallback ∨ ∃ entry ∈ cases,
      findType value fallback cases = entry.2 ∧ ∀ type, entry.1 = some type → value.Is type := by
  induction cases with
  | nil => exact .inl rfl
  | cons entry rest ih =>
    have later : findType value fallback rest = fallback ∨ ∃ other ∈ entry :: rest,
        findType value fallback rest = other.2 ∧ ∀ type, other.1 = some type → value.Is type :=
      ih.imp_right fun ⟨other, member, found⟩ => ⟨other, .tail _ member, found⟩
    obtain ⟨_ | type, start⟩ := entry
    · rw [findType]
      split
      · exact .inr ⟨_, .head _, rfl, by simp⟩
      · exact later
    · rw [findType]
      split
      · next passes =>
        refine .inr ⟨_, .head _, rfl, ?_⟩
        rintro _ ⟨⟩
        exact Value.is_of_hasType passes
      · exact later

theorem park_done (poised : spot.Poised now) {layer : Layer} {slot : Slot} {value : Value} {type : Ty}
    (isLayer : spot.ctx.layers[0]? = some layer) (parks : layer.level.Parks slot)
    (known : value.Known now.shape) (is : strict → value.Is type) :
    ∃ later : Config strict, Run.store spot.env slot value now.world = .done () later.world ∧
      now.Advances spot.task later ∧ later.Quiet spot.task ∧
      spot.Busy (parking slot type spot.ctx.layers) later := by
  obtain ⟨env, found, level, -, own⟩ := poised.layer isLayer
  obtain ⟨rest, same⟩ : ∃ rest, spot.ctx.layers = layer :: rest := by
    cases layers : spot.ctx.layers with
    | nil => simp [layers] at isLayer
    | cons first rest =>
      obtain rfl : first = layer := by simpa [layers] using isLayer
      exact ⟨rest, rfl⟩
  have has : env.level.Has slot := level ▸ parks.1
  have inhabits : value.Inhabits now.shape slot.type := by
    rw [parks.2.2.1]
    exact ⟨known, fun _ => value.is_any⟩
  have moves : now.Moves spot.env (now.store found has inhabits) := Config.moves_store
  have busy := poised.busy
  rw [same] at busy ⊢
  exact ⟨now.store found has inhabits, rfl, moves.advances found own, moves.quiet poised.quiet,
    Course.Busy.park busy found parks has inhabits is⟩

theorem typeSwitch_steps (safe : call.Safe strict) (poised : spot.Poised now) {subject : Code}
    {cases : List (Option Ty × Nat)} {fallback : Nat} {type : Ty}
    (fits : CodeFits strict spot.ctx subject type)
    (lands : ∀ entry ∈ cases, spot.course.Lands entry.2 spot.ctx.layers)
    (otherwise : spot.course.Lands fallback spot.ctx.layers) :
    spot.Steps (run call 0 spot.env (.typeSwitch subject cases fallback none)) now := by
  refine (eval_acts safe poised fits).andThen fun _ value poised _ _ => ?_
  refine goto_steps poised.busy poised.quiet ?_
  rcases findType_spec value fallback cases with same | ⟨entry, member, same, -⟩
  · rw [same]
    exact otherwise
  · rw [same]
    exact lands entry member

theorem typeSwitchParked_steps (safe : call.Safe strict) (poised : spot.Poised now) {layer : Layer}
    {subject : Code} {cases : List (Option Ty × Nat)} {fallback : Nat} {type : Ty} {slot : Slot}
    (fits : CodeFits strict spot.ctx subject type) (isLayer : spot.ctx.layers[0]? = some layer)
    (parks : layer.level.Parks slot)
    (lands : ∀ entry ∈ cases, ∃ known, (known = .any ∨ entry.1 = some known) ∧
      spot.course.Lands entry.2 (parking slot known spot.ctx.layers))
    (otherwise : spot.course.Lands fallback (parking slot .any spot.ctx.layers)) :
    spot.Steps (run call 0 spot.env (.typeSwitch subject cases fallback (some slot))) now := by
  refine (eval_acts safe poised fits).andThen fun later value poised _ inhabits => ?_
  obtain ⟨type, is, target⟩ : ∃ type, value.Is type ∧
      spot.course.Lands (findType value fallback cases) (parking slot type spot.ctx.layers) := by
    rcases findType_spec value fallback cases with same | ⟨entry, member, same, is⟩
    · exact ⟨.any, value.is_any, by rw [same]; exact otherwise⟩
    · obtain ⟨type, known, target⟩ := lands entry member
      refine ⟨type, ?_, by rw [same]; exact target⟩
      rcases known with rfl | listed
      · exact value.is_any
      · exact is type listed
  obtain ⟨middle, ran, advances, quiet, busy⟩ :=
    park_done poised isLayer parks inhabits.1 fun _ => is
  exact .after ran advances (goto_steps busy quiet target)

theorem park_steps (poised : spot.Poised now) {layer : Layer} {value flag : Slot} {found : Value}
    {truth : Bool} {type : Ty} {position : Nat} (isLayer : spot.ctx.layers[0]? = some layer)
    (parks : layer.level.Parks value) (has : layer.level.Has flag) (isFlag : flag.type = .bool)
    (inhabits : found.Inhabits now.shape type)
    (lands : spot.course.Lands position (parking value type spot.ctx.layers)) :
    spot.Steps (do
      park spot.env (some (value, flag)) (some (found, truth))
      goto spot.env position) now := by
  obtain ⟨env, isNow, level, -, -⟩ := poised.layer isLayer
  obtain ⟨middle, ran, advances, quiet, busy⟩ :=
    park_done poised isLayer parks inhabits.1 inhabits.2
  have isEnv := advances.grows.env _ _ isNow
  have own : middle.shape.Owns spot.task env.thread := by
    obtain ⟨known, isKnown, -, thread⟩ := busy.within.known
    obtain rfl : known = env := Option.some.inj (isKnown.symm.trans isEnv)
    exact thread ▸ busy.own
  have fits : (Value.bool truth).Inhabits middle.shape flag.type := by
    rw [isFlag]
    exact Value.inhabits_const (Value.is_self _)
  have has' : env.level.Has flag := level ▸ has
  have moves : middle.Moves spot.env (middle.store isEnv has' fits) := Config.moves_store
  have stored := Course.Busy.store busy isEnv has' (by simp [isFlag]) fits
  have parked : park spot.env (some (value, flag)) (some (found, truth)) now.world =
      .done () (middle.store isEnv has' fits).world := Run.bind_done ran _
  exact .after parked (advances.trans (moves.advances isEnv own))
    (goto_steps stored (moves.quiet quiet) lands)

theorem select_steps (safe : call.Safe strict) (poised : spot.Poised now) {fuel : Nat}
    {comms : List (Comm × Nat)} {received : List (Option Ty)} {fallback : Option Nat}
    (typed : CommsTyped strict spot.ctx (comms.map (·.1)) received)
    (lands : ∀ entry ∈ comms, spot.course.Lands entry.2 spot.ctx.layers)
    (otherwise : ∀ position, fallback = some position →
      spot.course.Lands position spot.ctx.layers) :
    spot.Steps (run call fuel spot.env (.select comms fallback none)) now := by
  refine (Acts.of_meets poised (evalComms_meets safe typed poised.hosts)).andThen
    fun _ cases poised _ sound => ?_
  refine (Acts.of_meets poised (Run.select_meets poised.quiet sound.1)).andThen
    fun _ selected poised _ chosen => ?_
  cases selected with
  | default =>
    obtain ⟨position, rfl⟩ := Option.isSome_iff_exists.mp chosen
    exact goto_steps poised.busy poised.quiet (otherwise position rfl)
  | case index found =>
    obtain ⟨elem, isElem, -⟩ := chosen.partner sound.2
    obtain ⟨entry, isEntry⟩ : ∃ entry, comms[index]? = some entry := by
      have inside := (List.getElem?_eq_some_iff.mp isElem).1
      rw [← typed.length_eq, List.length_map] at inside
      exact ⟨_, List.getElem?_eq_getElem inside⟩
    refine goto_steps poised.busy poised.quiet ?_
    rw [isEntry]
    exact lands entry (List.mem_of_getElem? isEntry)

theorem selectParked_steps (safe : call.Safe strict) (poised : spot.Poised now) {fuel : Nat}
    {layer : Layer} {comms : List (Comm × Nat)} {received : List (Option Ty)}
    {fallback : Option Nat} {value flag : Slot}
    (typed : CommsTyped strict spot.ctx (comms.map (·.1)) received)
    (isLayer : spot.ctx.layers[0]? = some layer) (parks : layer.level.Parks value)
    (has : layer.level.Has flag) (isFlag : flag.type = .bool)
    (lands : List.Forall₂ (fun (entry : Comm × Nat) elem =>
      spot.course.Lands entry.2 (receiving value elem spot.ctx.layers)) comms received)
    (otherwise : ∀ position, fallback = some position →
      spot.course.Lands position spot.ctx.layers) :
    spot.Steps (run call fuel spot.env (.select comms fallback (some (value, flag)))) now := by
  refine (Acts.of_meets poised (evalComms_meets safe typed poised.hosts)).andThen
    fun _ cases poised _ sound => ?_
  refine (Acts.of_meets poised (Run.select_meets poised.quiet sound.1)).andThen
    fun _ selected poised _ chosen => ?_
  cases selected with
  | default =>
    obtain ⟨position, rfl⟩ := Option.isSome_iff_exists.mp chosen
    exact goto_steps poised.busy poised.quiet (otherwise position rfl)
  | case index found =>
    obtain ⟨elem, isElem, taken⟩ := chosen.partner sound.2
    obtain ⟨inside, rfl⟩ := List.getElem?_eq_some_iff.mp isElem
    have target : spot.course.Lands ((comms[index]?.map (·.2)).getD 0)
        (receiving value received[index] spot.ctx.layers) := by
      rw [List.getElem?_eq_getElem (lands.length_eq ▸ inside)]
      exact lands.get (lands.length_eq ▸ inside) inside
    rcases taken with ⟨isNone, rfl⟩ | ⟨type, found, truth, isSome, rfl, fits⟩
    · rw [isNone] at target
      exact goto_steps poised.busy poised.quiet target
    · rw [isSome] at target
      exact park_steps poised isLayer parks has isFlag fits target

theorem adopt_acts (poised : spot.Poised now) {inner outer : Layer} {layers : List Layer}
    {pairs : List (Slot × Slot)} (same : spot.ctx.layers = inner :: outer :: layers)
    (fits : ∀ pair ∈ pairs, inner.level.Shared pair.2 ∧
      ((outer.level.Has pair.1 ∧ pair.1.slotClass = .word ∧
          pair.1.type.assignableTo pair.2.type = true) ∨
        (outer.level.Parks pair.1 ∧
          ∃ known, (pair.1, known) ∈ outer.parked ∧ known.assignableTo pair.2.type = true))) :
    spot.Acts (adopt spot.env pairs) now fun later _ =>
      ∀ pair ∈ pairs, later.shape.ready spot.env pair.2 := by
  induction pairs generalizing now with
  | nil => exact .pure poised (by simp)
  | cons pair pairs ih =>
    obtain ⟨⟨shared, first⟩, rest⟩ := List.forall_mem_cons.mp fits
    have within := poised.busy.within
    rw [same] at within
    obtain ⟨around, isAround, described⟩ := within.second
    obtain ⟨-, there, present, sound⟩ := now.sound.envs _ around isAround
    have has : around.level.Has pair.1 := by
      rw [described.level]
      exact first.elim (·.1) (·.1.1)
    have inhabits : (now.world.load (now.world.up spot.env 1) pair.1).Inhabits now.shape
        pair.2.type := by
      have loaded : now.world.load (now.world.up spot.env 1) pair.1 = there.slots.load pair.1 := by
        simp [World.load, present]
      have rests := loaded.symm ▸ sound.load_rests has
      refine ⟨rests.1, fun isStrict => ?_⟩
      rcases first with ⟨-, word, assignable⟩ | ⟨-, known, parked, assignable⟩
      · rcases rests.2 isStrict with is | ⟨string, -⟩
        · exact is.assign assignable
        · have scalar := has.scalar word
          simp [string, Ty.isScalar] at scalar
      · exact ((described.parked _ parked).2 isStrict).assign assignable
    refine (Acts.of_meets poised (Run.read_meets
      (fun later value => value.Inhabits later.shape pair.2.type) poised.quiet inhabits)).bind
        fun _ value poised _ inhabits => ?_
    obtain ⟨env, found, level, -, -⟩ := @Spot.Poised.layer _ _ spot _ poised inner (by simp [same])
    refine (Acts.of_meets poised (Run.store_meets poised.quiet found (level ▸ shared) inhabits)).bind
      fun _ _ poised _ ready => ?_
    refine (ih poised rest).mono fun last _ grows others => ?_
    exact List.forall_mem_cons.mpr ⟨grows.ready _ _ ready, others⟩

theorem storeFlag_meets {start : Config strict} {task : ThreadRef} {floor : Nat}
    {locations : List Location} {targets : List (Option Ty)} {truth : Value}
    (quiet : start.Quiet task)
    (sound : List.Forall₂ (fun target location => Location.Sound start.shape target location) targets
      locations)
    (isTruth : truth.Inhabits start.shape .bool)
    (stores : ∀ wanted ∈ targets, Ty.StoresTo .bool wanted) :
    (Location.storeAll locations [truth]).Meets start task floor fun _ _ => True := by
  cases sound with
  | nil => exact Run.pure_meets quiet trivial
  | cons first rest =>
    refine (Location.store_meets quiet first (isTruth.stores (stores _ (.head _)))).bind
      fun _ _ _ quiet _ => ?_
    cases rest <;> exact Run.pure_meets quiet trivial

theorem unpark_steps (safe : call.Safe strict) (poised : spot.Poised now) {layer : Layer}
    {value flag : Slot} {known : Ty} {place : Place} {target : Option Ty}
    {flagPlace : Option Place} {flagTargets : List (Option Ty)}
    (isLayer : spot.ctx.layers[0]? = some layer) (parked : (value, known) ∈ layer.parked)
    (hasValue : layer.level.Has value) (hasFlag : layer.level.Has flag)
    (isFlag : flag.type = .bool) (typed : PlaceTyped strict spot.ctx place target)
    (storesTo : known.StoresTo target)
    (flagTyped : PlacesTyped strict spot.ctx flagPlace.toList flagTargets)
    (flagStores : ∀ wanted ∈ flagTargets, Ty.StoresTo .bool wanted)
    (lands : spot.course.Lands (spot.here + 1) spot.ctx.layers) :
    spot.Steps (run call 0 spot.env (.unpark (value, flag) place flagPlace)) now := by
  refine (Acts.of_meets poised (Location.ofPlace_meets safe typed poised.hosts)).andThen
    fun _ location poised _ sound => ?_
  refine (Acts.of_meets poised (Location.ofPlaces_meets safe flagTyped poised.hosts)).andThen
    fun middle locations poised first flagSound => ?_
  have found : (middle.world.load spot.env value).Inhabits middle.shape known := by
    obtain ⟨env, isEnv, level, described, -⟩ := poised.layer isLayer
    obtain ⟨-, there, present, holds⟩ := middle.sound.envs _ env isEnv
    have rests := holds.load_rests (level ▸ hasValue)
    refine ⟨?_, (described.parked _ parked).2⟩
    simpa [World.load, present] using rests.1
  refine (Acts.of_meets poised (Run.read_meets
    (fun later value => value.Inhabits later.shape known ∧ later = middle) poised.quiet
      ⟨found, rfl⟩)).andThen ?_
  rintro middle found poised - ⟨inhabits, rfl⟩
  refine (Acts.of_meets poised (Location.store_meets poised.quiet (sound.1.grows first)
    (inhabits.stores storesTo))).andThen fun _ _ poised second _ => ?_
  refine (RangeSlots.load_acts poised isLayer hasFlag (by simp [isFlag])).andThen
    fun _ truth poised third isTruth => ?_
  refine (Acts.of_meets poised (storeFlag_meets poised.quiet (flagSound.grows (second.trans third)).1
    (isFlag ▸ isTruth) flagStores)).andThen fun _ _ poised _ _ => next_steps poised poised.busy lands

theorem rangeNext_steps (safe : call.Safe strict) (poised : spot.Poised now) {fuel : Nat}
    {layer : Layer} {kind : RangeKind} {state : RangeSlots} {key : Ty} {value : Option Ty}
    {keyPlace valuePlace : Option Place} {keyTargets valueTargets : List (Option Ty)} {exit : Nat}
    (isLayer : spot.ctx.layers[0]? = some layer)
    (ranged : kind.Over state.subject.type key value)
    (inside : state.In layer.level state.subject.type key)
    (ready : strict → state.subject.type = .string → state.subject ∈ layer.ready)
    (keyTyped : PlacesTyped strict spot.ctx keyPlace.toList keyTargets)
    (keyStores : ∀ target ∈ keyTargets, key.StoresTo target)
    (valueTyped : PlacesTyped strict spot.ctx valuePlace.toList valueTargets)
    (valueStores : ∀ target ∈ valueTargets, ∃ type, value = some type ∧ type.StoresTo target)
    (next : spot.course.Lands (spot.here + 1)
      (stored ((keyPlace.toList ++ valuePlace.toList).filterMap PlaceOf.inner?) spot.ctx.layers))
    (lands : spot.course.Lands exit spot.ctx.layers) :
    spot.Steps (run call fuel spot.env (.rangeNext kind state keyPlace valuePlace exit)) now := by
  refine (RangeSlots.next_acts poised isLayer ranged inside ready).andThen
    fun _ found poised _ hands => ?_
  cases found with
  | none => exact goto_steps poised.busy poised.quiet lands
  | some entry =>
    obtain ⟨isKey, known, isValue⟩ := hands entry rfl
    refine (storeTarget_acts safe poised keyTyped fun wanted member =>
      isKey.stores (keyStores wanted member)).andThen fun _ _ poised first keyReady => ?_
    refine (storeTarget_acts safe poised valueTyped fun wanted member => ?_).andThen
      fun _ _ poised second valueReady => ?_
    · obtain ⟨type, isType, storesTo⟩ := valueStores wanted member
      exact ((isValue type isType).grows first).stores storesTo
    · refine stored_steps poised (fun _ slot member => ?_) next
      rw [List.filterMap_append] at member
      rcases List.mem_append.mp member with isKey | isValue
      · exact second.ready _ _ (keyReady slot isKey)
      · exact valueReady slot isValue

theorem run_steps (safe : call.Safe strict) (poised : spot.Poised now) (fuel : Nat) {instr : Instr}
    (typed : InstrTyped strict spot.course.base spot.course.Lands (fun _ _ _ => False)
      spot.here spot.ctx instr) : spot.Steps (run call fuel spot.env instr) now := by
  cases typed with
  | skip lands => exact next_steps poised poised.busy lands
  | interrupt => exact ret_steps poised.busy poised.quiet
  | eval typed lands =>
    exact (evalValues_acts safe poised typed).andThen fun _ _ poised _ _ =>
      next_steps poised poised.busy lands
  | goto lands => exact goto_steps poised.busy poised.quiet lands
  | jumpUnless fits next lands => exact jumpUnless_steps safe poised fits next lands
  | push lands => exact push_steps poised lands
  | pop same inside lands => exact pop_steps poised same inside lands
  | leave inside lands => exact leave_steps poised inside lands
  | exit impossible => exact impossible.elim
  | ret isLayer shared typed assignable =>
    exact return_steps safe poised isLayer shared typed assignable
  | defer typed lands =>
    refine (Acts.of_meets poised (evalCall_meets safe typed poised.hosts)).andThen
      fun _ _ poised _ sound => defer_steps poised.busy poised.quiet sound ?_
    rw [poised.ip]
    exact lands
  | go typed lands =>
    exact (Acts.of_meets poised (spawn_meets safe typed poised.hosts)).andThen fun _ _ poised _ _ =>
      next_steps poised poised.busy lands
  | send channelFits valueFits lands =>
    refine (eval_acts safe poised channelFits).andThen fun _ _ poised _ isChannel => ?_
    refine (eval_acts safe poised valueFits).andThen fun _ _ poised grows isValue => ?_
    exact (Acts.of_meets poised (Run.sendTo_meets poised.quiet (isChannel.grows grows) isValue)).andThen
      fun _ _ poised _ _ => next_steps poised poised.busy lands
  | assign places typed stores lands => exact assign_steps safe poised places typed stores lands
  | update typed fits takes lands => exact update_steps safe poised typed fits takes lands
  | init isLayer shared typed stores lands =>
    exact init_steps safe poised isLayer shared typed stores lands
  | bind isLayer shared typed same lands => exact bind_steps poised isLayer shared typed same lands
  | callInit typed none lands => exact callInit_steps safe poised typed none lands
  | switch fits typed lands otherwise =>
    exact switch_steps safe poised fits typed lands otherwise
  | typeSwitch fits lands otherwise => exact typeSwitch_steps safe poised fits lands otherwise
  | typeSwitchParked fits isLayer parks lands otherwise =>
    exact typeSwitchParked_steps safe poised fits isLayer parks lands otherwise
  | select typed lands otherwise => exact select_steps safe poised typed lands otherwise
  | selectParked typed isLayer parks flag lands otherwise =>
    exact selectParked_steps safe poised typed isLayer parks flag.1 flag.2.2 lands otherwise
  | adopt same fits lands =>
    refine (adopt_acts poised same fits).andThen fun _ _ poised _ ready =>
      stored_steps poised (fun _ slot member => ?_) lands
    obtain ⟨pair, isPair, rfl⟩ := List.mem_map.mp member
    exact ready pair isPair
  | unpark isLayer parks parked flag typed storesTo flagTyped flagStores lands =>
    exact unpark_steps safe poised isLayer parked parks.1 flag.1 flag.2.2 typed storesTo flagTyped
      flagStores lands
  | rangeStart isLayer ranged inside fits lands =>
    refine (eval_acts safe poised fits).andThen fun _ _ poised _ isSubject => ?_
    exact (RangeSlots.start_acts poised isLayer ranged inside isSubject).andThen
      fun _ _ poised _ ready => stored_steps poised
        (fun _ _ member => List.mem_singleton.mp member ▸ ready) lands
  | rangeNext isLayer ranged inside ready keyTyped keyStores valueTyped valueStores next lands =>
    exact rangeNext_steps safe poised isLayer ranged inside ready keyTyped keyStores valueTyped
      valueStores next lands
  | rangeStep isLayer inside lands =>
    exact (RangeSlots.advance_acts poised isLayer inside).andThen fun _ _ poised _ _ =>
      next_steps poised poised.busy lands

end Step

end Instructions

end MiniGo
