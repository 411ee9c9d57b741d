import MiniGo.Proofs.Operations
/-!
Evaluation of typed code. In an environment that is as the code expects, an expression gives a value
of its type, and a list of expressions as many values as it has types; whatever is called meanwhile,
the environments of the task that were there before have not moved.
-/

namespace MiniGo

variable [Natives] {strict : Prop}

/-- Code of a context can be run in an environment. -/
structure Config.Hosts (start : Config strict) (task : ThreadRef) (floor : Nat) (env : EnvRef)
    (layers : List Layer) : Prop where
  quiet : start.Quiet task
  spans : Spans start.shape (some env) layers
  acts : ∃ known, start.shape.env env = some known ∧ start.shape.Owns task known.thread
  floor : floor ≤ start.world.envs.size

def Caller.Safe (strict : Prop) (call : Caller) : Prop :=
  ∀ (start : Config strict) (task thread : ThreadRef) (invocation : Invocation) (floor : Nat),
    start.Quiet task → start.shape.Owns task thread → invocation.Sound start.shape →
    floor ≤ start.world.envs.size →
    (call thread invocation).Meets start task floor fun now results =>
      (∀ value ∈ results, value.Known now.shape) ∧
        (strict → ∀ signature : Signature, invocation.callee.Is signature.toTy →
          List.Forall₂ Value.Is results signature.results)

namespace Config.Hosts

variable {start now : Config strict} {task : ThreadRef} {floor : Nat} {env : EnvRef}
  {layers : List Layer}

theorem since (hosts : start.Hosts task floor env layers) {upper : Nat}
    (since : start.Since task upper now) (quiet : now.Quiet task) :
    now.Hosts task floor env layers := by
  obtain ⟨known, found, own⟩ := hosts.acts
  exact ⟨quiet, hosts.spans.grows since.grows, ⟨known, since.grows.env _ _ found, since.owns _ own⟩,
    Nat.le_trans hosts.floor since.envs⟩

theorem serves (hosts : start.Hosts task floor env layers) {target : List Layer}
    (serves : Serves layers target) : start.Hosts task floor env target :=
  { hosts with spans := hosts.spans.serves serves }

end Config.Hosts

theorem Config.up_spec (config : Config strict) {env : EnvRef} {layers : List Layer}
    (spans : Spans config.shape (some env) layers) {hops : Nat} {layer : Layer}
    (found : layers[hops]? = some layer) :
    ∃ known, config.shape.env (config.world.up env hops) = some known ∧ known.level = layer.level ∧
      (strict → ∀ slot ∈ layer.ready, config.shape.ready (config.world.up env hops) slot) ∧
      Spans config.shape known.outer (layers.drop (hops + 1)) := by
  induction hops generalizing env layers with
  | zero =>
    cases spans with
    | cons known level ready rest =>
      simp only [List.getElem?_cons_zero, Option.some.injEq] at found
      subst found
      exact ⟨_, known, level, ready, rest⟩
  | succ hops ih =>
    cases spans with
    | @cons _ known _ layers present level ready rest =>
      obtain ⟨_, here, isHere, sound⟩ := config.sound.envs env known present
      cases outer : known.outer with
      | none =>
        rw [outer] at rest
        cases rest
        simp at found
      | some outer' =>
        rw [outer] at rest
        have steps : config.world.up env (hops + 1) = config.world.up outer' hops := by
          simp [World.up, World.outer?, isHere, sound.outer, outer]
        rw [steps]
        exact ih rest (by simpa using found)

section Evaluation

variable {start : Config strict} {task : ThreadRef} {floor : Nat} {env : EnvRef} {call : Caller}

theorem Run.load_meets {ctx : Ctx strict} (hosts : start.Hosts task floor env ctx.layers)
    {hops : Nat} {slot : Slot} {name : String}
    (found : ctx.scope.lookup name = some (hops, .var slot)) :
    (Run.load env hops slot).Meets start task floor
      fun now value => value.Inhabits now.shape slot.type := by
  obtain ⟨layer, isLayer, shared, ready⟩ := ctx.fits.lookup_var found
  obtain ⟨known, isKnown, level, isReady, _⟩ := start.up_spec hosts.spans isLayer
  refine read_meets _ hosts.quiet ?_
  obtain ⟨_, here, isHere, sound⟩ := start.sound.envs _ known isKnown
  have loaded : start.world.load (start.world.up env hops) slot = here.slots.load slot := by
    simp [World.load, isHere]
  rw [loaded]
  have rests := @Env.Sound.load_rests _ _ _ _ _ _ sound slot (level ▸ shared.1)
  refine ⟨rests.1, fun isStrict => ?_⟩
  rcases rests.2 isStrict with is | ⟨string, _⟩
  · exact is
  · exact (sound.ready slot (isReady isStrict slot (ready isStrict string))).2 isStrict

namespace Run

theorem sliceItem_meets {base : Value} {elem : Ty} {index : Int64} (quiet : start.Quiet task)
    (inhabits : base.Inhabits start.shape (.slice elem)) :
    (sliceItem base index).Meets start task floor
      fun now value => value.Inhabits now.shape elem := by
  cases base with
  | slice found ref =>
    refine (item_meets quiet inhabits.1).mono fun now value _ _ holds => ⟨holds.1, fun isStrict => ?_⟩
    rcases (inhabits.2 isStrict).eq_slice with isNil | ⟨_, same⟩
    · cases isNil
    · cases same
      exact holds.2 isStrict
  | _ => exact fail_meets quiet (RuntimeError.allowed_indexOutOfRange _ _)

theorem stringByte_meets {text : String} {index : Int64} (quiet : start.Quiet task) :
    (stringByte text index).Meets start task floor
      fun now value => value.Inhabits now.shape .int := by
  refine ofExcept_meets quiet (fun value ok => ?_) fun error failed => ?_
  · obtain ⟨position, _, same⟩ := Except.bind_eq_ok.mp ok
    obtain rfl := Except.ok.inj same
    exact Value.inhabits_const (Value.is_self _)
  · rcases Except.bind_eq_error.mp failed with outside | ⟨_, _, impossible⟩
    · exact checkedIndex_allowed outside
    · cases impossible

theorem mapEntry_meets {base key : Value} {keyType elem : Ty} (quiet : start.Quiet task)
    (inhabits : base.Inhabits start.shape (.map keyType elem)) (is : strict → key.Is keyType) :
    (mapEntry base key).Meets start task floor
      fun now found => ∀ value ∈ found, value.Inhabits now.shape elem := by
  cases base with
  | map foundKey found ref =>
    have types : strict → foundKey = keyType ∧ found = elem := by
      intro isStrict
      rcases (inhabits.2 isStrict).eq_map with isNil | ⟨_, same⟩
      · cases isNil
      · cases same
        exact ⟨rfl, rfl⟩
    refine (entry_meets quiet inhabits.1 fun isStrict => (types isStrict).1 ▸ is isStrict).mono ?_
    intro now result _ _ holds value isValue
    refine ⟨(holds value isValue).1, fun isStrict => ?_⟩
    rw [← (types isStrict).2]
    exact (holds value isValue).2 isStrict
  | _ => exact pure_meets quiet (by simp)

omit [Natives] in
theorem chan_elem {ref : ChanRef} {found elem : Ty} {direction : Direction}
    (is : (Value.chan found ref).Is (.chan direction elem)) : found = elem := by
  rcases is.eq_chan with isNil | ⟨_, same⟩
  · cases isNil
  · cases same
    rfl

theorem recvFrom_meets {channel : Value} {direction : Direction} {elem : Ty}
    (quiet : start.Quiet task) (inhabits : channel.Inhabits start.shape (.chan direction elem)) :
    (recvFrom channel).Meets start task floor
      fun now received => received.1.Inhabits now.shape elem := by
  cases channel with
  | chan found ref =>
    refine (recv_meets quiet inhabits.1).mono fun now received _ _ holds =>
      ⟨holds.1, fun isStrict => ?_⟩
    rw [← chan_elem (inhabits.2 isStrict)]
    exact holds.2 isStrict
  | _ => exact fail_meets quiet (RuntimeError.allowed_unsupported (by decide))

theorem sendTo_meets {channel value : Value} {direction : Direction} {elem : Ty}
    (quiet : start.Quiet task) (inhabits : channel.Inhabits start.shape (.chan direction elem))
    (fits : value.Inhabits start.shape elem) :
    (sendTo channel value).Meets start task floor fun _ _ => True := by
  cases channel with
  | chan found ref =>
    refine send_meets quiet inhabits.1 ⟨fits.1, fun isStrict => ?_⟩
    rw [chan_elem (inhabits.2 isStrict)]
    exact fits.2 isStrict
  | _ => exact fail_meets quiet (RuntimeError.allowed_unsupported (by decide))

theorem elements_meets {slice : Value} {elem : Ty} (quiet : start.Quiet task)
    (inhabits : slice.Inhabits start.shape (.slice elem)) :
    (elements slice).Meets start task floor
      fun now values => ∀ value ∈ values, value.Inhabits now.shape elem := by
  cases slice with
  | slice found ref =>
    refine read_meets _ quiet fun value member => ?_
    have holds := start.sound.heap.items inhabits.1 value (by simpa using member)
    refine ⟨holds.1, fun isStrict => ?_⟩
    rcases (inhabits.2 isStrict).eq_slice with isNil | ⟨_, same⟩
    · cases isNil
    · cases same
      exact holds.2 isStrict
  | _ => exact pure_meets quiet (by simp)

theorem appended_meets {base : Value} {elem : Ty} {extra : List Value} (quiet : start.Quiet task)
    (inhabits : base.Inhabits start.shape (.slice elem))
    (fits : ∀ value ∈ extra, value.Inhabits start.shape elem) :
    (appended elem base extra).Meets start task floor
      fun now value => value.Inhabits now.shape (.slice elem) := by
  cases base with
  | slice found ref =>
    have same : strict → found = elem := by
      intro isStrict
      rcases (inhabits.2 isStrict).eq_slice with isNil | ⟨_, same⟩
      · cases isNil
      · cases same
        rfl
    have all : ∀ value ∈ start.world.heap.items ref ++ extra.toArray,
        value.Inhabits start.shape found := by
      intro value member
      rcases Array.mem_append.mp member with old | new
      · exact start.sound.heap.items inhabits.1 value old
      · have holds := fits value (by simpa using new)
        exact ⟨holds.1, fun isStrict => same isStrict ▸ holds.2 isStrict⟩
    refine (@Run.newSliceRef_meets _ _ _ _ _ _ (fun heap => heap.items ref ++ extra.toArray) quiet
      all).bind ?_
    intro now ref _ quiet known
    refine pure_meets quiet ⟨known, fun isStrict => ?_⟩
    rw [same isStrict]
    exact Value.is_self _
  | _ => exact newSlice_meets quiet fits

theorem length_allowed {value : Value} {type : Ty} (measured : type.isMeasured = true)
    (is : strict → value.Is type) {error : RuntimeError}
    (failed : start.world.length value = .error error) : error.Allowed strict := by
  intro isStrict
  exfalso
  cases type <;> simp [Ty.isMeasured] at measured
  · obtain ⟨text, rfl⟩ := (is isStrict).eq_str
    cases failed
  · rcases (is isStrict).eq_slice with rfl | ⟨ref, rfl⟩ <;> cases failed
  · rcases (is isStrict).eq_map with rfl | ⟨ref, rfl⟩ <;> cases failed
  · rcases (is isStrict).eq_chan with rfl | ⟨ref, rfl⟩ <;> cases failed

theorem lengthOf_meets {value : Value} {type : Ty} (quiet : start.Quiet task)
    (measured : type.isMeasured = true) (is : strict → value.Is type) :
    (lengthOf value).Meets start task floor fun now length => length.Inhabits now.shape .int := by
  refine (@Run.tryRead_meets _ _ _ _ _ _ (fun _ _ => True) _ quiet (fun _ _ => trivial)
    fun error failed => length_allowed measured is failed).bind ?_
  intro now length _ quiet _
  exact pure_meets quiet (Value.inhabits_const (Value.is_self _))

theorem capacityOf_meets {value : Value} {type : Ty} (quiet : start.Quiet task)
    (measured : type.isMeasured = true) (is : strict → value.Is type) :
    (capacityOf value).Meets start task floor fun now capacity => capacity.Inhabits now.shape .int := by
  cases value with
  | chan elem ref => exact read_meets _ quiet (Value.inhabits_const (Value.is_self _))
  | _ => exact lengthOf_meets quiet measured is

theorem closure_meets {ctx : Ctx strict} {template : Template}
    (hosts : start.Hosts task floor env ctx.layers)
    (typed : TemplateTyped strict ctx.lasting template) :
    (closure template env).Meets start task floor fun now value =>
      value.Inhabits now.shape template.signature.toTy := by
  have retained : (modify (·.retain env)).Meets start task floor fun _ _ => True :=
    .calm (start.alike (start.world.alike_retain env)) rfl (start.calm_alike _) hosts.quiet
      trivial
  refine retained.bind ?_
  intro now _ since quiet _
  exact pure_meets quiet ⟨⟨rfl, ctx, typed, hosts.spans.grows since.grows⟩, fun _ => Value.is_self _⟩

end Run

theorem Inhabit.nil {shape : Shape strict} : Inhabit shape [] [] := ⟨by simp, fun _ => .nil⟩

theorem Inhabit.cons {shape : Shape strict} {value : Value} {type : Ty} {values : List Value}
    {types : List Ty} (head : value.Inhabits shape type) (tail : Inhabit shape values types) :
    Inhabit shape (value :: values) (type :: types) :=
  ⟨by simpa using ⟨head.1, tail.1⟩, fun isStrict => .cons (head.2 isStrict) (tail.2 isStrict)⟩

theorem Inhabit.head {shape : Shape strict} {values : List Value} {type : Ty} {types : List Ty}
    (inhabit : Inhabit shape values (type :: types)) : (values.headD .nil).Inhabits shape type := by
  cases values with
  | nil => exact ⟨trivial, fun isStrict => nomatch inhabit.2 isStrict⟩
  | cons value rest =>
    refine ⟨inhabit.1 value (by simp), fun isStrict => ?_⟩
    cases inhabit.2 isStrict with
    | cons head _ => exact head

theorem Inhabit.flagged {shape : Shape strict} {value : Value} {type : Ty}
    (inhabits : value.Inhabits shape type) (flag : Bool) :
    Inhabit shape [value, .bool flag] [type, .bool] :=
  .cons inhabits (.cons (Value.inhabits_const (Value.is_self _)) .nil)

omit [Natives] in
theorem Value.assertionFailure_allowed (value : Value) (target : Ty) :
    (value.assertionFailure target).Allowed strict := by
  unfold assertionFailure
  split <;> exact RuntimeError.allowed_panic _

omit [Natives] in
theorem exists_of_forall₂ {α β : Type} {related : α → β → Prop} {left : List α} {right : List β}
    (all : List.Forall₂ related left right) {item : α} (member : item ∈ left) :
    ∃ partner ∈ right, related item partner := by
  induction all with
  | nil => simp at member
  | cons first _ ih =>
    rcases List.mem_cons.mp member with rfl | member
    · exact ⟨_, .head _, first⟩
    · obtain ⟨partner, isPartner, holds⟩ := ih member
      exact ⟨partner, .tail _ isPartner, holds⟩

omit [Natives] in
theorem forall₂_chain {α β γ : Type} {first : α → β → Prop} {second : β → γ → Prop}
    {both : α → γ → Prop} {left : List α} {middle : List β} {right : List γ}
    (heads : List.Forall₂ first left middle) (tails : List.Forall₂ second middle right)
    (chain : ∀ a b c, first a b → second b c → both a c) : List.Forall₂ both left right := by
  induction heads generalizing right with
  | nil =>
    cases tails
    exact .nil
  | cons head _ ih =>
    cases tails with
    | cons tail tails => exact .cons (chain _ _ _ head tail) (ih tails)

omit [Natives] in
theorem forall₂_assign {values : List Value} {sources targets : List Ty}
    (are : List.Forall₂ Value.Is values sources)
    (assignable : List.Forall₂ (fun (source target : Ty) => source.assignableTo target = true)
      sources targets) : List.Forall₂ Value.Is values targets :=
  forall₂_chain are assignable fun _ _ _ is assignable => is.assign assignable

theorem Inhabit.each {shape : Shape strict} {values : List Value} {count : Nat} {elem : Ty}
    (inhabit : Inhabit shape values (List.replicate count elem)) :
    ∀ value ∈ values, value.Inhabits shape elem := by
  intro value member
  refine ⟨inhabit.1 value member, fun isStrict => ?_⟩
  have are := inhabit.2 isStrict
  clear inhabit
  induction values generalizing count with
  | nil => simp at member
  | cons head tail ih =>
    cases count with
    | zero => cases are
    | succ count =>
      cases are with
      | cons first rest =>
        rcases List.mem_cons.mp member with rfl | later
        · exact first
        · exact ih later rest

theorem Config.Hosts.thread {layers : List Layer} (hosts : start.Hosts task floor env layers) :
    start.shape.Owns task (start.world.threadOf env) := by
  obtain ⟨known, found, own⟩ := hosts.acts
  obtain ⟨_, here, isHere, sound⟩ := start.sound.envs env known found
  simpa [World.threadOf, isHere, sound.thread] using own

theorem invoked_meets (safe : call.Safe strict) {layers : List Layer} {function : Value}
    {args : List Value} {spread : Bool} {signature : Signature} {sources targets : List Ty}
    (hosts : start.Hosts task floor env layers)
    (fits : function.Inhabits start.shape signature.toTy)
    (inhabit : Inhabit start.shape args sources)
    (assignable : List.Forall₂ (fun (source target : Ty) => source.assignableTo target = true)
      sources targets)
    (accepts : signature.Accepts spread targets) :
    (Run.read (·.threadOf env) >>= fun thread => call thread ⟨function, args, spread⟩).Meets start
      task floor fun now results => Inhabit now.shape results signature.results := by
  refine (Run.read_meets (fun now thread => start = now ∧ start.shape.Owns task thread)
    hosts.quiet ⟨rfl, hosts.thread⟩).bind ?_
  rintro _ thread _ quiet ⟨rfl, own⟩
  have sound : Invocation.Sound start.shape ⟨function, args, spread⟩ :=
    ⟨fits.1, inhabit.1, fun isStrict => ⟨signature, targets, fits.2 isStrict,
      forall₂_assign (inhabit.2 isStrict) assignable, accepts⟩⟩
  refine (safe start task thread _ floor quiet own sound hosts.floor).mono ?_
  intro now results _ _ holds
  exact ⟨holds.1, fun isStrict => holds.2 isStrict signature (fits.2 isStrict)⟩

def CodeOf.Evaluates (strict : Prop) (call : Caller) (code : Code) : Prop :=
  ∀ ⦃task : ThreadRef⦄ ⦃floor : Nat⦄ ⦃env : EnvRef⦄ ⦃ctx : Ctx strict⦄ ⦃type : Ty⦄
    ⦃start : Config strict⦄, CodeFits strict ctx code type →
    start.Hosts task floor env ctx.layers →
    (eval call env code).Meets start task floor fun now value => value.Inhabits now.shape type

theorem CodeOf.Evaluates.of_typed {code : Code}
    (meets : ∀ {task : ThreadRef} {floor : Nat} {env : EnvRef} {ctx : Ctx strict} {type : Ty}
      {start : Config strict}, CodeTyped strict ctx code type →
      start.Hosts task floor env ctx.layers →
      (eval call env code).Meets start task floor fun now value => value.Inhabits now.shape type) :
    code.Evaluates strict call := by
  intro task floor env ctx type start fits hosts
  cases fits with
  | of typed assignable =>
    exact (meets typed hosts).mono fun now value _ _ inhabits => inhabits.assign assignable

def CodesEvaluate (strict : Prop) (call : Caller) (codes : List Code) : Prop :=
  ∀ {task : ThreadRef} {floor : Nat} {env : EnvRef} {ctx : Ctx strict} {types : List Ty}
    {start : Config strict}, CodesFit strict ctx codes types →
    start.Hosts task floor env ctx.layers →
    (evalAll call env codes).Meets start task floor fun now values => Inhabit now.shape values types

def EntriesEvaluate (strict : Prop) (call : Caller) (entries : List (Code × Code)) : Prop :=
  ∀ {task : ThreadRef} {floor : Nat} {env : EnvRef} {ctx : Ctx strict} {key elem : Ty} {ref : MapRef}
    {start : Config strict}, EntriesFit strict ctx entries key elem →
    start.shape.map ref = some (key, elem) →
    start.Hosts task floor env ctx.layers →
    (evalEntries call env ref entries).Meets start task floor fun _ _ => True

def ValuesOf.Evaluate (strict : Prop) (call : Caller) (values : Values) : Prop :=
  ∀ {task : ThreadRef} {floor : Nat} {env : EnvRef} {ctx : Ctx strict} {types : List Ty}
    {start : Config strict}, ValuesTyped strict ctx values types →
    start.Hosts task floor env ctx.layers →
    (evalValues call env values).Meets start task floor
      fun now found => Inhabit now.shape found types

def ValuesOf.EvaluateEach (strict : Prop) (call : Caller) (values : Values) : Prop :=
  ∀ {task : ThreadRef} {floor : Nat} {env : EnvRef} {ctx : Ctx strict} {elem : Ty}
    {start : Config strict}, ValuesEach strict ctx values elem →
    start.Hosts task floor env ctx.layers →
    (evalValues call env values).Meets start task floor
      fun now found => ∀ value ∈ found, value.Inhabits now.shape elem

open Run

mutual

theorem eval_meets (safe : call.Safe strict) : ∀ code : Code, code.Evaluates strict call
  | .const value => .of_typed fun typed hosts => by
    cases typed
    exact pure_meets hosts.quiet (Value.inhabits_const (Value.is_self _))
  | .load hops slot => .of_typed fun typed hosts => by
    cases typed with
    | load found => exact load_meets hosts found
  | .binary op left right => .of_typed fun typed hosts => by
    cases typed with
    | binary leftFits rightFits takes =>
      refine (eval_meets safe left leftFits hosts).bind fun middle first since quiet firstFits => ?_
      refine (eval_meets safe right rightFits (hosts.since since quiet)).bind
        fun now second _ quiet secondFits => ?_
      exact binary_meets quiet takes firstFits.2 secondFits.2
  | .logical stop left right => .of_typed fun typed hosts => by
    cases typed with
    | logical leftFits rightFits =>
      refine (eval_meets safe left leftFits hosts).bind fun middle value since quiet is => ?_
      refine (asBool_meets (fun now _ => middle = now) quiet is.2 fun _ _ => rfl).bind ?_
      rintro _ truth _ quiet rfl
      split
      · exact pure_meets quiet (Value.inhabits_const (Value.is_self _))
      · exact eval_meets safe right rightFits (hosts.since since quiet)
  | .unary op operand => .of_typed fun typed hosts => by
    cases typed with
    | unary fits takes =>
      refine (eval_meets safe operand fits hosts).bind fun now value _ quiet fits => ?_
      exact unary_meets quiet takes fits.2
  | .convert target operand => .of_typed fun typed hosts => by
    cases typed with
    | convert fits converts =>
      refine (eval_meets safe operand fits hosts).bind fun now value _ quiet fits => ?_
      exact pure_meets quiet ⟨fits.1.convert _, fun isStrict =>
        Value.convert_is converts (fits.2 isStrict)⟩
  | .receive channel => .of_typed fun typed hosts => by
    cases typed with
    | receive fits =>
      refine (eval_meets safe channel fits hosts).bind fun middle value _ quiet fits => ?_
      refine (recvFrom_meets quiet fits).bind fun now received _ quiet holds => ?_
      exact pure_meets quiet holds
  | .sliceIndex base index => .of_typed fun typed hosts => by
    cases typed with
    | sliceIndex baseFits indexFits =>
      refine (eval_meets safe index indexFits hosts).bind fun first value since quiet is => ?_
      refine (asInt_meets (fun now _ => first = now) quiet is.2 fun _ _ => rfl).bind ?_
      rintro _ number _ quiet rfl
      refine (eval_meets safe base baseFits (hosts.since since quiet)).bind
        fun now value _ quiet fits => ?_
      exact sliceItem_meets quiet fits
  | .stringIndex base index => .of_typed fun typed hosts => by
    cases typed with
    | stringIndex baseFits indexFits =>
      refine (eval_meets safe base baseFits hosts).bind fun first value since quiet is => ?_
      refine (asStr_meets (fun now _ => first = now) quiet is.2 fun _ _ => rfl).bind ?_
      rintro _ text _ quiet rfl
      refine (eval_meets safe index indexFits (hosts.since since quiet)).bind
        fun second value _ quiet is => ?_
      refine (asInt_meets (fun _ _ => True) quiet is.2 fun _ _ => trivial).bind ?_
      intro now number _ quiet _
      exact stringByte_meets quiet
  | .mapIndex elem base key => .of_typed fun typed hosts => by
    cases typed with
    | mapIndex baseFits keyFits =>
      refine (eval_meets safe key keyFits hosts).bind fun first keyValue since quiet isKey => ?_
      refine (eval_meets safe base baseFits (hosts.since since quiet)).bind
        fun second value later quiet fits => ?_
      refine (mapEntry_meets quiet fits isKey.2).bind fun now found _ quiet holds => ?_
      refine pure_meets quiet ?_
      cases found with
      | some value => exact holds value rfl
      | none => exact Value.inhabits_const (Value.zero_is _)
  | .sliceLit elem items => .of_typed fun typed hosts => by
    cases typed with
    | sliceLit fit =>
      refine (evalAll_meets safe items fit hosts).bind fun now values _ quiet inhabit => ?_
      exact newSlice_meets quiet inhabit.each
  | .mapLit key elem entries => .of_typed fun typed hosts => by
    cases typed with
    | mapLit isKey fit =>
      refine (newMapRef_meets elem hosts.quiet fun _ => isKey).bind
        fun first ref since quiet known => ?_
      refine (evalEntries_meets safe entries fit known (hosts.since since quiet)).bind ?_
      intro now _ later quiet _
      exact pure_meets quiet ⟨later.grows.map _ _ known, fun _ => Value.is_self _⟩
  | .typeAssert target operand => .of_typed fun typed hosts => by
    cases typed with
    | typeAssert fits =>
      refine (eval_meets safe operand fits hosts).bind fun now value _ quiet fits => ?_
      split
      · rename_i passes
        exact pure_meets quiet ⟨fits.1, fun _ => Value.is_of_hasType passes⟩
      · exact fail_meets quiet (Value.assertionFailure_allowed value target)
  | .closure template => .of_typed fun typed hosts => by
    cases typed with
    | closure templateTyped => exact closure_meets hosts templateTyped
  | .builtin builtin params => .of_typed fun typed hosts => by
    cases typed with
    | builtin takes =>
      exact pure_meets hosts.quiet ⟨fun _ => ⟨rfl, rfl, takes⟩, fun _ => Value.is_self _⟩
  | .length operand => .of_typed fun typed hosts => by
    cases typed with
    | length fits measured =>
      refine (eval_meets safe operand fits hosts).bind fun now value _ quiet fits => ?_
      exact lengthOf_meets quiet measured fits.2
  | .capacity operand => .of_typed fun typed hosts => by
    cases typed with
    | capacity fits measured =>
      refine (eval_meets safe operand fits hosts).bind fun now value _ quiet fits => ?_
      exact capacityOf_meets quiet measured fits.2
  | .append elem base extra => .of_typed fun typed hosts => by
    cases typed with
    | append baseFits extraTyped =>
      refine (eval_meets safe base baseFits hosts).bind fun first value since quiet fits => ?_
      refine (evalEach_meets safe extra extraTyped (hosts.since since quiet)).bind
        fun now values later quiet each => ?_
      exact appended_meets quiet (fits.grows later.grows) each
  | .makeSlice elem length => .of_typed fun typed hosts => by
    cases typed with
    | makeSlice fits =>
      refine (eval_meets safe length fits hosts).bind fun first value _ quiet is => ?_
      refine (asInt_meets (fun _ _ => True) quiet is.2 fun _ _ => trivial).bind ?_
      intro second number _ quiet _
      refine (checkedSize_meets quiet).bind fun now size _ quiet _ => ?_
      refine newSlice_meets quiet fun value member => ?_
      rw [List.eq_of_mem_replicate member]
      exact Value.inhabits_const (Value.zero_is _)
  | .makeMap key elem => .of_typed fun typed hosts => by
    cases typed with
    | makeMap isKey => exact newMap_meets hosts.quiet fun _ => isKey
  | .makeChan elem none => .of_typed fun typed hosts => by
    cases typed
    exact newChan_meets hosts.quiet
  | .makeChan elem (some size) => .of_typed fun typed hosts => by
    cases typed with
    | makeChanSized fits =>
      refine (eval_meets safe size fits hosts).bind fun first value _ quiet is => ?_
      refine (asInt_meets (fun _ _ => True) quiet is.2 fun _ _ => trivial).bind ?_
      intro second number _ quiet _
      refine (checkedSize_meets quiet).bind fun now size _ quiet _ => ?_
      exact newChan_meets quiet
  | .first values => .of_typed fun typed hosts => by
    cases typed with
    | first valuesTyped =>
      refine (evalValues_meets safe values valuesTyped hosts).bind
        fun now found _ quiet inhabit => ?_
      exact pure_meets quiet inhabit.head

theorem evalAll_meets (safe : call.Safe strict) : ∀ codes : List Code, CodesEvaluate strict call codes
  | [] => fun fit hosts => by
    cases fit
    exact pure_meets hosts.quiet .nil
  | code :: codes => fun fit hosts => by
    cases fit with
    | cons head tail =>
      refine (eval_meets safe code head hosts).bind fun first value since quiet fits => ?_
      refine (evalAll_meets safe codes tail (hosts.since since quiet)).bind
        fun now values later quiet rest => ?_
      exact pure_meets quiet (.cons (fits.grows later.grows) rest)

theorem evalEntries_meets (safe : call.Safe strict) :
    ∀ entries : List (Code × Code), EntriesEvaluate strict call entries
  | [] => fun _ _ hosts => pure_meets hosts.quiet trivial
  | (keyCode, valueCode) :: entries => fun fit known hosts => by
    cases fit with
    | cons keyFits valueFits rest =>
      refine (eval_meets safe keyCode keyFits hosts).bind fun first keyValue since quiet isKey => ?_
      have atFirst := hosts.since since quiet
      refine (eval_meets safe valueCode valueFits atFirst).bind fun second value later quiet fits => ?_
      have atSecond := atFirst.since later quiet
      have still := later.grows.map _ _ (since.grows.map _ _ known)
      refine (insertEntry_meets quiet still isKey.2 fits).bind fun third _ last quiet same => ?_
      exact evalEntries_meets safe entries rest (same ▸ still) (atSecond.since last quiet)

theorem evalValues_meets (safe : call.Safe strict) : ∀ values : Values, values.Evaluate strict call
  | .each items => fun typed hosts => by
    cases typed with
    | each fit => exact evalAll_meets safe items fit hosts
  | .call callee args spread => fun typed hosts => by
    cases typed with
    | call invocation =>
      cases invocation with
      | @mk _ _ _ _ signature sources targets calleeFits argsTyped assignable accepts =>
        refine (eval_meets safe callee calleeFits hosts).bind fun first function since quiet fits => ?_
        have atFirst := hosts.since since quiet
        refine (evalValues_meets safe args argsTyped atFirst).bind
          fun second found later quiet inhabit => ?_
        exact invoked_meets safe (atFirst.since later quiet) (fits.grows later.grows) inhabit
          assignable accepts
  | .elements slice => fun typed _ => by cases typed
  | .mapLookup elem base key => fun typed hosts => by
    cases typed with
    | mapLookup baseFits keyFits =>
      refine (eval_meets safe key keyFits hosts).bind fun first keyValue since quiet isKey => ?_
      refine (eval_meets safe base baseFits (hosts.since since quiet)).bind
        fun second value later quiet fits => ?_
      refine (mapEntry_meets quiet fits isKey.2).bind fun now found _ quiet holds => ?_
      cases found with
      | some value => exact pure_meets quiet (.flagged (holds value rfl) true)
      | none => exact pure_meets quiet (.flagged (Value.inhabits_const (Value.zero_is _)) false)
  | .receiveOk channel => fun typed hosts => by
    cases typed with
    | receiveOk fits =>
      refine (eval_meets safe channel fits hosts).bind fun middle value _ quiet fits => ?_
      refine (recvFrom_meets quiet fits).bind fun now received _ quiet holds => ?_
      exact pure_meets quiet (.flagged holds _)
  | .typeAssertOk target operand => fun typed hosts => by
    cases typed with
    | typeAssertOk fits =>
      refine (eval_meets safe operand fits hosts).bind fun now value _ quiet fits => ?_
      split
      · rename_i passes
        exact pure_meets quiet (.flagged ⟨fits.1, fun _ => Value.is_of_hasType passes⟩ true)
      · exact pure_meets quiet (.flagged (Value.inhabits_const (Value.zero_is _)) false)

theorem evalEach_meets (safe : call.Safe strict) :
    ∀ values : Values, values.EvaluateEach strict call
  | .each items => fun typed hosts => by
    cases typed with
    | each fit =>
      exact (evalAll_meets safe items fit hosts).mono fun _ _ _ _ inhabit => inhabit.each
  | .elements slice => fun typed hosts => by
    cases typed with
    | elements fits =>
      refine (eval_meets safe slice fits hosts).bind fun now value _ quiet fits => ?_
      exact elements_meets quiet fits
  | .call .. | .mapLookup .. | .receiveOk _ | .typeAssertOk .. => fun typed _ => by cases typed

end

end Evaluation

end MiniGo
