import MiniGo.Proofs.Execution
/-!
Calls of function values. A call with the arguments that its function takes keeps the state sound and
gives results of the types that the function promises, whatever the host's own functions do as long
as they are safe themselves.
-/

namespace MiniGo

variable [Natives] {strict : Prop}

/-- A function of a host does no harm, whatever it calls back: it leaves the blocks that it enters,
and nothing for the executors. If its signature is known, it keeps to it. -/
def HostFunction.Safe (strict : Prop) (signature? : Option Signature) (native : HostFunction) : Prop :=
  ∀ call : Caller, call.Safe strict →
    ∀ (start : Config strict) (task thread : ThreadRef) (args : List Value) (floor : Nat),
      start.Quiet task → start.shape.Owns task thread →
      (∀ value ∈ args, value.Known start.shape) →
      (strict → ∀ signature, signature? = some signature →
        List.Forall₂ Value.Is args signature.params) →
      floor ≤ start.world.envs.size →
      (native call thread args).Meets start task floor fun now results =>
        (∀ value ∈ results, value.Known now.shape) ∧
          (strict → ∀ signature, signature? = some signature →
            List.Forall₂ Value.Is results signature.results)

structure Host.Safe (strict : Prop) (host : Host) : Prop where
  proper : strict → ∀ index signature, Natives.signature? index = some signature → signature.Proper
  keeps : ∀ index (native : HostFunction), host[index]? = some native →
    native.Safe strict (Natives.signature? index)

/-- The body of a function can be executed in an environment, from its first instruction on. -/
def Template.Ready (template : Template) (now : Config strict) (task : ThreadRef)
    (root : EnvRef) : Prop :=
  ∃ (activation : Activation strict) (layers : List Layer), activation.program = template.program ∧
    activation.root = root ∧ now.shape.Owns task activation.thread ∧
    activation.Within now root [] layers ∧ now.world.ip root = 0 ∧ activation.Lands 0 layers

section Calls

variable {start : Config strict} {task : ThreadRef} {floor : Nat}

theorem Run.modifyAlike_meets {change : World → World} (quiet : start.Quiet task)
    (alike : start.world.Alike (change start.world)) :
    (Run.modify change).Meets start task floor fun now _ =>
      now.shape = start.shape ∧ now.world = change start.world :=
  .calm (start.alike alike) rfl (start.calm_alike alike) quiet ⟨rfl, rfl⟩

theorem Builtin.call_meets {builtin : Builtin} {args : List Value} {params : List Ty}
    (quiet : start.Quiet task) (known : ∀ value ∈ args, value.Known start.shape)
    (takes : strict → builtin.Takes params) (are : strict → List.Forall₂ Value.Is args params) :
    (builtin.call args).Meets start task floor fun _ results => results = [] := by
  unfold Builtin.call
  split
  · exact (Run.close_meets quiet).bind fun _ _ _ quiet _ => Run.pure_meets quiet rfl
  · exact Run.fail_meets quiet (RuntimeError.allowed_panic _)
  · next keyType elem ref key =>
    refine (Run.eraseEntry_meets quiet (known _ (.head _)) fun isStrict => ?_).bind
      fun _ _ _ quiet _ => Run.pure_meets quiet rfl
    obtain ⟨mapKey, mapElem, rfl⟩ := takes isStrict
    cases are isStrict with
    | cons isMap rest =>
      cases rest with
      | cons isKey _ =>
        rcases isMap.eq_map with isNil | ⟨_, same⟩
        · cases isNil
        · cases same
          exact isKey
  · exact (Run.read_meets (fun _ _ => True) quiet trivial).bind fun _ _ _ quiet _ =>
      Run.fail_meets quiet (RuntimeError.allowed_panic _)
  · exact (Run.modifyAlike_meets quiet (World.alike_write _ _)).bind fun _ _ _ quiet _ =>
      Run.pure_meets quiet rfl
  · exact (Run.modifyAlike_meets quiet (World.alike_write _ _)).bind fun _ _ _ quiet _ =>
      Run.pure_meets quiet rfl
  · exact Run.pure_meets quiet rfl

namespace Machine

omit [Natives] in
theorem variadic_params {signature : Signature} {elem : Ty}
    (isElem : signature.variadicElem? = some elem) :
    signature.variadic = true ∧
      signature.params = signature.params.take signature.fixed ++ [.slice elem] := by
  unfold Signature.variadicElem? at isElem
  split at isElem
  · next variadic =>
    refine ⟨variadic, ?_⟩
    split at isElem
    · next last =>
      obtain rfl := Option.some.inj isElem
      rw [Signature.fixed, if_pos variadic, ← List.dropLast_eq_take]
      exact (List.dropLast_append_getLast? _ last).symm
    · cases isElem
  · cases isElem

omit [Natives] in
theorem accepts_params {signature : Signature} {targets : List Ty}
    (plain : signature.variadic = false) (accepts : signature.Accepts false targets) :
    targets = signature.params := by
  simp only [Signature.Accepts, Signature.fixed, Invoke.argumentTypes, plain, Bool.false_eq_true,
    if_false] at accepts
  rw [accepts.2, Nat.sub_self, List.replicate_zero, List.append_nil, List.take_length] at accepts
  exact accepts.1

theorem packed_meets {signature : Signature} {args : List Value}
    (quiet : start.Quiet task) (known : ∀ value ∈ args, value.Known start.shape)
    (proper : strict → signature.Proper)
    (fits : strict → ∃ targets, List.Forall₂ Value.Is args targets ∧
      signature.Accepts false targets) :
    (packed signature args).Meets start task floor fun now packed =>
      Inhabit now.shape packed signature.params := by
  unfold packed
  split
  · next none =>
    refine Run.pure_meets quiet ⟨known, fun isStrict => ?_⟩
    have plain : signature.variadic = false := by
      by_contra variadic
      have isSome := proper isStrict (by simpa using variadic)
      simp [none] at isSome
    obtain ⟨targets, are, accepts⟩ := fits isStrict
    exact accepts_params plain accepts ▸ are
  · next elem isElem =>
    obtain ⟨variadic, params⟩ := variadic_params isElem
    have types (isStrict : strict) : signature.fixed ≤ args.length ∧
        List.Forall₂ Value.Is args (signature.params.take signature.fixed ++
          List.replicate (args.length - signature.fixed) elem) := by
      obtain ⟨targets, are, accepts⟩ := fits isStrict
      simp only [Signature.Accepts, Invoke.argumentTypes, variadic, isElem, Bool.false_eq_true,
        if_false, if_true, Option.getD_some] at accepts
      rw [are.length_eq]
      exact ⟨accepts.2, accepts.1 ▸ are⟩
    dsimp only
    split
    · next few =>
      refine Run.fail_meets quiet fun isStrict _ => ?_
      have enough := (types isStrict).1
      omega
    · have length : (signature.params.take signature.fixed).length = signature.fixed := by
        have all := congrArg List.length params
        rw [List.length_append, List.length_singleton] at all
        rw [Signature.fixed, if_pos variadic] at all ⊢
        omega
      have inhabit : ∀ value ∈ args.drop signature.fixed, value.Inhabits start.shape elem := by
        have rest : Inhabit start.shape (args.drop signature.fixed)
            (List.replicate (args.length - signature.fixed) elem) := by
          refine ⟨fun value member => known value (List.mem_of_mem_drop member), fun isStrict => ?_⟩
          have dropped := List.forall₂_drop signature.fixed (types isStrict).2
          rw [List.drop_left' length] at dropped
          exact dropped
        exact rest.each
      refine (Run.newSlice_meets quiet inhabit).bind fun now rest since quiet isRest => ?_
      refine Run.pure_meets quiet ⟨?_, fun isStrict => ?_⟩
      · intro value member
        rcases List.mem_append.mp member with taken | isLast
        · exact (known value (List.mem_of_mem_take taken)).grows since.grows
        · exact List.mem_singleton.mp isLast ▸ isRest.1
      · have taken := List.forall₂_take signature.fixed (types isStrict).2
        rw [List.take_left' length] at taken
        rw [params]
        exact List.rel_append taken (.cons (isRest.2 isStrict) .nil)

theorem storeZeros_meets {ref : EnvRef} {known : EnvShape} {slots : List Slot}
    {start : Config strict} (quiet : start.Quiet task) (found : start.shape.env ref = some known)
    (shared : ∀ slot ∈ slots, known.level.Shared slot) :
    (storeZeros ref slots).Meets start task floor fun now _ =>
      ∀ slot ∈ slots, now.shape.ready ref slot := by
  induction slots generalizing start with
  | nil => exact Run.pure_meets quiet (by simp)
  | cons slot slots ih =>
    obtain ⟨first, rest⟩ := List.forall_mem_cons.mp shared
    have zero : (Value.zero slot.type).Inhabits start.shape slot.type := by
      refine ⟨?_, fun _ => Value.zero_is _⟩
      exact trivial
    refine (Run.store_meets quiet found first zero).bind fun _ _ since quiet ready => ?_
    refine (ih quiet (since.grows.env _ _ found) rest).mono fun _ _ later _ others => ?_
    exact List.forall_mem_cons.mpr ⟨later.grows.ready _ _ ready, others⟩

theorem results_inhabit {ref : EnvRef} {known : EnvShape} {slots : List Slot} {types : List Ty}
    (found : start.shape.env ref = some known)
    (typed : List.Forall₂ (fun (slot : Slot) type => known.level.Shared slot ∧ slot.type = type) slots
      types)
    (ready : strict → ∀ slot ∈ slots, start.shape.ready ref slot) :
    Inhabit start.shape (slots.map (start.world.load ref)) types := by
  obtain ⟨-, there, present, sound⟩ := start.sound.envs ref known found
  induction typed with
  | nil => exact .nil
  | @cons slot type slots types first _ ih =>
    obtain ⟨shared, rfl⟩ := first
    have loaded : start.world.load ref slot = there.slots.load slot := by simp [World.load, present]
    refine .cons ?_ (ih fun isStrict slot member => ready isStrict slot (.tail _ member))
    rw [loaded]
    exact ⟨(sound.load_rests shared.1).1, fun isStrict =>
      (sound.ready slot (ready isStrict slot (.head _))).2 isStrict⟩

def enter (template : Template) (outer : EnvRef) (thread : ThreadRef) (args : List Value) :
    Run EnvRef := do
  let env ← Run.update
    (·.acquire thread (some outer) template.program 0 template.objects template.words)
  Step.storeInit env template.params args
  storeZeros env template.results
  pure env

/-- Gives the results of a call that has ended, and lets go of its environment. -/
def release (template : Template) (thread : ThreadRef) (env : EnvRef) :
    Except RuntimeError Unit → Run (List Value)
  | .error error => do
    Run.modify (·.drop env)
    Run.fail error
  | .ok () => do
    let results ← Run.read fun world => template.results.map (world.load env)
    Run.modify (·.recycle thread env)
    pure results

omit [Natives] in
theorem invoke_eq (exec : EnvRef → Run Unit) (template : Template) (outer : EnvRef)
    (thread : ThreadRef) (args : List Value) : invoke exec template outer thread args =
      enter template outer thread args >>= fun env =>
        Run.attempt (exec env) >>= release template thread env := by
  simp only [enter, Run.bind_assoc]
  rfl

theorem enter_meets {template : Template} {outer : EnvRef} {thread : ThreadRef} {args : List Value}
    {ctx : Ctx strict} (quiet : start.Quiet task) (own : start.shape.Owns task thread)
    (less : floor ≤ start.world.envs.size) (known : ∀ value ∈ args, value.Known start.shape)
    (are : strict → List.Forall₂ Value.Is args template.signature.params)
    (typed : TemplateTyped strict ctx template) (spans : Spans start.shape (some outer) ctx.layers)
    (plain : ∀ layer ∈ ctx.layers, layer.parked = [] ∧ layer.held = []) :
    (enter template outer thread args).Meets start task floor fun now root =>
      template.Ready now task root ∧ floor ≤ root.index ∧
        ∃ known, now.shape.env root = some known ∧
          List.Forall₂ (fun (slot : Slot) type => known.level.Shared slot ∧ slot.type = type)
            template.results template.signature.results ∧
          ∀ slot ∈ template.results, now.shape.ready root slot := by
  obtain @⟨_, _, _, _, _, level, positions, exit, compiled, laid, objects, words, params, results, -,
    length, entry, instrs⟩ := typed
  have older : ∀ ref, some outer = some ref → ref.index < start.world.envs.size := by
    rintro _ ⟨⟩
    obtain ⟨known, found⟩ := spans.known
    obtain ⟨-, there, present, -⟩ := start.sound.envs _ known found
    exact (Array.getElem?_eq_some_iff.mp present).1
  obtain ⟨first, acquired, calm, isEnv, ip, size⟩ :=
    start.acquire template.program 0 level (start.owner_isSome quiet.isTask own) older
  rw [objects, words] at acquired
  set root : EnvRef := ⟨start.world.envs.size⟩ with isRoot
  have young : root.index < first.world.envs.size := by simp [isRoot, size]
  have ownFirst : first.shape.Owns task thread := ((calm.moves root).owns thread).mpr own
  have acquires : (Run.update
      (·.acquire thread (some outer) template.program 0 template.objects template.words)).Meets start
        task floor fun now env => now = first ∧ env = root :=
    .calm first (Run.update_done acquired) calm quiet ⟨rfl, rfl⟩
  refine acquires.bind ?_
  rintro first _ - quiet ⟨rfl, rfl⟩
  have upper : floor ≤ first.world.envs.size := Nat.le_trans less calm.envs
  have inits : (Step.storeInit root template.params args).Meets first task first.world.envs.size
      fun now _ => strict → ∀ slot, some slot ∈ template.params → now.shape.ready root slot := by
    refine Step.storeInit_meets quiet isEnv (fun slot member => ?_)
      (fun value member => (known value member).grows calm.grows) fun isStrict => ?_
    · obtain ⟨type, -, holds⟩ := exists_of_forall₂ params member
      exact (holds slot rfl).1
    · have flipped : List.Forall₂ (fun type (slot : Option Slot) => ∀ found, slot = some found →
          level.Shared found ∧ found.type = type) template.signature.params template.params :=
        params.flip
      refine forall₂_chain (are isStrict) flipped fun value type slot is holds wanted same => ?_
      obtain ⟨found, rfl, rfl⟩ := Option.map_eq_some_iff.mp same
      exact (holds found rfl).2 ▸ is
  refine inits.bindOver upper fun second _ since quiet ready => ?_
  have zeros : (storeZeros root template.results).Meets second task first.world.envs.size
      fun now _ => ∀ slot ∈ template.results, now.shape.ready root slot := by
    refine storeZeros_meets quiet (since.grows.env _ _ isEnv) fun slot member => ?_
    obtain ⟨type, -, shared, -⟩ := exists_of_forall₂ results member
    exact shared
  refine zeros.bindOver upper fun third _ later quiet zeroed => ?_
  have both := since.trans later
  have there := both.grows.env _ _ isEnv
  let activation : Activation strict :=
    ⟨⟨thread, root, template.program, ctx.layers.length, _⟩, positions, exit, rfl,
      .function compiled laid, length, instrs⟩
  let layer : Layer := { level, ready := template.params.filterMap id ++ template.results }
  have described : layer.Describes third root ⟨level, some outer, template.program, thread⟩ := by
    refine ⟨rfl, fun isStrict slot member => ?_, by simp [layer], by simp [layer]⟩
    rcases List.mem_append.mp member with isParam | isResult
    · exact later.grows.ready _ _ (ready isStrict slot (by simpa using isParam))
    · exact zeroed slot isResult
  have within : activation.Within third root [] (layer :: ctx.layers) :=
    .root there rfl rfl described ((spans.grows calm.grows).grows both.grows) plain rfl
  have here : third.world.ip root = 0 := (both.kept root _ isEnv ownFirst young).1.trans ip
  exact Run.pure_meets quiet
    ⟨⟨activation, _, rfl, rfl, both.owns _ ownFirst, within, here, entry⟩, less, _, there, results,
      zeroed⟩

variable {call : Caller} {loop : EnvRef → Option Instr → List Invocation → Run Stopped}

theorem invoke_meets {template : Template} {outer : EnvRef} {thread : ThreadRef} {args : List Value}
    {ctx : Ctx strict} (safe : call.Safe strict) (loopSafe : LoopSafe strict loop)
    (quiet : start.Quiet task) (own : start.shape.Owns task thread)
    (less : floor ≤ start.world.envs.size) (known : ∀ value ∈ args, value.Known start.shape)
    (are : strict → List.Forall₂ Value.Is args template.signature.params)
    (typed : TemplateTyped strict ctx template) (spans : Spans start.shape (some outer) ctx.layers)
    (plain : ∀ layer ∈ ctx.layers, layer.parked = [] ∧ layer.held = []) :
    (invoke (execWith call loop) template outer thread args).Meets start task floor
      fun now results => Inhabit now.shape results template.signature.results := by
  rw [invoke_eq]
  refine (enter_meets quiet own less known are typed spans plain).bind ?_
  rintro third root - quiet ⟨⟨activation, layers, -, rfl, own, within, here, lands⟩, young, known,
    isEnv, results, zeroed⟩
  have executes := Run.attempt_meets
    (execWith_meets safe loopSafe quiet within own young (here.symm ▸ lands))
  refine executes.bind fun last result since quiet ended => ?_
  cases result with
  | error error =>
    exact (Run.modifyAlike_meets quiet (World.alike_drop _ _)).bind fun _ _ _ quiet _ =>
      Run.fail_meets quiet ended
  | ok _ =>
    have inhabit : Inhabit last.shape (template.results.map (last.world.load activation.root))
        template.signature.results :=
      results_inhabit (since.grows.env _ _ isEnv) results
        fun _ slot member => since.grows.ready _ _ (zeroed slot member)
    refine (Run.read_meets (fun now values => Inhabit now.shape values template.signature.results)
      quiet inhabit).bind fun _ values _ quiet inhabit => ?_
    exact (Run.modifyAlike_meets quiet (World.alike_recycle _ _ _)).bind fun _ _ since quiet _ =>
      Run.pure_meets quiet (inhabit.grows since.grows)

theorem apply_meets {host : Host} {function : Func} {thread : ThreadRef} {args : List Value}
    (hostSafe : host.Safe strict) (safe : call.Safe strict) (loopSafe : LoopSafe strict loop)
    (quiet : start.Quiet task) (own : start.shape.Owns task thread)
    (less : floor ≤ start.world.envs.size)
    (isKnown : function.body.Known start.shape function.signature)
    (inhabit : Inhabit start.shape args function.signature.params) :
    (apply host call (execWith call loop) function thread args).Meets start task floor
      fun now results => Inhabit now.shape results function.signature.results := by
  unfold apply
  dsimp only
  split
  · next differs =>
    exact Run.fail_meets quiet fun isStrict _ => differs (inhabit.2 isStrict).length_eq
  · split
    · next template env isBody =>
      rw [isBody] at isKnown
      obtain ⟨same, ctx, typed, spans⟩ := isKnown
      rw [← same] at inhabit ⊢
      exact invoke_meets safe loopSafe quiet own less inhabit.1 inhabit.2 typed spans.lasting
        (by simp [Ctx.lasting, Layer.lasting])
    · next index isBody =>
      rw [isBody] at isKnown
      split
      · next native isNative =>
        refine (hostSafe.keeps index native isNative call safe start task thread args floor quiet own
          inhabit.1 (fun isStrict signature isSignature => ?_) less).mono fun now results _ _ ends => ?_
        · obtain rfl := Option.some.inj ((isKnown isStrict).symm.trans isSignature)
          exact inhabit.2 isStrict
        · exact ⟨ends.1, fun isStrict => ends.2 isStrict _ (isKnown isStrict)⟩
      · exact Run.fail_meets quiet RuntimeError.allowed_nilFunc
    · next builtin isBody =>
      rw [isBody] at isKnown
      refine (Builtin.call_meets quiet inhabit.1 (fun isStrict => (isKnown isStrict).2.2)
        inhabit.2).mono fun now results _ _ none => ?_
      subst none
      exact ⟨by simp, fun isStrict => (isKnown isStrict).1 ▸ .nil⟩

theorem proper_of_known {host : Host} {shape : Shape strict} {function : Func}
    (hostSafe : host.Safe strict) (isKnown : function.body.Known shape function.signature)
    (isStrict : strict) : function.signature.Proper := by
  cases isBody : function.body with
  | closure template env =>
    rw [isBody] at isKnown
    obtain ⟨same, ctx, ⟨_, _, _, _, _, _, proper, _⟩, -⟩ := isKnown
    exact same ▸ proper isStrict
  | native index =>
    rw [isBody] at isKnown
    exact hostSafe.proper isStrict _ _ (isKnown isStrict)
  | builtin builtin =>
    rw [isBody] at isKnown
    intro variadic
    simp [(isKnown isStrict).2.1] at variadic

theorem watchedCall_succ_safe {watch : Watch} {host : Host} {fuel : Nat} (hostSafe : host.Safe strict)
    (safe : (watchedCall watch host fuel).Safe strict)
    (loopSafe : LoopSafe strict (Machine.loop watch host fuel)) :
    (watchedCall watch host (fuel + 1)).Safe strict := by
  rintro start task thread ⟨callee, args, spread⟩ floor quiet own sound less
  cases callee with
  | func function =>
    unfold watchedCall
    have same {signature : Signature} (is : (Value.func function).Is signature.toTy) :
        signature = function.signature := by
      rcases is.eq_func with isNil | ⟨body, isFunc⟩
      · cases isNil
      · cases isFunc
        rfl
    have applies {now : Config strict} {args : List Value} (since : start.Since task floor now)
        (quiet : now.Quiet task) (inhabit : Inhabit now.shape args function.signature.params) :
        (apply host (watchedCall watch host fuel)
          (execWith (watchedCall watch host fuel) (Machine.loop watch host fuel)) function thread
            args).Meets now task floor fun later results =>
              (∀ value ∈ results, value.Known later.shape) ∧
                (strict → ∀ signature : Signature, (Value.func function).Is signature.toTy →
                  List.Forall₂ Value.Is results signature.results) := by
      refine (apply_meets hostSafe safe loopSafe quiet (since.owns _ own)
        (Nat.le_trans less since.envs) (Value.Known.grows sound.callee since.grows) inhabit).mono
          fun last results _ _ fits => ?_
      exact ⟨fits.1, fun isStrict signature is => same is ▸ fits.2 isStrict⟩
    dsimp only
    split
    · next isSpread =>
      have passes : (pure args : Run (List Value)).Meets start task floor fun now args =>
          Inhabit now.shape args function.signature.params := by
        refine Run.pure_meets quiet ⟨sound.args, fun isStrict => ?_⟩
        obtain ⟨signature, targets, is, are, accepts⟩ := sound.typed isStrict
        rw [same is, isSpread] at accepts
        exact (show targets = function.signature.params from accepts) ▸ are
      exact passes.bind fun _ _ since quiet inhabit => applies since quiet inhabit
    · next notSpread =>
      refine (packed_meets quiet sound.args (proper_of_known hostSafe sound.callee)
        fun isStrict => ?_).bind fun _ _ since quiet inhabit => applies since quiet inhabit
      obtain ⟨signature, targets, is, are, accepts⟩ := sound.typed isStrict
      rw [same is, Bool.eq_false_iff.mpr notSpread] at accepts
      exact ⟨targets, are, accepts⟩
  | const | slice | map | chan =>
    exact Run.fail_meets quiet RuntimeError.allowed_nilFunc

theorem watchedCall_safe {host : Host} (watch : Watch) (hostSafe : host.Safe strict) (fuel : Nat) :
    (watchedCall watch host fuel).Safe strict ∧ LoopSafe strict (Machine.loop watch host fuel) := by
  induction fuel with
  | zero =>
    refine ⟨fun _ _ _ _ _ _ _ _ _ => ?_, fun _ _ _ => ?_⟩
    · unfold watchedCall
      exact Run.exhausted_meets
    · unfold Machine.loop
      exact trivial
  | succ fuel ih =>
    exact ⟨watchedCall_succ_safe hostSafe ih.1 ih.2, loop_succ_safe ih.1 ih.2⟩

end Machine

end Calls

end MiniGo
