import MiniGo.Proofs.Looping
/-!
Range loops from their start to their end, for every kind but channels: what they go over decides which
turns are made, and in which order.
-/

namespace MiniGo

namespace Compile

variable {outer scope : Scope} {frame after : Frame} {type : Ty} {isDefine : Bool}
  {target : Option Expr} {place : Option Place}

theorem rangeTarget_ne_blank
    (compiled : rangeTarget outer frame type isDefine target = .ok (place, after)) :
    place ≠ some .blank := by
  cases target with
  | none =>
    simp only [rangeTarget, Compiled.pure_eq_ok, Prod.mk.injEq] at compiled
    simp [← compiled.1]
  | some node =>
    simp only [rangeTarget] at compiled
    split at compiled
    · split at compiled
      · simp at compiled
      · simp only [Compiled.bind_eq_ok, Compiled.pure_eq_ok, Prod.exists, Prod.mk.injEq] at compiled
        obtain ⟨slot, _, -, rfl, -⟩ := compiled
        cases slot <;> simp
    · simp only [Compiled.bind_eq_ok] at compiled
      obtain ⟨found, -, _, -, compiled⟩ := compiled
      split at compiled <;> simp only [Compiled.pure_eq_ok, Prod.mk.injEq] at compiled
      · simp [← compiled.1]
      · rename_i notBlank
        rw [← compiled.1]
        simpa using notBlank

theorem rangeTarget_placed
    (compiled : rangeTarget outer frame type true target = .ok (place, after)) {found : Place}
    (isFound : place = some found) :
    ∃ slot name, found = .slot 0 slot ∧ frame.Placed after name type slot := by
  cases target with
  | none =>
    simp only [rangeTarget, Compiled.pure_eq_ok, Prod.mk.injEq] at compiled
    simp [isFound] at compiled
  | some node =>
    simp only [rangeTarget, if_true] at compiled
    split at compiled
    · simp at compiled
    · simp only [Compiled.bind_eq_ok, Compiled.pure_eq_ok, Prod.exists, Prod.mk.injEq] at compiled
      obtain ⟨slot, _, declared, rfl, rfl⟩ := compiled
      obtain ⟨slot, rfl, rfl⟩ := Option.map_eq_some_iff.mp isFound
      exact ⟨slot, _, rfl, (Frame.declareVar_widens declared).2.2 slot rfl⟩

namespace RangeLoop

variable {loop : RangeLoop} {here : Nat} {labels : List String} {key value : Option Expr}
  {subject : Expr} {body : Block} {span : Span} {lines : List Line}

theorem Of.typed (isLoop : loop.Of scope here labels key value isDefine subject body span lines)
    (proper : ProperIf True (Stmt.range key value isDefine subject body span).heads)
    (notChan : loop.kind ≠ .chan) {level : Level} (same : level.frame = { owned := true }) :
    ∃ final : Level, final.frame = loop.frame ∧ level.Grows final ∧ loop.Typed scope final := by
  simp only [Stmt.heads, properIf_append] at proper
  obtain ⟨⟨⟨properKey, properValue⟩, -⟩, -⟩ := proper
  obtain ⟨middle, compiledKey, compiledValue⟩ := isLoop.targets
  obtain ⟨keySlots, keyDeclares, -, keyKept, keyTyped⟩ :=
    rangeTarget_typed (optional_placeSound key properKey) compiledKey
  obtain ⟨valueSlots, valueDeclares, -, -, valueTyped⟩ :=
    rangeTarget_typed (optional_placeSound value properValue) compiledValue
  obtain ⟨named, namedFrame, namedGrows⟩ := (keyDeclares.trans valueDeclares).level level same
  obtain ⟨final, finalFrame, grows, reserved⟩ := rangeSlots_reserved isLoop.slots named namedFrame
  have coversValue : final.Covers loop.named := namedFrame ▸ grows.covers
  have coversKey : final.Covers middle := valueDeclares.covers coversValue
  refine ⟨final, finalFrame, namedGrows.trans grows, rangeShape_over isLoop.shape, notChan, reserved, ?_,
    ?_, ⟨rangeTarget_ne_blank compiledKey, rangeTarget_ne_blank compiledValue⟩, ?_, ?_⟩
  · intro ctx layer isScope isLayer isLevel
    exact keyTyped ctx layer (fun _ => isScope) isLayer (isLevel ▸ coversKey)
  · intro ctx layer isScope isLayer isLevel
    obtain ⟨wanted, typed, stores⟩ := valueTyped ctx layer
      (fun notDefine => isScope.trans (by rw [keyKept notDefine])) isLayer (isLevel ▸ coversValue)
    refine ⟨wanted, typed, fun type member => ?_⟩
    have isOne := isLoop.one
    cases isValue : loop.valueType with
    | some given => exact ⟨given, rfl, by simpa [isValue] using stores type member⟩
    | none =>
      obtain rfl : value = none := by simpa [isValue] using isOne
      simp only [rangeTarget, Compiled.pure_eq_ok, Prod.mk.injEq] at compiledValue
      rw [← compiledValue.1] at typed
      cases typed
      cases member
  · intro defines place isPlace
    rw [isLoop.defines] at defines
    subst defines
    rcases isPlace with isKey | isValue
    · obtain ⟨slot, name, rfl, placed⟩ := rangeTarget_placed compiledKey isKey
      exact ⟨slot, rfl, (coversKey.shared (Frame.symbol_mem placed.symbol)).1⟩
    · obtain ⟨slot, name, rfl, placed⟩ := rangeTarget_placed compiledValue isValue
      exact ⟨slot, rfl, (coversValue.shared (Frame.symbol_mem placed.symbol)).1⟩
  · intro defines first second isKey isValue
    rw [isLoop.defines] at defines
    subst defines
    obtain ⟨_, _, same, placedKey⟩ := rangeTarget_placed compiledKey isKey
    cases same
    obtain ⟨_, _, same, placedValue⟩ := rangeTarget_placed compiledValue isValue
    cases same
    rintro rfl
    exact placedKey.inside placedValue.beyond

theorem Of.declares (isLoop : loop.Of scope here labels key value isDefine subject body span lines)
    (proper : ProperIf True (Stmt.range key value isDefine subject body span).heads) :
    ∃ slots, Declares { owned := true } loop.frame slots ∧ slots ⊆ loop.stores := by
  simp only [Stmt.heads, properIf_append] at proper
  obtain ⟨⟨⟨properKey, properValue⟩, -⟩, -⟩ := proper
  obtain ⟨middle, compiledKey, compiledValue⟩ := isLoop.targets
  obtain ⟨keySlots, keyDeclares, keyStored, -, -⟩ :=
    rangeTarget_typed (optional_placeSound key properKey) compiledKey
  obtain ⟨valueSlots, valueDeclares, valueStored, -, -⟩ :=
    rangeTarget_typed (optional_placeSound value properValue) compiledValue
  refine ⟨_, (keyDeclares.trans valueDeclares).trans (rangeSlots_declares isLoop.slots), ?_⟩
  intro slot member
  rw [stores, List.filterMap_append, List.mem_append]
  rcases List.mem_append.mp (by simpa using member) with isValue | isKey
  · exact .inr (valueStored isValue)
  · exact .inl (keyStored isKey)

section Runs

variable [Natives] {observer : Observer} {course : Course True} {start now : Config True}
  {floor fuel : Nat} {env inner : EnvRef} {blocks : List EnvRef} {targets : Targets} {ctx : Ctx True}
  {level : Level} {ready : List Slot}

theorem Of.loops
    (isLoop : loop.Of ctx.scope here labels key value isDefine subject body span lines)
    (proper : ProperIf True (Stmt.range key value isDefine subject body span).heads)
    (enters : observer.Enters course ctx targets here lines start floor env blocks now)
    (typed : loop.Typed ctx.scope level) (sameFrame : level.frame = loop.frame) :
    observer.Loops course loop ctx.scope level ready ctx.lasting.layers (exiting course ctx) targets here
      start floor inner (inner :: blocks)
      (Resumes true env inner (loop.finish here) (here + lines.length)) := by
  obtain ⟨-, -, nextAt, bodyAt, stepAt, jumpAt, isClosing, isEnd⟩ :=
    isLoop.carries typed.notChan enters.carries
  obtain ⟨slots, declares, stores⟩ := isLoop.declares proper
  have lasting : ctx.lasting.layers.length = ctx.layers.length := by simp [Ctx.lasting]
  have covers : level.Covers loop.frame := sameFrame ▸ (Level.Grows.refl level).covers
  have around := enters.around_lasting
  have fits (held : List (Slot × Value)) : Fits True ({ owned := true } :: ctx.scope)
      ({ level, ready, held } :: ctx.lasting.layers) :=
    .owned rfl (declares.covers covers) (by simp) ctx.lasting.fits
  refine ⟨enters.host, typed, fits [], ctx.plain_lasting, fun held => ?_, nextAt, bodyAt, stepAt, jumpAt,
    Nat.lt_succ_of_lt around.deep, ?_, ?_, ?_⟩
  · have top : Top ({ level, ready, held } :: ctx.lasting.layers) loop.frame :=
      ⟨fun _ => ⟨_, rfl, covers⟩, fun bare => by simp [declares.owned] at bare⟩
    let bodyCtx : Ctx True := Ctx.reframe ⟨loop.frame :: ctx.scope, _,
      ((fits held).declared declares top).serves (stored_serves _ stores)⟩ rfl
      { loop.frame with loop := some ⟨true, labels⟩ } rfl rfl rfl rfl
    have serves := serves_stored loop.stores ({ level, ready, held } :: ctx.lasting.layers)
    have bodyAround : Around course.base (looping ctx.scope.length
        ({ level, ready, held } :: ctx.lasting.layers) (exiting course ctx)) bodyCtx.scope
        bodyCtx.layers := by
      refine @Around.enter_loop _ _ _ ({ loop.frame with loop := some ⟨true, labels⟩ }) _ _ around
        declares.func _ ?_ serves
      simpa [Frame.cost, declares.owned, bodyCtx, Ctx.reframe, stored] using Serves.refl _
    simp only [Stmt.heads, properIf_append] at proper
    have rebased : Around ctx.lasting.layers.length (looping ctx.scope.length
        ({ level, ready, held } :: ctx.lasting.layers) (exiting course ctx)) bodyCtx.scope
        bodyCtx.layers := bodyAround.rebase (by simp [bodyCtx, Ctx.reframe, stored])
    obtain ⟨sites, -, runs⟩ := block_settles body proper.2 bodyCtx _ _ _ _ rebased isLoop.body
    exact ⟨sites, runs.finish serves⟩
  · rintro level' kind given ⟨inside, above, below⟩
    exact ⟨Nat.ne_of_lt inside, above, by omega⟩
  · intro fuel later layers busy quiet ip
    exact .resumes enters.busy.within.env_eq (by simp) isClosing isEnd
      (fun next world isStop => enters.halts env next world (.inr (Nat.le_of_eq isStop.symm)))
      (by simpa using busy) quiet ip
  · intro fuel later left level' kind given exits quiet ip
    exact enters.exited exits.1 ip

theorem keys_inhabit {map : MapRef} {key elem mapKey mapElem : Ty}
    (inhabits : (Value.map mapKey mapElem map).Inhabits now.shape (.map key elem)) {found : Value}
    (member : found ∈ (now.world.heap.entries map).keys.map MapKey.toValue) :
    found.Inhabits now.shape key := by
  simp only [Entries.keys, List.map_map, List.mem_map, Function.comp_apply] at member
  obtain ⟨entry, isEntry, rfl⟩ := member
  refine ⟨by cases entry.1 <;> trivial, fun isStrict => ?_⟩
  have is := (now.sound.heap.entries inhabits.1 entry isEntry).1 isStrict
  rcases (inhabits.2 isStrict).eq_map with isNil | ⟨_, same⟩
  · cases isNil
  · cases same
    exact is

theorem Of.starts (isLoop : loop.Of ctx.scope here labels key value isDefine subject body span lines)
    (proper : ProperIf True (Stmt.range key value isDefine subject body span).heads)
    {out : Nat → ExitKind → List Layer → Prop} {rest : List Layer} {ends : Sight}
    (loops : observer.Loops course loop ctx.scope level ready rest out targets here start floor inner
      blocks ends)
    (startAt : course.program.instr? (here + 1) =
      some (.rangeStart loop.kind loop.keyType loop.slots loop.operand.toCode))
    (busy : course.Busy start observer.task floor inner blocks ({ level, ready } :: rest) now)
    (quiet : now.Quiet observer.task) (ip : now.world.ip inner = here + 1) :
    observer.Sees fuel inner (now.world.instr? inner) now
      (Comes inner (here + 1) (Works (Config.Others True observer.task) inner
        (fun fuel => eval (Machine.call observer.host fuel) inner loop.operand.toCode)
        fun world subject => loop.Iterates observer.host (Config.Others True observer.task) inner targets
          ctx.scope.length here world subject ends)) := by
  let spot : Spot True := ⟨course, start, observer.task, floor, inner, blocks, loops.ctx [], here + 1⟩
  have poised : spot.Poised now := ⟨busy, quiet, ip⟩
  simp only [Stmt.heads, properIf_append] at proper
  have fits : CodeFits True (loops.ctx []) loop.operand.toCode loop.type :=
    (expr_sound subject proper.1.2 (loops.ctx []) loop.operand isLoop.operand).toCode
      (Operand.type_eq_ok.mp isLoop.type)
  refine .runs (by rw [busy.within.instr?, ip, startAt]) ip fun less isLess => ?_
  have safe := (Machine.watchedCall_safe .never loops.host less).1
  have evaluates : spot.Acts (eval (Machine.call observer.host less) inner loop.operand.toCode) now _ :=
    .of_meets poised (eval_meets safe _ fits poised.hosts)
  refine @Observer.Leads.works _ _ _ _ _ _ spot _ _ _
    (fun fuel => eval (Machine.call observer.host fuel) inner loop.operand.toCode) rfl evaluates ?_
  intro found value poised _ inhabits _
  obtain ⟨first, iteration, begun, advances, quiet, busy, ipFirst, begins, known⟩ :=
    Course.Busy.begins poised.busy poised.quiet loops.typed.reserved loops.typed.ranged
      loops.typed.notChan (inhabits.2 trivial)
  obtain ⟨last, gone, further, busyLast, quietLast, shapeLast, ipLast, -⟩ :=
    (busy.calm Config.calm_measured).goto (Config.calm_measured.quiet quiet) (first.world.ip inner + 1)
  have atNext : last.world.ip inner = loop.next here := by
    rw [ipLast, ipFirst, poised.ip]
    rfl
  have ranges : loop.Ranges value found.world.heap := by
    refine ⟨inhabits.2 trivial, ?_, found.sound.heap.ascending⟩
    rintro elem ref rfl
    obtain ⟨items, present, -⟩ := found.sound.heap.slices ref elem inhabits.1
    exact (Array.getElem?_eq_some_iff.mp present).1
  have grown : found.shape.Grows first.shape := advances.grows
  refine Observer.Leads.done ((Run.bind_done begun _).trans gone)
    ((advances.trans Config.calm_measured.advances).trans further) ?_
  have later : first.measured.shape.Grows last.shape := shapeLast ▸ .refl _
  refine (loops.turns (Nat.lt_succ_self less) later ?_ ?_ busyLast quietLast atNext).mono
    fun moments halt seen => ⟨ranges, iteration, _, _, begins, seen⟩
  · rw [begins.subject]
    exact inhabits.grows grown
  · intro mapKey elem map type ref isKind isMap isKeys
    rw [begins.subject] at isMap
    subst isMap
    obtain ⟨_, _, same, isKnown⟩ := known mapKey elem map isKind rfl
    obtain ⟨-, rfl⟩ := Value.slice.inj (same.symm.trans isKeys)
    refine ⟨isKnown, fun value member => ?_⟩
    obtain ⟨_, _, same, items⟩ := begins.keys mapKey elem map isKind rfl
    obtain ⟨-, rfl⟩ := Value.slice.inj (same.symm.trans isKeys)
    have ranged := loops.typed.ranged
    rw [isKind] at ranged
    obtain ⟨mapElem, isType, -⟩ := ranged.eq_map
    rw [isType] at inhabits
    rw [items, List.mem_toArray] at member
    exact (keys_inhabit inhabits member).grows grown

theorem Of.shows {ctx : Ctx True}
    (isLoop : loop.Of ctx.scope here labels key value isDefine subject body span lines)
    (proper : ProperIf True (Stmt.range key value isDefine subject body span).heads)
    (notChan : loop.kind ≠ .chan)
    (enters : observer.Enters course ctx targets here lines start floor env blocks now) :
    observer.Sees fuel env (now.world.instr? env) now
      (loop.Evaluates observer.host (Config.Others True observer.task) here (here + lines.length) env
        fun inner => loop.Iterates observer.host (Config.Others True observer.task) inner targets
          ctx.scope.length here) := by
  obtain ⟨level, levelFrame, owned, typed, inside⟩ :=
    @Declaring.entered _ _ _ _ ctx.lasting _ _ loop.frame _ (loop.Typed ctx.scope)
      (@Declaring.empty _ here ctx.lasting.scope { owned := true }) enters.around_lasting
      fun level same => isLoop.typed proper notChan same
  obtain ⟨isOpening, startAt, -⟩ := isLoop.carries notChan enters.carries
  rw [← levelFrame] at isOpening
  refine .opens owned isOpening enters.busy_lasting enters.quiet enters.ip ?_
  intro less isLess later inner _ busy quiet ip
  have entered : entering level ctx.lasting.layers = { level } :: ctx.lasting.layers := by
    simp [entering, owned]
  rw [entered, if_pos rfl] at busy
  exact isLoop.starts proper (isLoop.loops proper enters typed levelFrame) startAt busy quiet ip

end Runs

def parts (loop : RangeLoop) (here position : Nat) : Bool :=
  loop.next here < position && position < loop.step here

section Rounds

variable (loop) (host : Host) (others : World → World → Prop) (inner : EnvRef) {ι : Type}

/-- The turns of a loop that goes over some items in their order. An item hands something out when it is
its turn, or it is passed over. -/
def Rounds (targets : Targets) (levels here : Nat) (ends : Sight)
    (hands : ι → World → Option (Value × Value) → Prop) : List ι → World → Sight
  | [], _ => ends
  | item :: rest, before => fun moments halt => ∃ handed, hands item before handed ∧
    match handed with
    | none => Rounds targets levels here ends hands rest before moments halt
    | some found => ∃ middle : World, middle.heap = before.heap ∧
      loop.Turn host others inner targets levels here ends found
        (Comes inner (loop.step here + 1) fun _ => Comes inner (loop.next here)
          (Rounds targets levels here ends hands rest)) middle moments halt

/-- A state of the iteration stands for the items that are left. -/
structure Reads (first : Heap) (hands : ι → World → Option (Value × Value) → Prop)
    (left : List ι → Iteration → Prop) : Prop where
  ended : ∀ iteration (world : World), left [] iteration → loop.Pinned iteration first world.heap →
    ∃ after, iteration.hands loop.kind world = .ok (none, after)
  turn : ∀ item rest iteration (world : World), left (item :: rest) iteration →
    loop.Pinned iteration first world.heap → ∃ handed, hands item world handed ∧
      match handed with
      | some found => ∃ after, iteration.hands loop.kind world = .ok (some found, after) ∧
        left rest after.stepped
      | none => ∃ after, left rest after ∧ loop.Pinned after first world.heap ∧
        iteration.hands loop.kind world = after.hands loop.kind world

variable {loop host others inner} {first : Heap} {hands : ι → World → Option (Value × Value) → Prop}
  {left : List ι → Iteration → Prop} {targets : Targets} {levels : Nat} {ends : Sight}

theorem Reads.handled (reads : loop.Reads first hands left) {goes : Iteration → Sight}
    {items : List ι} {iteration : Iteration} {before : World} {moments : List Moment} {halt : Halt}
    (isLeft : left items iteration) (pinned : loop.Pinned iteration first before.heap)
    (later : ∀ rest iteration moments halt, left rest iteration → goes iteration moments halt →
      Comes inner (loop.next here) (loop.Rounds host others inner targets levels here ends hands rest)
        moments halt)
    (seen : loop.Handles host others inner targets levels here ends goes iteration before moments halt) :
    loop.Rounds host others inner targets levels here ends hands items before moments halt := by
  induction items generalizing iteration with
  | nil =>
    obtain ⟨after, made⟩ := reads.ended iteration before isLeft pinned
    unfold Handles at seen
    rw [made] at seen
    exact seen
  | cons item rest ih =>
    obtain ⟨handed, isHanded, turn⟩ := reads.turn item rest iteration before isLeft pinned
    cases handed with
    | none =>
      obtain ⟨after, isLeft, pinned, same⟩ := turn
      refine ⟨none, isHanded, ih isLeft pinned ?_⟩
      unfold Handles at seen ⊢
      rwa [← same]
    | some found =>
      obtain ⟨after, made, isLeft⟩ := turn
      unfold Handles at seen
      rw [made] at seen
      obtain ⟨middle, heap, seen⟩ := seen
      refine ⟨some found, isHanded, middle, heap, seen.mono fun _ _ seen =>
        seen.mono fun _ _ _ seen => ?_⟩
      exact later rest _ _ _ isLeft seen

theorem Reads.rounds (reads : loop.Reads first hands left) {items : List ι} {iteration : Iteration}
    {rounds : Nat} {moments : List Moment} {halt : Halt} (isLeft : left items iteration)
    (seen : loop.Turns host others inner targets levels here first ends rounds iteration moments halt) :
    Comes inner (loop.next here) (loop.Rounds host others inner targets levels here ends hands items)
      moments halt := by
  induction rounds generalizing items iteration moments halt with
  | zero => exact seen.elim
  | succ rounds ih =>
    refine Comes.mono seen fun before moments halt seen => ?_
    exact reads.handled isLeft seen.1 (fun _ _ _ _ isLeft seen => ih isLeft seen) seen.2

end Rounds

section Once

variable {host : Host} {others : World → World → Prop} {inner : EnvRef} {position levels : Nat}
  {targets : Targets} {ends : Sight}

theorem avoids_delivers {target : Option Place} {value : Value} {goes : World → Sight}
    (rest : ∀ world, Avoids position (goes world)) (world : World) :
    Avoids position (Delivers host others inner target value goes world) := by
  cases target with
  | none => exact rest world
  | some place =>
    exact .works (fun _ _ => .does (fun _ _ moments halt seen => rest _ moments halt seen.2) _) _

theorem avoids_turns {first : Heap} {rounds : Nat} {iteration : Iteration}
    (before : position < loop.next here) (ending : Avoids position ends)
    (leads : ∀ level kind, level < levels → targets level kind ≠ position) :
    Avoids position
      (loop.Turns host others inner targets levels here first ends rounds iteration) := by
  induction rounds generalizing iteration with
  | zero => exact fun _ _ seen => seen.elim
  | succ rounds ih =>
    have isStep : loop.next here + 1 + loop.body.length = loop.step here := rfl
    refine .comes (Nat.ne_of_gt before) fun world moments halt seen => ?_
    obtain ⟨-, seen⟩ := seen
    unfold Handles at seen
    split at seen
    · obtain ⟨_, -, rfl, -⟩ := seen
      simp
    · exact ending moments halt seen
    · obtain ⟨middle, -, seen⟩ := seen
      have again {goes : World → Sight} (rest : ∀ world, Avoids position (goes world)) :
          Avoids position (Comes inner (loop.step here + 1) goes) := .comes (by omega) rest
      refine avoids_delivers (fun _ => avoids_delivers (fun _ => ?_) _) middle moments halt seen
      exact .passes (.inl (by unfold next at *; omega)) (by unfold step; omega)
        (fun _ => again fun _ => ih)
        (.leaving (.cycles leads ending (.comes (by omega) fun _ => again fun _ => ih)))

theorem Evaluates.once {stop : Nat} {env : EnvRef} {moments : List Moment} {halt : Halt}
    (leads : ∀ level kind, level < levels → targets level kind ≠ here + 1)
    (after : loop.finish here ≤ stop)
    (seen : loop.Evaluates host others here stop env
      (fun inner => loop.Iterates host others inner targets levels here) moments halt) :
    Once (here + 1) moments := by
  have late : here + 1 < loop.finish here := by
    unfold finish step
    omega
  refine Opens.once (Nat.le_refl _) (fun inner moments halt seen => ?_) seen
  refine seen.once fun world => .works (fun _ _ moments halt seen => ?_) world
  obtain ⟨-, _, _, _, -, seen⟩ := seen
  exact avoids_turns (Nat.lt_succ_self _) (.resumes (by omega) (by omega)) leads moments halt seen

theorem Of.evaluates [Natives] {observer : Observer} {course : Course True} {start now : Config True}
    {floor fuel : Nat} {env : EnvRef} {blocks : List EnvRef} {targets : Targets} {ctx : Ctx True}
    {going : EnvRef → World → Value → Sight → Sight}
    (isLoop : loop.Of ctx.scope here labels key value isDefine subject body span lines)
    (proper : ProperIf True (Stmt.range key value isDefine subject body span).heads)
    (notChan : loop.kind ≠ .chan)
    (enters : observer.Enters course ctx targets here lines start floor env blocks now)
    (implies : ∀ inner world subject ends moments halt, Few (loop.parts here) 2 ends →
      loop.Iterates observer.host (Config.Others True observer.task) inner targets ctx.scope.length here
        world subject ends moments halt → going inner world subject ends moments halt) :
    observer.Watches fuel env (now.world.instr? env) now fun moments halt =>
      loop.Evaluates observer.host (Config.Others True observer.task) here (here + lines.length) env going
        moments halt ∧
      Once (here + 1) moments ∧ observer.Settles fuel moments halt := by
  obtain ⟨-, -, -, -, -, -, -, isEnd⟩ := isLoop.carries notChan enters.carries
  refine ((isLoop.shows proper notChan enters).settles.mono fun moments halt ⟨seen, settles⟩ =>
    ⟨?_, Evaluates.once (fun level kind inside => ?_) (by omega) seen, settles⟩).watches
  · refine Comes.mono seen fun _ _ _ ⟨inner, isNew, seen⟩ =>
      ⟨inner, isNew, seen.mono fun _ _ _ seen => ?_⟩
    exact seen.mono fun _ _ _ _ seen => implies _ _ _ _ _ _ .resumes seen
  · have outside := enters.leads level kind inside
    unfold finish step at isEnd
    omega

end Once

end RangeLoop

end Compile

end MiniGo
