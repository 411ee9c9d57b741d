import MiniGo.Proofs.Denotation
import MiniGo.Proofs.Soundness
import MiniGo.Proofs.Stores
/-!
Assignments, definitions and returns are parallel: all that they store is found out before any of it is
stored. Values can therefore be exchanged without a variable of their own.
-/

namespace MiniGo

variable {outer : Scope} {frame : Frame} {here : Nat} {labels : List String} {lhs nodes : List Expr}
  {span : Span} {piece : Piece}

namespace Compile

theorem assign_lines
    (compiled : stmt outer frame here labels (.assign lhs .assign nodes span) = .ok piece) :
    ∃ found given values, places (frame :: outer) lhs = .ok found ∧
      rhs (frame :: outer) lhs.length span nodes = .ok given ∧
      given.toValues (found.map Place.type?) span = .ok values ∧
      piece.lines = [⟨.assign found values, span⟩] := by
  simp only [stmt, assign, Compiled.bind_eq_ok, Compiled.pure_eq_ok] at compiled
  obtain ⟨found, compiledPlaces, given, compiledRhs, _, ⟨values, toValues, rfl⟩, rfl⟩ := compiled
  rw [places_length compiledPlaces] at compiledRhs
  exact ⟨found, given, values, compiledPlaces, compiledRhs, toValues, rfl⟩

theorem define_lines
    (compiled : stmt outer frame here labels (.assign lhs .define nodes span) = .ok piece) :
    ∃ given types definition values, rhs (frame :: outer) lhs.length span nodes = .ok given ∧
      given.types = .ok types ∧ Definition.addAll { frame } lhs types = .ok definition ∧
      given.toValues definition.targets span = .ok values ∧
      piece.lines = [⟨.assign definition.places values, span⟩] := by
  simp only [stmt, define, Compiled.bind_eq_ok] at compiled
  obtain ⟨given, compiledRhs, types, areTypes, definition, added, compiled⟩ := compiled
  split at compiled
  · simp at compiled
  · simp only [Compiled.bind_eq_ok, Compiled.pure_eq_ok] at compiled
    obtain ⟨values, toValues, rfl⟩ := compiled
    exact ⟨given, types, definition, values, compiledRhs, areTypes, added, toValues, rfl⟩

theorem ret_lines (some : nodes ≠ [])
    (compiled : stmt outer frame here labels (.ret nodes span) = .ok piece) :
    ∃ hops info given values, enclosing (frame :: outer) .ret span = .ok (hops, info) ∧
      operands (frame :: outer) (fun _ => pure) none nodes = .ok given ∧
      returnAll info.results given span = .ok values ∧
      piece.lines = [⟨.ret hops info.results values, span⟩] := by
  simp only [stmt, Compiled.bind_eq_ok, Prod.exists] at compiled
  obtain ⟨hops, info, found, compiled⟩ := compiled
  split at compiled
  · rename_i isEmpty
    exact absurd (List.isEmpty_iff.mp isEmpty) some
  · simp only [returnValues, Compiled.bind_eq_ok, Compiled.pure_eq_ok] at compiled
    obtain ⟨given, compiledGiven, _, ⟨values, returned, rfl⟩, rfl⟩ := compiled
    exact ⟨hops, info, given, values, found, compiledGiven, returned, rfl⟩

section Exchanges

variable {operand : Operand} {operands : List Operand} {target : Ty} {codes : List Code}

theorem toCode_convertTo (plain : operand.const? = none ∨ target ≠ .float) {result : Operand}
    (converted : operand.convertTo target = .ok result) : result.toCode = operand.toCode := by
  obtain ⟨_, -, ⟨-, rfl⟩ | ⟨-, isFloat, value, isConst, -⟩⟩ := Operand.convertTo_eq_ok converted
  · rfl
  · simp [Operand.const?, isConst, isFloat] at plain

theorem convertTargets_codes {targets : List (Option Ty)}
    (notConst : ∀ operand ∈ operands, operand.const? = none)
    (length : operands.length = targets.length)
    (converted : Rhs.convertTargets operands targets = .ok codes) :
    codes = operands.map Operand.toCode := by
  induction operands generalizing targets codes with
  | nil =>
    simp only [Rhs.convertTargets, Compiled.pure_eq_ok] at converted
    exact converted.symm
  | cons operand operands ih =>
    obtain ⟨first, others⟩ := List.forall_mem_cons.mp notConst
    cases targets with
    | nil => cases length
    | cons target targets =>
      cases target with
      | none =>
        simp only [Rhs.convertTargets, Compiled.bind_eq_ok] at converted
        obtain ⟨_, -, converted⟩ := converted
        split at converted
        · simp at converted
        · simp only [Compiled.bind_eq_ok, Compiled.pure_eq_ok] at converted
          obtain ⟨codes, converted, rfl⟩ := converted
          rw [ih others (Nat.succ.inj length) converted, List.map_cons]
      | some target =>
        simp only [Rhs.convertTargets, Compiled.bind_eq_ok, Compiled.pure_eq_ok] at converted
        obtain ⟨result, convertedFirst, codes, converted, rfl⟩ := converted
        rw [ih others (Nat.succ.inj length) converted, List.map_cons,
          toCode_convertTo (.inl first) convertedFirst]

theorem convertAll_codes {types : List Ty} (notConst : ∀ operand ∈ operands, operand.const? = none)
    (length : operands.length = types.length)
    (converted : Invoke.convertAll operands types = .ok codes) :
    codes = operands.map Operand.toCode := by
  induction operands generalizing types codes with
  | nil =>
    simp only [Invoke.convertAll, Compiled.pure_eq_ok] at converted
    exact converted.symm
  | cons operand operands ih =>
    obtain ⟨first, others⟩ := List.forall_mem_cons.mp notConst
    cases types with
    | nil => cases length
    | cons type types =>
      simp only [Invoke.convertAll, Compiled.bind_eq_ok, Compiled.pure_eq_ok] at converted
      obtain ⟨result, convertedFirst, codes, converted, rfl⟩ := converted
      rw [ih others (Nat.succ.inj length) converted, List.map_cons,
        toCode_convertTo (.inl first) convertedFirst]

variable {scope : Scope} {left right : Ident}

theorem ofIdent_eq_slot {hops : Nat} {named : Slot} {operand : Operand}
    (isVar : scope.lookup left.name = some (hops, .var named))
    (isValue : Operand.ofIdent scope left = .ok operand) :
    operand = .single named.type (.load hops named) left.span := by
  unfold Operand.ofIdent at isValue
  split at isValue
  · simp at isValue
  · rw [isVar] at isValue
    exact (Compiled.pure_eq_ok.mp isValue).symm

theorem ident_eq_slot {found : Place} {operand : Operand}
    (isPlace : place scope (.ident left) = .ok found)
    (isValue : expr scope (.ident left) = .ok operand) :
    ∃ hops named, scope.lookup left.name = some (hops, .var named) ∧ found = .slot hops named ∧
      operand = .single named.type (.load hops named) left.span := by
  simp only [place, identPlace] at isPlace
  simp only [expr] at isValue
  split at isPlace
  · rename_i blank
    simp [Operand.ofIdent, blank] at isValue
  · split at isPlace <;> simp at isPlace
    rename_i hops named isVar
    exact ⟨hops, named, isVar, isPlace.symm, ofIdent_eq_slot isVar isValue⟩

theorem pair_lines {first second third fourth : Expr}
    (compiled : stmt outer frame here labels (.assign [first, second] .assign [third, fourth] span) =
      .ok piece) :
    ∃ place₁ place₂ operand₁ operand₂ codes, place (frame :: outer) first = .ok place₁ ∧
      place (frame :: outer) second = .ok place₂ ∧ expr (frame :: outer) third = .ok operand₁ ∧
      expr (frame :: outer) fourth = .ok operand₂ ∧
      Rhs.convertTargets [operand₁, operand₂] [place₁.type?, place₂.type?] = .ok codes ∧
      piece.lines = [⟨.assign [place₁, place₂] (.each codes), span⟩] := by
  obtain ⟨found, given, values, compiledPlaces, compiledRhs, toValues, lines⟩ := assign_lines compiled
  simp only [places, Compiled.bind_eq_ok, Compiled.pure_eq_ok] at compiledPlaces
  obtain ⟨place₁, isFirst, _, ⟨place₂, isSecond, _, rfl, rfl⟩, rfl⟩ := compiledPlaces
  simp only [rhs, List.length_cons, List.length_nil, ne_eq, not_true_eq_false, if_false, Compile.operands,
    Compiled.bind_eq_ok, Compiled.pure_eq_ok] at compiledRhs
  obtain ⟨operand₁, isThird, _, ⟨operand₂, isFourth, _, rfl, _, rfl, rfl⟩, rfl⟩ := compiledRhs
  simp only [Rhs.toValues, Compiled.bind_eq_ok, Compiled.pure_eq_ok] at toValues
  obtain ⟨codes, converted, rfl⟩ := toValues
  exact ⟨place₁, place₂, operand₁, operand₂, codes, isFirst, isSecond, isThird, isFourth, converted,
    lines⟩

theorem exchange_lines (compiled : stmt outer frame here labels
      (.assign [.ident left, .ident right] .assign [.ident right, .ident left] span) = .ok piece) :
    ∃ hops named hops' named', Scope.lookup (frame :: outer) left.name = some (hops, .var named) ∧
      Scope.lookup (frame :: outer) right.name = some (hops', .var named') ∧
      piece.lines = [⟨.assign [.slot hops named, .slot hops' named']
        (.each [.load hops' named', .load hops named]), span⟩] := by
  obtain ⟨_, _, _, _, codes, isFirst, isSecond, isThird, isFourth, converted, lines⟩ :=
    pair_lines compiled
  obtain ⟨hops, named, isLeft, rfl, rfl⟩ := ident_eq_slot isFirst isFourth
  obtain ⟨hops', named', isRight, rfl, rfl⟩ := ident_eq_slot isSecond isThird
  obtain rfl := convertTargets_codes (by simp [Operand.const?, Operand.single]) rfl converted
  exact ⟨hops, named, hops', named', isLeft, isRight, lines⟩

variable {base index index' : Expr} {elem : Ty}

theorem element_eq_item {indexSpan indexSpan' : Span} {found : Place} {operand container : Operand}
    (isBase : expr scope base = .ok container) (isSlice : container.types = [.slice elem])
    (isPlace : place scope (.index base index indexSpan) = .ok found)
    (isValue : expr scope (.index base index indexSpan') = .ok operand) :
    ∃ position, expr scope index = .ok position ∧
      found = .element (.slice elem) container.toCode position.toCode ∧
      operand = .single elem (.sliceIndex container.toCode position.toCode) indexSpan' := by
  have isType := Operand.type_eq_ok.mpr isSlice
  simp only [place, isBase, isType, Compiled.bind_eq_ok, Except.ok.injEq, exists_eq_left',
    elementIndexType, Compiled.pure_eq_ok] at isPlace
  simp only [expr, isBase, isType, Compiled.bind_eq_ok, Except.ok.injEq, exists_eq_left',
    Operand.indexType, Compiled.pure_eq_ok, Operand.element] at isValue
  obtain ⟨position, isPosition, code, converted, rfl⟩ := isPlace
  obtain ⟨position', isPosition', code', converted', rfl⟩ := isValue
  obtain rfl := Except.ok.inj (isPosition.symm.trans isPosition')
  rw [toCode_convertTo (.inr (by simp)) converted, toCode_convertTo (.inr (by simp)) converted']
  exact ⟨position, isPosition, rfl, rfl⟩

theorem exchange_items_lines {span₁ span₂ span₃ span₄ : Span} {container : Operand}
    (isBase : expr (frame :: outer) base = .ok container) (isSlice : container.types = [.slice elem])
    (compiled : stmt outer frame here labels
      (.assign [.index base index span₁, .index base index' span₂] .assign
        [.index base index' span₃, .index base index span₄] span) = .ok piece) :
    ∃ position position', expr (frame :: outer) index = .ok position ∧
      expr (frame :: outer) index' = .ok position' ∧
      piece.lines = [⟨.assign
        [.element (.slice elem) container.toCode position.toCode,
          .element (.slice elem) container.toCode position'.toCode]
        (.each [.sliceIndex container.toCode position'.toCode,
          .sliceIndex container.toCode position.toCode]), span⟩] := by
  obtain ⟨_, _, _, _, codes, isFirst, isSecond, isThird, isFourth, converted, lines⟩ :=
    pair_lines compiled
  obtain ⟨position, isIndex, rfl, rfl⟩ := element_eq_item isBase isSlice isFirst isFourth
  obtain ⟨position', isIndex', rfl, rfl⟩ := element_eq_item isBase isSlice isSecond isThird
  obtain rfl := convertTargets_codes (by simp [Operand.const?, Operand.single]) rfl converted
  exact ⟨position, position', isIndex, isIndex', lines⟩

theorem exchange_results_lines {hops : Nat} {named named' : Slot} {isNamed : Bool}
    (isFunction : enclosing (frame :: outer) .ret span = .ok (hops, ⟨[named, named'], isNamed⟩))
    (isLeft : Scope.lookup (frame :: outer) left.name = some (hops, .var named))
    (isRight : Scope.lookup (frame :: outer) right.name = some (hops, .var named'))
    (compiled : stmt outer frame here labels (.ret [.ident right, .ident left] span) = .ok piece) :
    piece.lines =
      [⟨.ret hops [named, named'] (.each [.load hops named', .load hops named]), span⟩] := by
  obtain ⟨_, _, given, values, found, compiledGiven, returned, lines⟩ := ret_lines (by simp) compiled
  cases isFunction.symm.trans found
  simp only [Compile.operands, Compiled.bind_eq_ok, Compiled.pure_eq_ok, expr] at compiledGiven
  obtain ⟨first, isFirst, _, rfl, _, ⟨second, isSecond, _, rfl, _, rfl, rfl⟩, rfl⟩ := compiledGiven
  obtain rfl := ofIdent_eq_slot isRight isFirst
  obtain rfl := ofIdent_eq_slot isLeft isSecond
  simp only [returnAll, returnSeparate, List.length_cons, List.length_nil, ne_eq, not_true_eq_false,
    if_false, Compiled.bind_eq_ok, Compiled.pure_eq_ok] at returned
  obtain ⟨codes, converted, rfl⟩ := returned
  obtain rfl := convertAll_codes (by simp [Operand.const?, Operand.single]) rfl converted
  exact lines

end Exchanges

end Compile

section Running

variable [Natives] {strict : Prop} {now : Config strict} {task : ThreadRef} {env : EnvRef}
  {call : Caller} {fuel : Nat}

/-- A task is about to run an instruction of a call in progress. -/
structure Config.About (now : Config strict) (task : ThreadRef) (env : EnvRef) (instr : Instr) :
    Prop where
  quiet : now.Quiet task
  place : ∃ (activation : Activation strict) (blocks : List EnvRef) (layers : List Layer),
    now.shape.Owns task activation.thread ∧ activation.Within now env blocks layers ∧
      activation.Lands (now.world.ip env) layers
  instr : now.world.instr? env = some instr

theorem Course.Stage.about {activation : Activation strict} {start : Config strict}
    {floor : Nat} {blocks : List EnvRef} {layers : List Layer} {instr : Instr}
    (stage : activation.Stage task env layers now (some instr))
    (busy : activation.Busy start task floor env blocks layers now) : now.About task env instr := by
  obtain ⟨quiet, lands, isNext⟩ := stage.running_of_some
  exact ⟨quiet, ⟨activation, blocks, layers, busy.own, busy.within, lands⟩, isNext⟩

/-- A task that enters a function of a file, one that takes and gives nothing, is about to run its first
instruction. -/
theorem CompiledFile.exists_about (foreign : ∀ index, Natives.signature? index = none)
    {source : SourceFile} {natives : List (String × Signature)} {file : CompiledFile}
    {template : Template} {instr : Instr} (proper : ∀ head ∈ source.heads, head.Proper)
    (compiled : Compile.file source natives = .ok file) (member : template ∈ file.functions)
    (takes : template.params = []) (gives : template.results = [])
    (first : Program.instr? template.program 0 = some instr) :
    ∃ (now : Config True) (task : ThreadRef) (env : EnvRef), now.About task env instr := by
  obtain ⟨fileLevel, typed, ctx, layers, functions⟩ :=
    @Compile.functions_typed True _ _ _ (fun _ => proper) compiled
  obtain ⟨interpreter, start, outer, sound, holds⟩ := typed.exists_holds (by simp [foreign])
  obtain ⟨started, same, calm, -, ctx, isTyped, spans⟩ :=
    (CompiledFile.Calls.declared member).known typed layers functions holds
  cases isTyped with
  | @mk _ _ _ _ _ level positions exit compiled laid _ _ _ _ _ length entry instrs =>
    have quiet := calm.quiet sound.quiet
    have older : ∀ ref, some outer = some ref → ref.index < started.world.envs.size := by
      rintro _ ⟨⟩
      obtain ⟨known, found⟩ := spans.known
      obtain ⟨-, there, present, -⟩ := started.sound.envs _ known found
      exact (Array.getElem?_eq_some_iff.mp present).1
    obtain ⟨now, -, acquired, isEnv, ip, -⟩ := started.acquire template.program 0 level
      (started.owner_isSome quiet.isTask (.inl rfl)) older
    let activation : Activation True :=
      ⟨⟨interpreter.thread, ⟨started.world.envs.size⟩, template.program, ctx.lasting.layers.length, _⟩,
        positions, exit, rfl, .function compiled laid, length, instrs⟩
    simp only [takes, gives, List.filterMap_nil, List.append_nil] at entry
    have within : activation.Within now activation.root [] ({ level } :: ctx.lasting.layers) :=
      .root isEnv rfl rfl ⟨rfl, by simp, by simp, by simp⟩ (spans.lasting.grows acquired.grows)
        (by simp [Ctx.lasting, Layer.lasting]) rfl
    have busy : activation.Busy now interpreter.thread 0 activation.root []
        ({ level } :: ctx.lasting.layers) now :=
      ⟨.refl _ _ _, .inl rfl, Nat.zero_le _, within, by simp, by simp⟩
    have lands : activation.Lands (now.world.ip activation.root) ({ level } :: ctx.lasting.layers) :=
      ip.symm ▸ entry
    have stage : activation.Stage interpreter.thread activation.root ({ level } :: ctx.lasting.layers)
        now (now.world.instr? activation.root) := .running (acquired.quiet quiet) lands
    have isFirst : now.world.instr? activation.root = some instr := by
      rw [within.instr?, ip]
      exact first
    exact ⟨now, interpreter.thread, activation.root, (isFirst ▸ stage).about busy⟩

theorem Config.About.typed {instr : Instr} (about : now.About task env instr) :
    ∃ (activation : Activation strict) (here : Ctx strict), now.Hosts task 0 env here.layers ∧
      InstrTyped strict activation.base activation.Lands (fun _ _ _ => False) (now.world.ip env) here
        instr := by
  obtain ⟨activation, blocks, layers, own, within, lands⟩ := about.place
  have isInstr := about.instr
  rw [within.instr?] at isInstr
  obtain ⟨here, -, serves, typed⟩ := activation.instr_typed lands isInstr
  obtain ⟨known, found, -, thread⟩ := within.known
  have hosts : now.Hosts task 0 env layers :=
    ⟨about.quiet, within.spans, ⟨known, found, thread ▸ own⟩, Nat.zero_le _⟩
  exact ⟨activation, here, hosts.serves serves, typed⟩

theorem Config.About.assign_meets {places : List Place} {values : Values} (safe : call.Safe strict)
    (about : now.About task env (.assign places values)) :
    (Step.assigned call env places values).Meets now task 0 fun before stores =>
      Location.Fit before.shape places.length stores := by
  obtain ⟨activation, here, hosts, typed⟩ := about.typed
  cases typed with
  | assign placesTyped typed storesTo =>
    exact Step.assigned_meets safe placesTyped typed storesTo hosts

theorem Config.About.ret_meets {hops : Nat} {results : List Slot} {values : Values}
    (safe : call.Safe strict) (about : now.About task env (.ret hops results values)) :
    (Step.returned call env hops results values).Meets now task 0 fun before stores =>
      Location.Fit before.shape results.length stores := by
  obtain ⟨activation, here, hosts, typed⟩ := about.typed
  cases typed with
  | ret isLayer shared typed assignable =>
    exact Step.returned_meets safe isLayer shared typed assignable hosts

end Running

section Contents

variable {world after : World}

theorem Location.content_congr (loads : ∀ ref slot, after.load ref slot = world.load ref slot)
    (heap : after.heap = world.heap) (location : Location) :
    location.content after = location.content world := by
  cases location with
  | slot ref named => exact congrArg Except.ok (loads ref named)
  | _ => simp only [content, heap]

def Step.Concludes (finish : Run Next) : Prop :=
  ∀ world, ∃ next after, finish world = .done next after ∧
    ∀ location : Location, location.content after = location.content world

theorem Step.advance_concludes (env : EnvRef) : Concludes (advance env) := fun world =>
  ⟨_, _, rfl, Location.content_congr (World.load_updateEnv_of_slots world env fun _ => rfl) rfl⟩

theorem Step.interrupt_concludes (env : EnvRef) (signal : Signal) : Concludes (interrupt env signal) :=
  fun _ => ⟨_, _, rfl, Location.content_congr (fun _ _ => rfl) rfl⟩

end Contents

def Location.IsCell : Location → Prop
  | .slot _ _ | .item _ _ => True
  | _ => False

namespace Location.IsCell

variable {location other : Location} {world : World} {held : Value}

theorem isSame_self (cell : location.IsCell) : location.isSame location = true := by
  cases location with
  | slot ref named => simp [isSame]
  | item ref index => simp [isSame]
  | _ => cases cell

theorem eq_of_isSame {strict : Prop} {shape : Shape strict} {target target' : Option Ty}
    (cell : location.IsCell) (sound : location.Sound shape target) (sound' : other.Sound shape target')
    (same : location.isSame other = true) : location = other := by
  cases location with
  | slot ref named =>
    cases other with
    | slot ref' named' =>
      simp only [isSame, Bool.and_eq_true, beq_iff_eq] at same
      obtain ⟨⟨rfl, slotClass⟩, index⟩ := same
      rw [sound.slot_inj sound' slotClass index]
    | _ => cases same
  | item ref index =>
    cases other with
    | item ref' index' =>
      simp only [isSame, Bool.and_eq_true, beq_iff_eq] at same
      obtain ⟨rfl, rfl⟩ := same
      rfl
    | _ => cases same
  | _ => cases cell

theorem exists_put (cell : location.IsCell) (holds : location.content world = .ok held)
    (value : Value) : ∃ after, location.put value world = .ok after := by
  cases location with
  | slot ref named => exact ⟨_, rfl⟩
  | item ref index =>
    obtain ⟨position, inside, -⟩ := Except.bind_eq_ok.mp holds
    simp only [put, Heap.setItem, inside]
    exact ⟨_, rfl⟩
  | _ => cases cell

end Location.IsCell

section Exchanging

variable [Natives] {strict : Prop} {now : Config strict} {task : ThreadRef} {call : Caller}

theorem Run.Meets.exchange {count : Nat} {prepare : Run (List (Location × Value))}
    {finish : Run Next} {first second : Location} {left right : Value}
    (meets : prepare.Meets now task 0 fun before stores => Location.Fit before.shape count stores)
    (done : prepare now.world = .done [(first, right), (second, left)] now.world)
    (cell : first.IsCell) (holds : first.content now.world = .ok left)
    (keeps : first.kept right = right) (cell' : second.IsCell)
    (holds' : second.content now.world = .ok right) (keeps' : second.kept left = left)
    (concludes : Step.Concludes finish) :
    ∃ next after, (do
        let stores ← prepare
        Location.storeEach stores
        finish : Run Next) now.world = .done next after ∧
      first.content after = .ok right ∧ second.content after = .ok left := by
  unfold Run.Meets at meets
  rw [done] at meets
  obtain ⟨before, same, -, -, quiet, fit⟩ := meets
  obtain ⟨target, sound, -⟩ := fit.sound (first, right) (.head _)
  obtain ⟨target', sound', -⟩ := fit.sound (second, left) (.tail _ (.head _))
  obtain ⟨count, after, -, shows, ends⟩ := Config.commits quiet fit.sound
  rw [same] at ends
  have one : second.isSame first = true → left = right := by
    intro isSame
    obtain rfl := cell'.eq_of_isSame sound' sound isSame
    exact Except.ok.inj (holds.symm.trans holds')
  have firstShows := shows first target sound
  have secondShows := shows second target' sound'
  rw [same] at firstShows secondShows
  rcases ends with ⟨rfl, stored⟩ | ⟨location, value, error, found, failed, -⟩
  · obtain ⟨next, last, finishes, same⟩ := concludes after
    refine ⟨next, last, ?_, (same first).trans (firstShows.trans ?_),
      (same second).trans (secondShows.trans ?_)⟩
    · rw [Run.bind_done done, Run.bind_done stored, finishes]
    · simp only [List.take_length, Location.last?, Option.none_or, cell.isSame_self, if_true]
      cases isSame : second.isSame first with
      | true => simp [← one isSame, one isSame ▸ keeps]
      | false => simp [keeps]
    · simp [Location.last?, cell'.isSame_self, keeps']
  · have firstStill : ∃ held, first.content after = .ok held := by
      split at firstShows
      · exact ⟨_, firstShows⟩
      · exact ⟨left, firstShows.trans holds⟩
    have secondStill : ∃ held, second.content after = .ok held := by
      split at secondShows
      · exact ⟨_, secondShows⟩
      · exact ⟨right, secondShows.trans holds'⟩
    have isCell : location.IsCell ∧ ∃ held, location.content after = .ok held := by
      rcases List.mem_pair.mp (List.mem_of_getElem? found) with same | same
      · cases same
        exact ⟨cell, firstStill⟩
      · cases same
        exact ⟨cell', secondStill⟩
    obtain ⟨held, holds⟩ := isCell.2
    obtain ⟨stored, isStored⟩ := isCell.1.exists_put holds value
    cases failed.symm.trans isStored

omit [Natives] in
theorem Ty.eq_of_assignable {source target : Ty} (assignable : source.assignableTo target = true)
    (scalar : target.isScalar = true) : source = target := by
  cases target <;> cases source <;> simp_all [Ty.isScalar, Ty.assignableTo, Ty.isNillable]

theorem Location.Sound.keeps_load {ref ref' : EnvRef} {named named' : Slot} {target target' : Option Ty}
    (sound : (slot ref named).Sound now.shape target)
    (sound' : (slot ref' named').Sound now.shape target')
    (assignable : named'.type.assignableTo named.type = true) :
    named.kept (now.world.load ref' named') = now.world.load ref' named' := by
  obtain ⟨-, known, found, shared⟩ := sound
  obtain ⟨-, known', found', shared'⟩ := sound'
  unfold Slot.kept
  split <;> rename_i slotClass
  · rfl
  · have scalar := shared.1.scalar slotClass
    have same := Ty.eq_of_assignable assignable scalar
    have isWord : named'.slotClass = .word := by
      cases isObject : named'.slotClass with
      | word => rfl
      | object => cases (shared'.1.boxed isObject).symm.trans (same ▸ scalar)
    obtain ⟨-, there, isThere, -⟩ := now.sound.envs ref' known' found'
    simp only [World.load, isThere, Slots.load, isWord, same]
    exact Value.Is.ofBits_toBits (Value.ofBits_is _ scalar) scalar

omit [Natives] in
theorem PlacesTyped.targets_eq {ctx : Ctx strict} {places : List Place} {targets : List (Option Ty)}
    (typed : PlacesTyped strict ctx places targets) : targets = places.map Place.type? := by
  induction places generalizing targets with
  | nil => cases typed; rfl
  | cons place places ih =>
    cases typed with
    | cons first rest => rw [List.map_cons, first.type_eq, ← ih rest]
    | fresh _ _ rest => rw [ih rest]; rfl

theorem PlacesTyped.slot_sound {ctx : Ctx strict} {places : List Place} {targets : List (Option Ty)}
    {env : EnvRef} {hops : Nat} {named : Slot} (typed : PlacesTyped strict ctx places targets)
    (hosts : now.Hosts task 0 env ctx.layers) (member : .slot hops named ∈ places) :
    (Location.slot (now.world.up env hops) named).Sound now.shape (some named.type) := by
  induction places generalizing targets with
  | nil => cases member
  | cons place places ih =>
    cases typed with
    | cons first rest =>
      rcases List.mem_cons.mp member with rfl | member
      · cases first with
        | known found => exact (Location.slot_sound hosts found).1
      · exact ih rest member
    | @fresh _ other layer name _ _ found isNamed rest =>
      rcases List.mem_cons.mp member with same | member
      · cases same
        obtain ⟨known, isKnown, level, -, -⟩ := now.up_spec hosts.spans found
        exact ⟨rfl, known, isKnown, level ▸ layer.level.named name named isNamed⟩
      · exact ih rest member

omit [Natives] in
theorem CodeFits.load_assignable {ctx : Ctx strict} {hops : Nat} {named : Slot} {type : Ty}
    (fits : CodeFits strict ctx (.load hops named) type) : named.type.assignableTo type = true := by
  cases fits with
  | of typed assignable =>
    cases typed with
    | load _ => exact assignable

variable {env : EnvRef} {fuel : Nat}

theorem Config.About.exchange_slots {hops hops' : Nat} {named named' : Slot} (safe : call.Safe strict)
    (about : now.About task env (.assign [.slot hops named, .slot hops' named']
      (.each [.load hops' named', .load hops named]))) :
    ∃ next after, Step.run call fuel env (.assign [.slot hops named, .slot hops' named']
        (.each [.load hops' named', .load hops named])) now.world = .done next after ∧
      after.load (now.world.up env hops) named = now.world.load (now.world.up env hops') named' ∧
      after.load (now.world.up env hops') named' = now.world.load (now.world.up env hops) named := by
  have meets := about.assign_meets safe
  obtain ⟨activation, here, hosts, typed⟩ := about.typed
  cases typed with
  | assign placesTyped typed storesTo =>
    have sound := placesTyped.slot_sound hosts (.head _)
    have sound' := placesTyped.slot_sound hosts (.tail _ (.head _))
    obtain rfl := placesTyped.targets_eq
    cases typed with
    | each fit =>
      obtain ⟨⟩ | ⟨first, ⟨⟩ | ⟨second, -⟩⟩ := fit
      obtain ⟨⟩ | ⟨stored, ⟨⟩ | ⟨stored', -⟩⟩ := storesTo
      have assignable := Ty.assignableTo_trans first.load_assignable (stored _ rfl)
      have assignable' := Ty.assignableTo_trans second.load_assignable (stored' _ rfl)
      obtain ⟨next, after, done, holds, holds'⟩ := meets.exchange rfl trivial rfl
        (sound.keeps_load sound' assignable) trivial rfl (sound'.keeps_load sound assignable')
        (Step.advance_concludes env)
      rw [Step.run_assign]
      exact ⟨next, after, done, Except.ok.inj holds, Except.ok.inj holds'⟩

theorem Config.About.exchange_results {hops : Nat} {named named' : Slot} (safe : call.Safe strict)
    (about : now.About task env
      (.ret hops [named, named'] (.each [.load hops named', .load hops named]))) :
    ∃ next after, Step.run call fuel env
        (.ret hops [named, named'] (.each [.load hops named', .load hops named])) now.world =
          .done next after ∧
      after.load (now.world.up env hops) named = now.world.load (now.world.up env hops) named' ∧
      after.load (now.world.up env hops) named' = now.world.load (now.world.up env hops) named := by
  have meets := about.ret_meets safe
  obtain ⟨activation, here, hosts, typed⟩ := about.typed
  cases typed with
  | ret isLayer shared typed assignable =>
    obtain ⟨known, isKnown, level, -⟩ := now.up_spec hosts.spans isLayer
    have sound {slot : Slot} (member : slot ∈ [named, named']) :
        (Location.slot (now.world.up env hops) slot).Sound now.shape (some slot.type) :=
      ⟨rfl, known, isKnown, level ▸ shared slot member⟩
    cases typed with
    | each fit =>
      obtain ⟨⟩ | ⟨first, ⟨⟩ | ⟨second, -⟩⟩ := fit
      obtain ⟨⟩ | ⟨stored, ⟨⟩ | ⟨stored', -⟩⟩ := assignable
      have assignable := Ty.assignableTo_trans first.load_assignable stored
      have assignable' := Ty.assignableTo_trans second.load_assignable stored'
      have isFirst := sound (.head _)
      have isSecond := sound (.tail _ (.head _))
      obtain ⟨next, after, done, holds, holds'⟩ := meets.exchange rfl trivial rfl
        (isFirst.keeps_load isSecond assignable) trivial rfl
        (isSecond.keeps_load isFirst assignable') (Step.interrupt_concludes env .ret)
      rw [Step.run_ret]
      exact ⟨next, after, done, Except.ok.inj holds, Except.ok.inj holds'⟩

omit [Natives] in
theorem Location.ofPlaces_steady {world : World} {places : List Place} {locations : List Location}
    (steady : List.Forall₂ (fun place location =>
      ofPlace call env place world = .done location world) places locations) :
    ofPlaces call env places world = .done locations world := by
  induction steady with
  | nil => rfl
  | cons first _ ih =>
    rw [ofPlaces, Run.bind_done first, Run.bind_done ih]
    rfl

omit [Natives] in
theorem evalAll_steady {world : World} {codes : List Code} {values : List Value}
    (steady : List.Forall₂ (fun code value => eval call env code world = .done value world) codes
      values) : evalAll call env codes world = .done values world := by
  induction steady with
  | nil => rfl
  | cons first _ ih =>
    rw [evalAll, Run.bind_done first, Run.bind_done ih]
    rfl

theorem Config.About.exchange_items {elem elem' : Ty} {base index index' : Code} {ref : SliceRef}
    {position position' : Int64} {held held' : Value} (safe : call.Safe strict)
    (about : now.About task env (.assign
      [.element (.slice elem) base index, .element (.slice elem) base index']
      (.each [.sliceIndex base index', .sliceIndex base index])))
    (isBase : eval call env base now.world = .done (.slice elem' ref) now.world)
    (isIndex : eval call env index now.world = .done (.int position) now.world)
    (isIndex' : eval call env index' now.world = .done (.int position') now.world)
    (holds : now.world.heap.item ref position = .ok held)
    (holds' : now.world.heap.item ref position' = .ok held') :
    ∃ next after, Step.run call fuel env (.assign
        [.element (.slice elem) base index, .element (.slice elem) base index']
        (.each [.sliceIndex base index', .sliceIndex base index])) now.world = .done next after ∧
      after.heap.item ref position = .ok held' ∧ after.heap.item ref position' = .ok held := by
  have place {index : Code} {position : Int64}
      (isIndex : eval call env index now.world = .done (.int position) now.world) :
      Location.ofPlace call env (.element (.slice elem) base index) now.world =
        .done (.item ref position) now.world := by
    rw [Location.ofPlace, Run.bind_done isBase, Run.bind_done isIndex]
    rfl
  have value {index : Code} {position : Int64} {held : Value}
      (isIndex : eval call env index now.world = .done (.int position) now.world)
      (holds : now.world.heap.item ref position = .ok held) :
      eval call env (.sliceIndex base index) now.world = .done held now.world := by
    have integer : Run.asInt (.int position) now.world = .done position now.world := rfl
    rw [eval, Run.bind_done isIndex, Run.bind_done integer, Run.bind_done isBase, Run.sliceItem]
    simp only [Run.tryRead, holds]
  have places := Location.ofPlaces_steady (.cons (place isIndex) (.cons (place isIndex') .nil))
  have values := evalAll_steady (.cons (value isIndex' holds') (.cons (value isIndex holds) .nil))
  have done : Step.assigned call env
      [.element (.slice elem) base index, .element (.slice elem) base index']
      (.each [.sliceIndex base index', .sliceIndex base index]) now.world =
        .done [(.item ref position, held'), (.item ref position', held)] now.world := by
    rw [Step.assigned, Run.bind_done places, evalValues, Run.bind_done values]
    rfl
  obtain ⟨next, after, done, stored, stored'⟩ := (about.assign_meets safe).exchange done trivial holds
    rfl trivial holds' rfl (Step.advance_concludes env)
  rw [Step.run_assign]
  exact ⟨next, after, done, stored, stored'⟩

end Exchanging

def InstrOf.ExchangesSlots (instr : Instr) (first second : Nat × Slot) : Prop :=
  ∀ [Natives] {strict : Prop} {call : Caller} {now : Config strict} {task : ThreadRef}
    {env : EnvRef} (fuel : Nat), call.Safe strict → now.About task env instr →
    ∃ next after, Step.run call fuel env instr now.world = .done next after ∧
      after.load (now.world.up env first.1) first.2 =
        now.world.load (now.world.up env second.1) second.2 ∧
      after.load (now.world.up env second.1) second.2 =
        now.world.load (now.world.up env first.1) first.2

/-- Whoever runs the instruction exchanges two elements of a slice, provided that their operands change
nothing and the indices are in range. -/
def InstrOf.ExchangesItems (instr : Instr) (base index index' : Code) : Prop :=
  ∀ [Natives] {strict : Prop} {call : Caller} {now : Config strict} {task : ThreadRef}
    {env : EnvRef} {elem : Ty} {ref : SliceRef} {position position' : Int64} {held held' : Value}
    (fuel : Nat), call.Safe strict → now.About task env instr →
    MiniGo.eval call env base now.world = .done (.slice elem ref) now.world →
    MiniGo.eval call env index now.world = .done (.int position) now.world →
    MiniGo.eval call env index' now.world = .done (.int position') now.world →
    now.world.heap.item ref position = .ok held → now.world.heap.item ref position' = .ok held' →
    ∃ next after, Step.run call fuel env instr now.world = .done next after ∧
      after.heap.item ref position = .ok held' ∧ after.heap.item ref position' = .ok held

/-- Assignments and returns are parallel. An assignment or a definition becomes one instruction, and so
does a return with values. Wherever a task is about to run it, it first evaluates the operands of all
places, from left to right, and then all values. Until this is done, or has failed, it stores nothing:
variables and contents that were there change by what the called functions do, and by what others do
while it waits. Then it makes its stores, from left to right, up to the first that fails: each location
holds what has been stored there last, or what it held before. In well-typed states there is a value
for each target, which holds it as it is.

So two variables, two elements of a slice and two results of a function exchange their values. -/
theorem stores_parallel {outer : Scope} {frame : Frame} {here : Nat} {labels : List String}
    {span : Span} {piece : Piece} :
    (∀ {lhs nodes : List Expr},
      (Compile.stmt outer frame here labels (.assign lhs .assign nodes span) = .ok piece →
        ∃ places given values, Compile.places (frame :: outer) lhs = .ok places ∧
          places.length = lhs.length ∧
          Compile.rhs (frame :: outer) lhs.length span nodes = .ok given ∧
          given.toValues (places.map Place.type?) span = .ok values ∧
          piece.lines = [⟨.assign places values, span⟩]) ∧
      (Compile.stmt outer frame here labels (.assign lhs .define nodes span) = .ok piece →
        ∃ given types definition values,
          Compile.rhs (frame :: outer) lhs.length span nodes = .ok given ∧
          given.types = .ok types ∧ Definition.addAll { frame } lhs types = .ok definition ∧
          definition.places.length = lhs.length ∧
          given.toValues definition.targets span = .ok values ∧
          piece.lines = [⟨.assign definition.places values, span⟩]) ∧
      (nodes ≠ [] → Compile.stmt outer frame here labels (.ret nodes span) = .ok piece →
        ∃ hops info given values, enclosing (frame :: outer) .ret span = .ok (hops, info) ∧
          Compile.operands (frame :: outer) (fun _ => pure) none nodes = .ok given ∧
          returnAll info.results given span = .ok values ∧
          piece.lines = [⟨.ret hops info.results values, span⟩])) ∧
    (∀ [Natives] {strict : Prop} {call : Caller} {fuel : Nat} {now : Config strict}
        {task : ThreadRef} {env : EnvRef}, call.Safe strict →
      (∀ {places : List Place} {values : Values}, now.About task env (.assign places values) →
        Step.run call fuel env (.assign places values) = (do
          let stores ← Step.assigned call env places values
          Location.storeEach stores
          Step.advance env) ∧
        now.Prepares task call places.length (Step.assigned call env places values)) ∧
      (∀ {hops : Nat} {results : List Slot} {values : Values},
        now.About task env (.ret hops results values) →
        Step.run call fuel env (.ret hops results values) = (do
          let stores ← Step.returned call env hops results values
          Location.storeEach stores
          Step.interrupt env .ret) ∧
        now.Prepares task call results.length (Step.returned call env hops results values)) ∧
      Step.Concludes (Step.advance env) ∧ Step.Concludes (Step.interrupt env .ret)) ∧
    (∀ {left right : Ident}, Compile.stmt outer frame here labels
        (.assign [.ident left, .ident right] .assign [.ident right, .ident left] span) = .ok piece →
      ∃ hops named hops' named' instr,
        Scope.lookup (frame :: outer) left.name = some (hops, .var named) ∧
        Scope.lookup (frame :: outer) right.name = some (hops', .var named') ∧
        piece.lines = [⟨instr, span⟩] ∧ instr.ExchangesSlots (hops, named) (hops', named')) ∧
    (∀ {base index index' : Expr} {span₁ span₂ span₃ span₄ : Span} {container : Operand} {elem : Ty},
      Compile.expr (frame :: outer) base = .ok container → container.types = [.slice elem] →
      Compile.stmt outer frame here labels
        (.assign [.index base index span₁, .index base index' span₂] .assign
          [.index base index' span₃, .index base index span₄] span) = .ok piece →
      ∃ position position' instr, Compile.expr (frame :: outer) index = .ok position ∧
        Compile.expr (frame :: outer) index' = .ok position' ∧ piece.lines = [⟨instr, span⟩] ∧
        instr.ExchangesItems container.toCode position.toCode position'.toCode) ∧
    (∀ {left right : Ident} {hops : Nat} {named named' : Slot} {isNamed : Bool},
      enclosing (frame :: outer) .ret span = .ok (hops, ⟨[named, named'], isNamed⟩) →
      Scope.lookup (frame :: outer) left.name = some (hops, .var named) →
      Scope.lookup (frame :: outer) right.name = some (hops, .var named') →
      Compile.stmt outer frame here labels (.ret [.ident right, .ident left] span) = .ok piece →
      ∃ instr, piece.lines = [⟨instr, span⟩] ∧
        instr.ExchangesSlots (hops, named) (hops, named')) := by
  refine ⟨?_, ?_, ?_, ?_, ?_⟩
  · intro lhs nodes
    refine ⟨fun compiled => ?_, fun compiled => ?_, Compile.ret_lines⟩
    · obtain ⟨places, given, values, isPlaces, isRhs, toValues, lines⟩ := Compile.assign_lines compiled
      exact ⟨places, given, values, isPlaces, Compile.places_length isPlaces, isRhs, toValues, lines⟩
    · obtain ⟨given, types, definition, values, isRhs, areTypes, added, toValues, lines⟩ :=
        Compile.define_lines compiled
      have count := (Compile.rhs_arity isRhs).symm.trans (Rhs.types_length areTypes).symm
      exact ⟨given, types, definition, values, isRhs, areTypes, added,
        by simpa [count] using Definition.addAll_length count added, toValues, lines⟩
  · intro natives strict call fuel now task env safe
    refine ⟨fun about => ⟨Step.run_assign _ _, ?_⟩, fun about => ⟨Step.run_ret _ _ _, ?_⟩,
      Step.advance_concludes env, Step.interrupt_concludes env .ret⟩
    · exact (about.assign_meets safe).prepares (Step.assigned_evaluates _ _)
    · exact (about.ret_meets safe).prepares (Step.returned_evaluates _ _ _)
  · intro left right compiled
    obtain ⟨hops, named, hops', named', isLeft, isRight, lines⟩ := Compile.exchange_lines compiled
    exact ⟨hops, named, hops', named', _, isLeft, isRight, lines, fun _ safe about =>
      about.exchange_slots safe⟩
  · intro base index index' span₁ span₂ span₃ span₄ container elem isBase isSlice compiled
    obtain ⟨position, position', isIndex, isIndex', lines⟩ :=
      Compile.exchange_items_lines isBase isSlice compiled
    exact ⟨position, position', _, isIndex, isIndex', lines,
      fun _ safe about isBase isIndex isIndex' holds holds' =>
        about.exchange_items safe isBase isIndex isIndex' holds holds'⟩
  · intro left right hops named named' isNamed isFunction isLeft isRight compiled
    exact ⟨_, Compile.exchange_results_lines isFunction isLeft isRight compiled,
      fun _ safe about => about.exchange_results safe⟩

def oneStatement (body : Stmt) : SourceFile :=
  [.var [.mk [⟨"x", {}⟩, ⟨"y", {}⟩] (some (.named "int")) [] {}] {},
    .func ⟨"act", {}⟩ {} (.mk [body] {}) {}]

theorem oneStatement_about [Natives] (foreign : ∀ index, Natives.signature? index = none)
    {body : Stmt} {instr : Instr} {file : CompiledFile} (none : body.heads = [])
    (compiled : Compile.file (oneStatement body) [] = .ok file)
    (functions : file.functions.map (fun template =>
      (template.params, template.results, Program.instr? template.program 0)) =
        [([], [], some instr)]) :
    ∃ (now : Config True) (task : ThreadRef) (env : EnvRef), now.About task env instr := by
  obtain ⟨template, rest, isFirst, same, -⟩ := List.map_eq_cons_iff.mp functions
  simp only [Prod.mk.injEq] at same
  refine CompiledFile.exists_about foreign (fun head member => ?_) compiled
    (isFirst ▸ List.mem_cons_self) same.1 same.2.1 same.2.2
  have bare : head = {} := by
    simpa [oneStatement, SourceFile.heads, Decl.heads, ValueSpec.headsOf, Expr.headsOf, Block.heads,
      Stmt.headsOf, none] using member
  simp [bare, FuncHead.Proper]

def exchangeNumbers : Stmt :=
  let name (text : String) : Expr := .ident ⟨text, {}⟩
  .assign [name "x", name "y"] .assign [name "y", name "x"] {}

theorem stores_parallel_exchanged :
    let x : Slot := ⟨.word, 0, .int⟩
    let y : Slot := ⟨.word, 1, .int⟩
    let places : List Place := [.slot 1 x, .slot 1 y]
    let values : Values := .each [.load 1 y, .load 1 x]
    let instr : Instr := .assign places values
    ∃ (_ : Natives) (file : CompiledFile) (now : Config True) (task : ThreadRef) (env : EnvRef)
      (call : Caller), Compile.file (oneStatement exchangeNumbers) [] = .ok file ∧
      file.functions.map (Program.instr? ·.program 0) = [some instr] ∧ call.Safe True ∧
      now.About task env instr ∧ now.Prepares task call 2 (Step.assigned call env places values) ∧
      ∃ next after, Step.run call 50 env instr now.world = .done next after ∧
        after.load (now.world.up env 1) x = now.world.load (now.world.up env 1) y ∧
        after.load (now.world.up env 1) y = now.world.load (now.world.up env 1) x := by
  intro x y places values instr
  let natives : Natives := ⟨fun _ => none⟩
  have compiles : ∃ file, Compile.file (oneStatement exchangeNumbers) [] = .ok file ∧
      file.functions.map (fun template =>
        (template.params, template.results, Program.instr? template.program 0)) =
          [([], [], some instr)] := ⟨_, by cbv, by rfl⟩
  obtain ⟨file, compiled, functions⟩ := compiles
  obtain ⟨now, task, env, about⟩ := oneStatement_about (fun _ => rfl) (by rfl) compiled functions
  have safe := (Machine.watchedCall_safe .never (⟨by simp [Natives.signature?, natives], by simp⟩ :
    Host.Safe True []) 50).1
  let outer : Frame := { owned := true, symbols := [("y", .var y), ("x", .var x)], words := 2 }
  obtain ⟨-, runs, exchanges, -, -⟩ := @stores_parallel [outer] { owned := true } 0 [] {}
    (.one { owned := true } instr {})
  obtain ⟨-, prepares⟩ := (@runs _ _ _ 50 _ _ _ safe).1 about
  obtain ⟨hops, named, hops', named', found, isLeft, isRight, lines, exchanges⟩ :=
    @exchanges ⟨"x", {}⟩ ⟨"y", {}⟩ (by rfl)
  cases isLeft
  cases isRight
  obtain rfl : instr = found := by simpa [Piece.one] using lines
  have first : file.functions.map (Program.instr? ·.program 0) = [some instr] := by
    simpa [Function.comp_def] using congrArg (List.map (·.2.2)) functions
  exact ⟨natives, file, now, task, env, _, compiled, first, safe, about, prepares,
    exchanges 50 safe about⟩

end MiniGo
