import MiniGo.Proofs.Constants
import MiniGo.Proofs.Scoping
/-!
Compound statements: each is typed when its parts are. The parts are given by what their compilation
in any scope yields, so that the lemmas here are the cases of one induction over syntax trees.
-/

namespace MiniGo

variable {strict : Prop} {outer : Scope} {frame : Frame} {here : Nat} {labels : List String}
  {piece : Piece} {span : Span}

def Expr.Sound (strict : Prop) (node : Expr) : Prop :=
  ∀ (ctx : Ctx strict) operand, Compile.expr ctx.scope node = .ok operand →
    operand.Typed strict ctx

def Expr.PlaceSound (strict : Prop) (node : Expr) : Prop :=
  ∀ (ctx : Ctx strict) place, Compile.place ctx.scope node = .ok place →
    PlaceTyped strict ctx place (Place.type? place)

/-- A part of a statement that is compiled to instructions with a scope of their own. -/
def Settles (strict : Prop) (compile : Scope → Nat → Compiled Fragment)
    (kind : Scope → List Frame → List Site → Prop) : Prop :=
  ∀ (ctx : Ctx strict) base out here fragment, Around base out ctx.scope ctx.layers →
    compile ctx.scope here = .ok fragment →
    ∃ sites, kind ctx.scope (finals ctx.layers) sites ∧
      Runs strict base out here fragment.lines sites ctx.layers ctx.layers

def Extends (strict : Prop) (compile : Scope → Frame → Nat → Compiled Piece)
    (kind : Scope → Frame → List Frame → List Site → Prop) : Prop :=
  ∀ outer frame here piece, Declarable outer frame → compile outer frame here = .ok piece →
    Declaring strict outer frame here piece (kind outer frame)

theorem RangeSlots.In.grows {state : RangeSlots} {level after : Level} {subject key : Ty}
    (inside : state.In level subject key) (grows : level.Grows after) :
    state.In after subject key :=
  ⟨⟨grows.has inside.subject.1, inside.subject.2⟩, ⟨grows.has inside.keys.1, inside.keys.2⟩,
    ⟨grows.has inside.index.1, inside.index.2⟩, ⟨grows.has inside.limit.1, inside.limit.2⟩,
    ⟨grows.has inside.step.1, inside.step.2⟩⟩

theorem Declaring.plain {owned : Bool} {first : Piece} {kind : List Frame → List Site → Prop}
    (declaring : Declaring strict outer { owned } here first kind) :
    first.frame.loop = none ∧ first.frame.func = none := by
  obtain ⟨slots, declares, -⟩ := declaring
  exact ⟨declares.loop, declares.func⟩

namespace Compile

theorem Flat.stmtSites {node : Stmt} (plain : node.isPlain = true)
    (compiled : stmt outer frame here labels node = .ok piece)
    (declaring : Declaring strict outer frame here piece (Flat outer frame piece)) :
    Declaring strict outer frame here piece fun finals => StmtSites outer frame finals labels node :=
  declaring.imp fun _ _ same => same ▸ .plain plain compiled

theorem ifElse_contained {init : Option Stmt} {cond : Expr} {thenBranch : Block}
    {elseBranch : Option Stmt}
    (initExtends : Extends strict (fun outer frame here => initStmt outer frame here init)
      fun outer frame finals => OptionSites outer frame finals init)
    (condSound : cond.Sound strict)
    (thenSettles : Settles strict (fun scope here => block scope here thenBranch)
      fun scope finals => BlockSites scope finals thenBranch)
    (elseSettles : ∀ outer frame, ∀ (ctx : Ctx strict) base out here fragment,
      ctx.scope = frame :: outer → Around base out ctx.scope ctx.layers →
      elseStmt outer frame here elseBranch = .ok fragment →
      ∃ sites, ElseSites outer frame (finals ctx.layers) elseBranch sites ∧
        Runs strict base out here fragment.lines sites ctx.layers ctx.layers)
    (compiled : stmt outer frame here labels (.ifElse init cond thenBranch elseBranch span) =
      .ok piece) :
    Contained strict outer frame here piece fun finals =>
      StmtSites outer frame finals labels (.ifElse init cond thenBranch elseBranch span) := by
  simp only [stmt, Compiled.bind_eq_ok, Compiled.pure_eq_ok] at compiled
  obtain ⟨fragment, compiled, rfl⟩ := compiled
  refine ⟨rfl, fun ctx base out scope around => inScope_runs compiled ?_ around⟩
  intro here piece content
  simp only [Compiled.bind_eq_ok, Compiled.pure_eq_ok] at content
  obtain ⟨first, opened, operand, compiledCond, test, tested, rest, branched, rfl⟩ := content
  rw [← scope] at opened compiledCond branched
  have declaring := initExtends _ _ _ first (.empty ctx.sound _) opened
  refine declaring.opens (fun _ => True) around
    (fun level same => ⟨level, same, .refl level, trivial⟩) rfl ?_
  intro level slots inner _ _ innerScope _ innerFinals serves _
  have innerAround : Around base out inner.scope inner.layers := by
    rw [innerScope]
    exact around.enter declaring.plain.1 declaring.plain.2 serves
  rw [← innerScope] at compiledCond branched
  generalize elseIs : (if elseBranch.isSome then
    some fun here => elseStmt ctx.scope first.frame here elseBranch else none) = elsePart at branched
  have elseRuns : ∀ other, elsePart = some other → ∀ here part, other here = .ok part →
      ∃ sites, ElseSites ctx.scope first.frame (finals inner.layers) elseBranch sites ∧
        Runs strict base out here part.lines sites inner.layers inner.layers := by
    intro other otherIs here part compiledPart
    rw [← elseIs] at otherIs
    split at otherIs
    · simp only [Option.some.injEq] at otherIs
      subst otherIs
      exact elseSettles _ _ inner base out here part innerScope innerAround compiledPart
    · simp at otherIs
  have noElse : elsePart = none →
      ElseSites ctx.scope first.frame (finals inner.layers) elseBranch [] := by
    intro isNone
    obtain rfl : elseBranch = none := by simpa [isNone] using elseIs
    exact .none
  have hasElse : elsePart.isSome = elseBranch.isSome := by
    rw [← elseIs]
    cases elseBranch <;> rfl
  obtain ⟨thenSites, elseSites, isThen, isElse, runs⟩ :=
    branches_runs branched ((condSound inner operand compiledCond).toCond tested)
      (fun here part => thenSettles inner base out here part innerAround) elseRuns noElse
  refine ⟨_, fun opening isOpening => ?_, runs⟩
  rw [innerScope] at isThen compiledCond
  simp only [hasElse, Ctx.site, innerScope, innerFinals, scope, Fragment.within_frame]
    at opened compiledCond isOpening isThen isElse ⊢
  exact .ifElse opened compiledCond tested isOpening isThen isElse

theorem loop_frame {cond : Cond} {level : Nat} {body : Nat → Compiled Fragment}
    {post : Nat → Compiled Piece} (compiled : loop cond level here span body post = .ok piece) :
    ∃ here last, post here = .ok last ∧ piece.frame = last.frame := by
  unfold loop at compiled
  split at compiled
  all_goals
    simp only [Compiled.bind_eq_ok, Compiled.pure_eq_ok] at compiled
    obtain ⟨_, -, last, compiledLast, rfl⟩ := compiled
    exact ⟨_, last, compiledLast, rfl⟩

theorem looped_level {first last : Frame} {info : Option LoopInfo} {slots : List Slot}
    (declares : Declares { first with loop := info } last slots) (level : Level)
    (same : level.frame = first) :
    ∃ final : Level, final.frame = last ∧ level.Grows final := by
  subst same
  obtain ⟨mid, midFrame, grows⟩ :=
    level.exists_reframed { level.frame with loop := info } rfl rfl rfl rfl
  obtain ⟨final, finalFrame, more⟩ := declares.level mid midFrame
  exact ⟨final, finalFrame, grows.trans more⟩

theorem loopCond_fits {ctx : Ctx strict} {cond : Option Expr} {test : Cond}
    (condSound : ∀ node, cond = some node → node.Sound strict)
    (compiled : loopCond ctx.scope cond = .ok test) (code : Code) (same : test = .code code) :
    CodeFits strict ctx code .bool := by
  cases cond with
  | none =>
    simp only [loopCond, Compiled.pure_eq_ok] at compiled
    simp [same] at compiled
  | some node =>
    simp only [loopCond, Compiled.bind_eq_ok] at compiled
    obtain ⟨operand, compiledNode, tested⟩ := compiled
    exact (condSound node rfl ctx operand compiledNode).toCond tested code same

theorem forLoop_contained {init : Option Stmt} {cond : Option Expr} {post : Option Stmt}
    {body : Block}
    (initExtends : Extends strict (fun outer frame here => initStmt outer frame here init)
      fun outer frame finals => OptionSites outer frame finals init)
    (condSound : ∀ node, cond = some node → node.Sound strict)
    (postExtends : Extends strict (fun outer frame here => postStmt outer frame here post)
      fun outer frame finals => OptionSites outer frame finals post)
    (bodySettles : Settles strict (fun scope here => block scope here body)
      fun scope finals => BlockSites scope finals body)
    (compiled : stmt outer frame here labels (.forLoop init cond post body span) = .ok piece) :
    Contained strict outer frame here piece fun finals =>
      StmtSites outer frame finals labels (.forLoop init cond post body span) := by
  simp only [stmt, Compiled.bind_eq_ok, Compiled.pure_eq_ok] at compiled
  obtain ⟨fragment, compiled, rfl⟩ := compiled
  refine ⟨rfl, fun ctx base out scope around => inScope_runs compiled ?_ around⟩
  intro here piece content
  simp only [Compiled.bind_eq_ok, Compiled.pure_eq_ok] at content
  obtain ⟨first, opened, test, tested, rest, looped, rfl⟩ := content
  have length : outer.length + 1 = ctx.scope.length := by simp [scope]
  rw [← scope] at opened tested
  rw [length, ← scope] at looped
  have declaring := initExtends _ _ _ first (.empty ctx.sound _) opened
  have declarable : Declarable ctx.scope { first.frame with loop := some ⟨true, labels⟩ } := by
    obtain ⟨slots, declares, -⟩ := declaring
    exact ((Declarable.empty ctx.sound _).after declares).reframed rfl rfl rfl rfl
  obtain ⟨lastHere, last, compiledLast, lastFrame⟩ := loop_frame looped
  obtain ⟨slots, declares, -⟩ := postExtends _ _ _ last declarable compiledLast
  refine declaring.opens (fun _ => True) around ?_ rfl ?_
  · intro level same
    obtain ⟨final, finalFrame, grows⟩ := looped_level declares level same
    exact ⟨final, finalFrame.trans lastFrame.symm, grows, trivial⟩
  · intro level slots inner _ _ innerScope _ innerFinals serves top
    let again : Ctx strict := inner.reframe innerScope
      { first.frame with loop := some ⟨true, labels⟩ } rfl rfl rfl rfl
    have bodyAround : Around base (looping ctx.scope.length again.layers out) again.scope
        again.layers := @Around.enter_loop _ _ _
          ({ first.frame with loop := some ⟨true, labels⟩ }) _ _ around declaring.plain.2 _ serves
          (.refl _)
    have postRuns : ∀ here part, postStmt ctx.scope { first.frame with loop := some ⟨true, labels⟩ }
        here post = .ok part → part.frame = rest.frame → ∃ sites,
        OptionSites ctx.scope { first.frame with loop := some ⟨true, labels⟩ } (finals inner.layers)
          post sites ∧
        Runs strict base (looping ctx.scope.length again.layers out) here part.lines sites
          again.layers again.layers := by
      intro here part compiledPart same
      obtain ⟨slots, declares, runs⟩ := postExtends _ _ _ part declarable compiledPart
      obtain ⟨sites, isPost, runs⟩ := runs again base _ rfl bodyAround (same ▸ top)
      exact ⟨sites, isPost, runs.finish (serves_stored slots _)⟩
    obtain ⟨bodySites, postSites, isBody, isPost, runs⟩ :=
      @loop_runs _ _ _ _ again _ _ _ _ _ _ _ _ looped (loopCond_fits condSound tested)
        bodyAround.deep (fun here part => bodySettles again base _ here part bodyAround) postRuns
    refine ⟨_, fun opening isOpening => ?_, runs⟩
    have againSite : again.site = ⟨{ first.frame with loop := some ⟨true, labels⟩ } :: ctx.scope,
        rest.frame.opening (finals ctx.layers)⟩ := congrArg (Site.mk _) innerFinals
    rw [show finals again.layers = rest.frame.opening (finals ctx.layers) from innerFinals,
      show again.scope = { first.frame with loop := some ⟨true, labels⟩ } :: ctx.scope from rfl]
      at isBody
    simp only [innerFinals, Fragment.within_frame] at isOpening isPost ⊢
    rw [againSite, Ctx.site]
    simp only [scope, lastFrame] at opened tested compiledLast isOpening isBody isPost ⊢
    exact .forLoop opened rfl tested compiledLast isOpening isBody isPost

theorem rangeShape_over {type key : Ty} {value : Option Ty} {kind : RangeKind} {subjectSpan : Span}
    (compiled : rangeShape type span subjectSpan = .ok (kind, key, value)) :
    kind.Over type key value := by
  unfold rangeShape at compiled
  split at compiled
  case h_5 direction elem =>
    simp only [Compiled.bind_eq_ok, Compiled.pure_eq_ok, Prod.mk.injEq] at compiled
    obtain ⟨elem, received, rfl, rfl, rfl⟩ := compiled
    obtain ⟨direction, same⟩ := Operand.recvElem_eq_ok received
    exact same ▸ .chan
  case h_6 => simp at compiled
  all_goals
    simp only [Compiled.pure_eq_ok, Prod.mk.injEq] at compiled
    obtain ⟨rfl, rfl, rfl⟩ := compiled
    constructor

theorem checkPlace_stores {place : Place} {type : Ty}
    (checked : checkPlace place type span = .ok ()) : type.StoresTo (Place.type? place) := by
  intro wanted found
  simp only [checkPlace, found] at checked
  split at checked
  · assumption
  · simp at checked

theorem rangeTarget_typed {after : Frame} {type : Ty} {isDefine : Bool} {target : Option Expr}
    {place : Option Place} (sound : ∀ node, target = some node → node.PlaceSound strict)
    (compiled : rangeTarget outer frame type isDefine target = .ok (place, after)) :
    ∃ slots, Declares frame after slots ∧ slots ⊆ place.toList.filterMap PlaceOf.inner? ∧
      (isDefine = false → after = frame) ∧
      ∀ (ctx : Ctx strict) (layer : Layer), (isDefine = false → ctx.scope = frame :: outer) →
        ctx.layers[0]? = some layer → layer.level.Covers after →
        ∃ targets, PlacesTyped strict ctx place.toList targets ∧
          ∀ wanted ∈ targets, type.StoresTo wanted := by
  cases target with
  | none =>
    simp only [rangeTarget, Compiled.pure_eq_ok, Prod.mk.injEq] at compiled
    obtain ⟨rfl, rfl⟩ := compiled
    exact ⟨[], .refl frame, by simp, fun _ => rfl, fun ctx layer _ _ _ => ⟨[], .nil, by simp⟩⟩
  | some node =>
    simp only [rangeTarget] at compiled
    split at compiled
    · rename_i define
      split at compiled
      · simp at compiled
      · simp only [Compiled.bind_eq_ok, Compiled.pure_eq_ok, Prod.exists, Prod.mk.injEq] at compiled
        obtain ⟨slot, grown, declared, rfl, rfl⟩ := compiled
        obtain ⟨declares, typeIs⟩ := Frame.declareVar_declares declared
        refine ⟨slot.toList, declares, ?_, by simp [define], ?_⟩
        · cases slot <;> simp [PlaceOf.inner?]
        · intro ctx layer _ found covers
          cases slot with
          | none => exact ⟨[], .nil, by simp⟩
          | some slot =>
            obtain ⟨name, member⟩ := declares.named slot (by simp)
            refine ⟨[some slot.type],
              .fresh found (covers.symbols.subset member) .nil, ?_⟩
            simp only [List.mem_singleton, forall_eq]
            intro wanted same
            obtain rfl : slot.type = wanted := by simpa using same
            rw [typeIs slot rfl]
            exact Ty.assignableTo_refl type
    · rename_i notDefine
      simp only [Compiled.bind_eq_ok] at compiled
      obtain ⟨found, compiledPlace, ⟨⟩, checked, compiled⟩ := compiled
      have stores := checkPlace_stores checked
      have kept : after = frame ∧ ∀ given : Place, place = some given → given = found := by
        split at compiled <;> simp only [Compiled.pure_eq_ok, Prod.mk.injEq] at compiled <;>
          obtain ⟨rfl, rfl⟩ := compiled <;> simp
      obtain ⟨rfl, same⟩ := kept
      refine ⟨[], .refl after, by simp, fun _ => rfl, ?_⟩
      intro ctx layer scope _ _
      cases place with
      | none => exact ⟨[], .nil, by simp⟩
      | some given =>
        obtain rfl := same given rfl
        rw [← scope (by simpa using notDefine)] at compiledPlace
        exact ⟨[Place.type? given], .cons (sound node rfl ctx given compiledPlace) .nil,
          by simpa using stores⟩

theorem rangeSlots_declares {subject key : Ty} {state : RangeSlots} {after : Frame}
    (taken : rangeSlots frame subject key = (state, after)) : Declares frame after [] := by
  simp only [rangeSlots, Prod.mk.injEq] at taken
  obtain ⟨rfl, rfl⟩ := taken
  have first := Frame.allocate_declares frame subject
  have second := first.trans (Frame.allocate_declares _ (.slice key))
  have third := second.trans (Frame.allocate_declares _ .int)
  have fourth := third.trans (Frame.allocate_declares _ .int)
  exact fourth.trans (Frame.allocate_declares _ .int)

theorem rangeSlots_level {subject key : Ty} {state : RangeSlots} {after : Frame}
    (taken : rangeSlots frame subject key = (state, after)) (level : Level)
    (same : level.frame = frame) :
    state.subject.type = subject ∧
      ∃ final : Level, final.frame = after ∧ level.Grows final ∧ state.In final subject key := by
  simp only [rangeSlots, Prod.mk.injEq] at taken
  obtain ⟨rfl, rfl⟩ := taken
  subst same
  obtain ⟨first, firstFrame, firstGrows, firstShared, firstType⟩ := level.exists_plain subject
  obtain ⟨second, secondFrame, secondGrows, secondShared, secondType⟩ :=
    first.exists_plain (.slice key)
  obtain ⟨third, thirdFrame, thirdGrows, thirdShared, thirdType⟩ := second.exists_plain .int
  obtain ⟨fourth, fourthFrame, fourthGrows, fourthShared, fourthType⟩ := third.exists_plain .int
  obtain ⟨fifth, fifthFrame, fifthGrows, fifthShared, fifthType⟩ := fourth.exists_plain .int
  rw [firstFrame] at secondFrame secondShared secondType
  rw [secondFrame] at thirdFrame thirdShared thirdType
  rw [thirdFrame] at fourthFrame fourthShared fourthType
  rw [fourthFrame] at fifthFrame fifthShared fifthType
  have late := fourthGrows.trans fifthGrows
  have mid := thirdGrows.trans late
  have early := secondGrows.trans mid
  exact ⟨firstType, fifth, fifthFrame, firstGrows.trans early,
    ⟨⟨early.has firstShared.1, firstType⟩, ⟨mid.has secondShared.1, secondType⟩,
      ⟨late.has thirdShared.1, thirdType⟩, ⟨fifthGrows.has fourthShared.1, fourthType⟩,
      ⟨fifthShared.1, fifthType⟩⟩⟩

theorem range_contained {key value : Option Expr} {isDefine : Bool} {subject : Expr} {body : Block}
    (keySound : ∀ node, key = some node → node.PlaceSound strict)
    (valueSound : ∀ node, value = some node → node.PlaceSound strict)
    (subjectSound : subject.Sound strict)
    (bodySettles : Settles strict (fun scope here => block scope here body)
      fun scope finals => BlockSites scope finals body)
    (compiled : stmt outer frame here labels (.range key value isDefine subject body span) =
      .ok piece) :
    Contained strict outer frame here piece fun finals =>
      StmtSites outer frame finals labels (.range key value isDefine subject body span) := by
  simp only [stmt, Compiled.bind_eq_ok, Compiled.pure_eq_ok] at compiled
  obtain ⟨fragment, compiled, rfl⟩ := compiled
  refine ⟨rfl, fun ctx base out scope around => inScope_runs compiled ?_ around⟩
  intro here piece content
  simp only [Compiled.bind_eq_ok, Prod.exists] at content
  obtain ⟨operand, compiledSubject, type, typeIs, kind, keyType, valueType, shape, content⟩ :=
    content
  split at content
  · simp at content
  rename_i oneVariable
  simp only [Compiled.bind_eq_ok, Prod.exists] at content
  obtain ⟨keyPlace, keyFrame, compiledKey, valuePlace, valueFrame, compiledValue, content⟩ := content
  generalize taken : rangeSlots valueFrame type keyType = slots at content
  obtain ⟨state, last⟩ := slots
  simp only [Compiled.pure_eq_ok] at content
  obtain ⟨inside, compiledBody, rfl⟩ := content
  have length : outer.length + 1 = ctx.scope.length := by simp [scope]
  rw [← scope] at compiledSubject compiledKey compiledValue compiledBody
  obtain ⟨keySlots, keyDeclares, keyStored, keyKept, keyTyped⟩ :=
    rangeTarget_typed keySound compiledKey
  obtain ⟨valueSlots, valueDeclares, valueStored, -, valueTyped⟩ :=
    rangeTarget_typed valueSound compiledValue
  have declares := (keyDeclares.trans valueDeclares).trans (rangeSlots_declares taken)
  refine (Declaring.empty ctx.scope { owned := true }).opens
    (fun level => state.subject.type = type ∧ state.In level type keyType) around ?_ rfl ?_
  · intro level same
    obtain ⟨mid, midFrame, midGrows⟩ := (keyDeclares.trans valueDeclares).level level same
    obtain ⟨subjectType, final, finalFrame, grows, within⟩ := rangeSlots_level taken mid midFrame
    subst finalFrame
    obtain ⟨looped, loopedFrame, more⟩ := final.exists_reframed
      { final.frame with loop := some ⟨true, labels⟩ } rfl rfl rfl rfl
    exact ⟨looped, loopedFrame, (midGrows.trans grows).trans more, subjectType, within.grows more⟩
  · intro level slots inner same good innerScope innerLayers innerFinals serves top
    obtain ⟨rfl, within⟩ := good
    have covers : level.Covers last := by
      have whole := (Level.Grows.refl level).covers
      rw [same] at whole
      exact ⟨whole.owned, whole.symbols, whole.objects, whole.words⟩
    have owned : level.frame.owned = true := covers.owned ▸ declares.owned
    have layersIs : inner.layers = { level, ready := slots } :: ctx.layers := by
      simp [innerLayers, entering, owned, stored]
    let again : Ctx strict := inner.serving (serves_stored [state.subject] inner.layers)
    have againLayers : again.layers = { level, ready := state.subject :: slots } :: ctx.layers := by
      simp [again, Ctx.serving, layersIs, stored]
    obtain ⟨keyTargets, keysTyped, keysStore⟩ := keyTyped again _ (fun _ => innerScope)
      (by rw [againLayers]; rfl) ((valueDeclares.trans (rangeSlots_declares taken)).covers covers)
    obtain ⟨valueTargets, valuesTyped, valuesStore⟩ := valueTyped again _
      (fun notDefine => innerScope.trans (by rw [keyKept notDefine]; rfl))
      (by rw [againLayers]; rfl) ((rangeSlots_declares taken).covers covers)
    have valueKnown : ∀ wanted ∈ valueTargets, ∃ type, valueType = some type ∧
        type.StoresTo wanted := by
      intro wanted member
      cases valueType with
      | some type => exact ⟨type, rfl, valuesStore wanted member⟩
      | none =>
        obtain rfl : value = none := by simpa using oneVariable
        simp only [rangeTarget, Compiled.pure_eq_ok, Prod.mk.injEq] at compiledValue
        obtain ⟨rfl, -⟩ := compiledValue
        cases valuesTyped
        simp at member
    have bodyServes : Serves
        (stored ((keyPlace.toList ++ valuePlace.toList).filterMap PlaceOf.inner?) again.layers)
        (stored ([] ++ (valueSlots ++ keySlots)) again.layers) := by
      refine stored_serves _ ?_
      rw [List.filterMap_append]
      intro slot member
      rcases List.mem_append.mp (by simpa using member) with fromValue | fromKey
      · exact List.mem_append_right _ (valueStored fromValue)
      · exact List.mem_append_left _ (keyStored fromKey)
    have againFits : Fits strict ({ owned := true } :: ctx.scope) again.layers := by
      have fits := again.fits
      rwa [show again.scope = { owned := true } :: ctx.scope from innerScope] at fits
    have againTop : Top again.layers last :=
      ⟨fun _ => ⟨_, by rw [againLayers]; rfl, covers⟩, fun bare => by
        simp [declares.owned] at bare⟩
    let bodyCtx : Ctx strict := Ctx.reframe
      ⟨last :: ctx.scope, _, (againFits.declared declares againTop).serves bodyServes⟩ rfl
      { last with loop := some ⟨true, labels⟩ } rfl rfl rfl rfl
    have bodyAround : Around base (looping ctx.scope.length again.layers out) bodyCtx.scope
        bodyCtx.layers := by
      refine @Around.enter_loop _ _ _ ({ last with loop := some ⟨true, labels⟩ }) _ _ around
        declares.func _ ?_ (serves_stored _ _)
      have dropped : bodyCtx.layers.drop 1 = ctx.layers := by
        change (stored _ again.layers).drop 1 = ctx.layers
        rw [againLayers]
        rfl
      simpa [Frame.cost, declares.owned, dropped] using Serves.refl ctx.layers
    obtain ⟨sites, isBody, bodyRuns⟩ :=
      bodySettles bodyCtx base _ _ inside bodyAround compiledBody
    have operandFits := (subjectSound inner operand (by rwa [innerScope])).toCode
      (Operand.type_eq_ok.mp typeIs)
    rw [length]
    refine ⟨_, ?_, (@rangeLoop_runs _ _ _ _ inner _ _ _ _ _ _ _ _ _ _ _ _ _ again _
      (by rw [layersIs]; rfl) rfl (rangeShape_over shape) within operandFits keysTyped keysStore
      valuesTyped valueKnown ((serves_stored _ _).length_eq ▸ bodyAround.deep)
      (bodyRuns.finish (serves_stored _ _))).finish (serves_stored _ _)⟩
    rintro _ rfl
    have site : inner.site = ⟨{ owned := true } :: ctx.scope,
        { last with loop := some ⟨true, labels⟩ } :: finals ctx.layers⟩ := by
      rw [Ctx.site, innerScope, layersIs, finals_cons, same]
      rfl
    have againSite : again.site = inner.site := by
      rw [Ctx.site, Ctx.site, againLayers, layersIs, finals_cons, finals_cons]
      rfl
    rw [show bodyCtx.scope = { last with loop := some ⟨true, labels⟩ } :: ctx.scope from rfl,
      show finals bodyCtx.layers = { last with loop := some ⟨true, labels⟩ } :: finals ctx.layers by
        rw [show bodyCtx.layers = stored _ again.layers from rfl, finals_stored, againLayers,
          finals_cons, same]; rfl] at isBody
    rw [againSite, site, Ctx.site]
    simp only [scope] at compiledSubject compiledKey compiledValue isBody ⊢
    exact .range compiledSubject typeIs shape compiledKey compiledValue taken rfl isBody

theorem tagged_mem {α : Type} {entry : α × Nat} {items : List (List α)} {starts : List Nat}
    (member : entry ∈ tagged items starts) :
    ∃ (index : Nat) (list : List α), items[index]? = some list ∧ starts[index]? = some entry.2 ∧
      entry.1 ∈ list := by
  induction items generalizing starts with
  | nil => simp [tagged] at member
  | cons list items ih =>
    cases starts with
    | nil => simp [tagged] at member
    | cons start starts =>
      simp only [tagged, List.mem_append, List.mem_map] at member
      rcases member with ⟨item, inList, rfl⟩ | later
      · exact ⟨0, list, rfl, rfl, inList⟩
      · obtain ⟨index, found, isItem, isStart, inside⟩ := ih later
        exact ⟨index + 1, found, by simpa using isItem, by simpa using isStart, inside⟩

theorem fallback_cases (default : Option Nat) (starts : List Nat) (breakTo : Nat) :
    fallback default starts breakTo = breakTo ∨
      ∃ index, default = some index ∧
        starts[index]? = some (fallback default starts breakTo) := by
  cases default with
  | none => exact .inl rfl
  | some index =>
    cases found : starts[index]? with
    | none => exact .inl (by simp [fallback, found])
    | some start => exact .inr ⟨index, rfl, by simp [fallback, found]⟩

theorem defaultClause_go {statement : ClauseStmt} {clauses : List (Bool × Span)} {start index : Nat}
    {found : Option Nat}
    (compiled : defaultClause.go statement clauses start found = .ok (some index)) :
    found = some index ∨ ∃ offset span, index = start + offset ∧
      clauses[offset]? = some (true, span) := by
  induction clauses generalizing start found with
  | nil =>
    simp only [defaultClause.go, Compiled.pure_eq_ok] at compiled
    exact .inl compiled
  | cons clause clauses ih =>
    obtain ⟨isDefault, span⟩ := clause
    simp only [defaultClause.go] at compiled
    split at compiled
    · rcases ih compiled with same | ⟨offset, span, rfl, isClause⟩
      · exact .inl same
      · exact .inr ⟨offset + 1, span, by omega, by simpa using isClause⟩
    · rename_i marked
      split at compiled
      · simp at compiled
      · rcases ih compiled with same | ⟨offset, span, rfl, isClause⟩
        · exact .inr ⟨0, span, by simpa using same.symm, by simpa using marked⟩
        · exact .inr ⟨offset + 1, span, by omega, by simpa using isClause⟩

theorem defaultClause_default {statement : ClauseStmt} {clauses : List (Bool × Span)} {index : Nat}
    (compiled : defaultClause statement clauses = .ok (some index)) :
    ∃ span, clauses[index]? = some (true, span) := by
  rcases defaultClause_go compiled with found | ⟨offset, span, rfl, isClause⟩
  · simp at found
  · exact ⟨span, by simpa using isClause⟩

theorem switchTag_typed {ctx : Ctx strict} {tag : Option Expr} {operand : Operand}
    (tagSound : ∀ node, tag = some node → node.Sound strict)
    (compiled : switchTag ctx.scope span tag = .ok operand) : operand.Typed strict ctx := by
  cases tag with
  | none =>
    simp only [switchTag, Compiled.pure_eq_ok] at compiled
    exact compiled ▸ Operand.typed_const rfl
  | some node => exact tagSound node rfl ctx operand compiled

theorem codesFit_of_each {ctx : Ctx strict} {codes : List Code}
    (each : ∀ code ∈ codes, ∃ type, CodeFits strict ctx code type) :
    ∃ types, CodesFit strict ctx codes types := by
  induction codes with
  | nil => exact ⟨[], .nil⟩
  | cons code codes ih =>
    obtain ⟨type, fits⟩ := each code (by simp)
    obtain ⟨types, rest⟩ := ih fun other member => each other (by simp [member])
    exact ⟨type :: types, .cons fits rest⟩

theorem switch_contained {init : Option Stmt} {tag : Option Expr} {clauses : List CaseClause}
    (initExtends : Extends strict (fun outer frame here => initStmt outer frame here init)
      fun outer frame finals => OptionSites outer frame finals init)
    (tagSound : ∀ node, tag = some node → node.Sound strict)
    (casesFit : ∀ (ctx : Ctx strict) type cases, switchCases ctx.scope type clauses = .ok cases →
      ∀ codes ∈ cases, ∀ code ∈ codes, ∃ type, CodeFits strict ctx code type)
    (bodiesRun : ∀ (ctx : Ctx strict) base out here codes, Around base out ctx.scope ctx.layers →
      switchBodies ctx.scope here clauses = .ok codes →
      ∃ sites, SwitchSites ctx.scope (finals ctx.layers) clauses sites ∧
        ClausesRun strict base out ctx.layers here codes sites
          (List.replicate codes.length ctx.layers))
    (compiled : stmt outer frame here labels (.switch init tag clauses span) = .ok piece) :
    Contained strict outer frame here piece fun finals =>
      StmtSites outer frame finals labels (.switch init tag clauses span) := by
  simp only [stmt, Compiled.bind_eq_ok, Compiled.pure_eq_ok] at compiled
  obtain ⟨fragment, compiled, rfl⟩ := compiled
  refine ⟨rfl, fun ctx base out scope around => inScope_runs compiled ?_ around⟩
  intro here piece content
  simp only [Compiled.bind_eq_ok, Compiled.pure_eq_ok] at content
  obtain ⟨first, opened, operand, compiledTag, type, typeIs, default, -, cases, compiledCases,
    codes, compiledBodies, rfl⟩ := content
  have length : outer.length + 1 = ctx.scope.length := by simp [scope]
  rw [← scope] at opened compiledTag compiledCases compiledBodies
  have declaring := initExtends _ _ _ first (.empty ctx.sound _) opened
  refine declaring.opens (fun _ => True) around ?_ rfl ?_
  · intro level same
    obtain ⟨final, finalFrame, grows⟩ :=
      looped_level (.refl { first.frame with loop := some ⟨false, labels⟩ }) level same
    exact ⟨final, finalFrame, grows, trivial⟩
  · intro level slots inner _ _ innerScope _ innerFinals serves _
    let again : Ctx strict := inner.reframe innerScope
      { first.frame with loop := some ⟨false, labels⟩ } rfl rfl rfl rfl
    have againSite : again.site = ⟨{ first.frame with loop := some ⟨false, labels⟩ } :: ctx.scope,
        { first.frame with loop := some ⟨false, labels⟩ }.opening (finals ctx.layers)⟩ :=
      congrArg (Site.mk _) innerFinals
    have bodyAround : Around base (switching ctx.scope.length again.layers out) again.scope
        again.layers :=
      @Around.enter_switch _ _ _ ({ first.frame with loop := some ⟨false, labels⟩ }) _ _ around _
        rfl declaring.plain.2 _ serves (.refl _)
    obtain ⟨sites, isBodies, runs⟩ := bodiesRun again base _ _ codes bodyAround compiledBodies
    rw [length]
    refine ⟨_, fun opening isOpening => ?_,
      @dispatched_runs _ _ _ _ again _ _ _ _ _ _ runs ?_ bodyAround.deep⟩
    · rw [show again.scope = again.site.scope from rfl,
        show finals again.layers = again.site.finals from rfl, againSite] at isBodies
      rw [againSite, Ctx.site]
      simp only [scope] at opened isOpening isBodies ⊢
      exact .switch opened rfl isOpening isBodies
    intro lands starts finish
    have each : ∀ (index : Nat) start, (codes.map (·.start))[index]? = some start →
        lands start again.layers := by
      intro index start found
      refine starts index start _ found ?_
      rw [List.getElem?_map, Option.map_eq_some_iff] at found
      obtain ⟨code, found, -⟩ := found
      rw [List.getElem?_replicate, if_pos (List.getElem?_eq_some_iff.mp found).1]
    have tagFits := @Operand.Typed.toCode _ again _ _ (switchTag_typed tagSound compiledTag)
      (Operand.type_eq_ok.mp typeIs)
    obtain ⟨types, fits⟩ : ∃ types, CodesFit strict again
        ((tagged cases (codes.map (·.start))).map (·.1)) types := by
      refine codesFit_of_each fun code member => ?_
      obtain ⟨entry, inside, rfl⟩ := List.mem_map.mp member
      obtain ⟨index, list, isList, -, inList⟩ := tagged_mem inside
      exact casesFit again type cases compiledCases list (List.mem_of_getElem? isList) _ inList
    refine .switch tagFits fits ?_ ?_
    · intro entry member
      obtain ⟨index, list, -, isStart, -⟩ := tagged_mem member
      exact each index _ isStart
    · rcases fallback_cases default (codes.map (·.start)) (ClauseCode.finish
          (here + first.length + 1) codes) with same | ⟨index, -, isStart⟩
      · rw [same]
        exact finish _ (.refl _)
      · exact each index _ isStart

end Compile

def Ctx.Vacant (ctx : Ctx strict) : Prop :=
  ∀ layer : Layer, ctx.layers[0]? = some layer → layer.parked = []

theorem parking_serves {ctx : Ctx strict} (vacant : ctx.Vacant) (slot : Slot) (type : Ty) :
    Serves (parking slot type ctx.layers) ctx.layers := by
  unfold Ctx.Vacant at vacant
  cases layersIs : ctx.layers with
  | nil => exact .refl _
  | cons layer layers =>
    refine .cons ⟨rfl, fun _ member => member, ?_, fun _ member => member⟩ (Serves.refl layers)
    simp [vacant layer (by simp [layersIs])]

theorem receiving_serves {ctx : Ctx strict} (vacant : ctx.Vacant) (slot : Slot) (elem : Option Ty) :
    Serves (receiving slot elem ctx.layers) ctx.layers := by
  cases elem with
  | none => exact .refl _
  | some type => exact parking_serves vacant slot type

theorem parking_get {slot : Slot} {type : Ty} {layers : List Layer} {layer : Layer}
    (found : layers[0]? = some layer) :
    (parking slot type layers)[0]? = some { layer with parked := [(slot, type)] } := by
  cases layers with
  | nil => simp at found
  | cons first rest =>
    obtain rfl : first = layer := by simpa using found
    rfl

def boundEntries (parked : Option Slot) (layers : List Layer) : List Ty → Nat → List (List Layer)
  | _, 0 => []
  | types, count + 1 =>
    (parked.elim layers fun slot => parking slot (types.headD .any) layers) ::
      boundEntries parked layers types.tail count

theorem boundEntries_get {parked : Option Slot} {layers : List Layer} {types : List Ty}
    {count index : Nat} (inside : index < count) :
    (boundEntries parked layers types count)[index]? =
      some (parked.elim layers fun slot => parking slot (types[index]?.getD .any) layers) := by
  induction count generalizing types index with
  | zero => omega
  | succ count ih =>
    cases index with
    | zero => cases types <;> simp [boundEntries]
    | succ index =>
      rw [boundEntries, List.getElem?_cons_succ, ih (by omega)]
      cases types <;> simp

namespace Compile

theorem clauseTypes_get {scope : Scope} {clauses : List CaseClause} {types : List (List (Option Ty))}
    (compiled : clauseTypes scope clauses = .ok types) {index : Nat} {clause : CaseClause}
    (found : clauses[index]? = some clause) (none : clause.list = none) :
    types[index]? = some [] := by
  induction clauses generalizing types index with
  | nil => simp at found
  | cons first clauses ih =>
    simp only [clauseTypes, Compiled.bind_eq_ok, Compiled.pure_eq_ok] at compiled
    obtain ⟨list, compiledFirst, others, compiledOthers, rfl⟩ := compiled
    cases index with
    | zero =>
      simp only [List.getElem?_cons_zero, Option.some.injEq] at found
      subst found
      simp only [none, Option.getD_none, List.mapM_nil, Compiled.pure_eq_ok] at compiledFirst
      simp [← compiledFirst]
    | succ index => simpa using ih compiledOthers (by simpa using found)

theorem boundType_known {list : List (Option Ty)} {type : Option Ty} (member : type ∈ list) :
    boundType list = .any ∨ type = some (boundType list) := by
  unfold boundType
  split
  · simp only [List.mem_singleton] at member
    exact .inr member
  · exact .inl rfl

theorem parkSubject_level {binding : Option Ident} {parked : Option (Ident × Slot)} {after : Frame}
    (taken : parkSubject frame binding = (parked, after)) :
    Declares frame after [] ∧ parked.isSome = binding.isSome ∧
      ∀ level : Level, level.frame = frame → ∃ final : Level, final.frame = after ∧
        level.Grows final ∧ ∀ ident slot, parked = some (ident, slot) → final.Parks slot := by
  cases binding with
  | none =>
    simp only [parkSubject, Prod.mk.injEq] at taken
    obtain ⟨rfl, rfl⟩ := taken
    exact ⟨.refl frame, rfl, fun level same => ⟨level, same, .refl level, by simp⟩⟩
  | some ident =>
    simp only [parkSubject, Prod.mk.injEq] at taken
    obtain ⟨rfl, rfl⟩ := taken
    refine ⟨Frame.allocate_declares frame .any, rfl, fun level same => ?_⟩
    subst same
    obtain ⟨final, finalFrame, grows, parks⟩ := level.exists_parking
    refine ⟨final, finalFrame, grows, fun ident slot same => ?_⟩
    simp only [Option.some.injEq, Prod.mk.injEq] at same
    exact same.2 ▸ parks

theorem exists_clauses (before : Ctx strict) {scope : Scope} {first last : Frame}
    (same : before.scope = first :: scope) (declares : Declares first last [])
    (top : Top before.layers last) :
    ∃ ctx : Ctx strict, ctx.scope = last :: scope ∧ ctx.layers = before.layers := by
  have fits := before.fits
  rw [same] at fits
  have declared := fits.declared declares top
  rw [stored_nil] at declared
  exact ⟨⟨_, _, declared⟩, rfl, rfl⟩

theorem typeSwitch_contained {init : Option Stmt} {binding : Option Ident} {subject : Expr}
    {clauses : List CaseClause}
    (initExtends : Extends strict (fun outer frame here => initStmt outer frame here init)
      fun outer frame finals => OptionSites outer frame finals init)
    (subjectSound : subject.Sound strict)
    (bodiesRun : ∀ (ctx : Ctx strict) base out here parked types codes,
      Around base out ctx.scope ctx.layers →
      (∀ ident slot, parked = some (ident, slot) → ctx.Vacant ∧
        ∃ layer : Layer, ctx.layers[0]? = some layer ∧ layer.level.Parks slot) →
      typeSwitchBodies ctx.scope parked types here clauses = .ok codes →
      ∃ sites, TypeSwitchSites ctx.scope (finals ctx.layers) (parked.map (·.1)) types clauses sites ∧
        ClausesRun strict base out ctx.layers here codes sites
          (boundEntries (parked.map (·.2)) ctx.layers types codes.length))
    (compiled : stmt outer frame here labels (.typeSwitch init binding subject clauses span) =
      .ok piece) :
    Contained strict outer frame here piece fun finals =>
      StmtSites outer frame finals labels (.typeSwitch init binding subject clauses span) := by
  simp only [stmt, Compiled.bind_eq_ok, Compiled.pure_eq_ok] at compiled
  obtain ⟨fragment, compiled, rfl⟩ := compiled
  refine ⟨rfl, fun ctx base out scope around => inScope_runs compiled ?_ around⟩
  intro here piece content
  simp only [Compiled.bind_eq_ok] at content
  obtain ⟨first, opened, operand, compiledSubject, code, isInterface, default, compiledDefault,
    types, compiledTypes, content⟩ := content
  generalize boundIs : binding.filter (fun ident => !ident.isBlank) = bound at content opened ⊢
  generalize allocated : parkSubject { first.frame with loop := some ⟨false, labels⟩ } bound =
    result at content
  obtain ⟨parked, last⟩ := result
  simp only [Compiled.pure_eq_ok] at content
  obtain ⟨codes, compiledBodies, rfl⟩ := content
  have length : outer.length + 1 = ctx.scope.length := by simp [scope]
  rw [← scope] at opened compiledSubject compiledBodies
  have declaring := initExtends _ _ _ first (.empty ctx.sound _) opened
  obtain ⟨declares, parkedIs, parks⟩ := parkSubject_level allocated
  refine declaring.opens (fun level => ∀ ident slot, parked = some (ident, slot) →
    level.Parks slot) around ?_ rfl ?_
  · intro level same
    obtain ⟨mid, midFrame, grows⟩ := level.exists_reframed
      { first.frame with loop := some ⟨false, labels⟩ } (by rw [same]) (by rw [same])
      (by rw [same]) (by rw [same])
    obtain ⟨final, finalFrame, more, parks⟩ := parks mid midFrame
    exact ⟨final, finalFrame, grows.trans more, parks⟩
  · intro level slots inner same good innerScope innerLayers innerFinals serves top
    let before : Ctx strict := inner.reframe innerScope
      { first.frame with loop := some ⟨false, labels⟩ } rfl rfl rfl rfl
    obtain ⟨again, againScope, againLayers⟩ := exists_clauses before rfl declares top
    have bodyAround : Around base (switching ctx.scope.length before.layers out) again.scope
        again.layers := by
      rw [againScope, againLayers]
      refine @Around.enter_switch _ _ _ _ _ _ around labels declares.loop
        (declares.func.trans declaring.plain.2) _ ?_ (.refl _)
      have cost : last.cost = first.frame.cost := by simp [Frame.cost, declares.owned]
      exact cost ▸ serves
    have parksHere : ∀ ident slot, parked = some (ident, slot) → again.Vacant ∧
        ∃ layer : Layer, again.layers[0]? = some layer ∧ layer.level.Parks slot := by
      intro ident slot parkedSome
      have owned : level.frame.owned = true := by
        obtain ⟨_, opening, -⟩ := declaring
        have bindsSubject : bound.isSome = true := by simp [← parkedIs, parkedSome]
        have lastOwned : last.owned = true := by
          rw [declares.owned, show ({ first.frame with loop := some ⟨false, labels⟩ } : Frame).owned =
            first.frame.owned from rfl, opening.owned]
          simp [bindsSubject]
        rw [same]
        exact lastOwned
      have layersIs : again.layers = { level, ready := slots } :: ctx.layers := by
        rw [againLayers]
        change inner.layers = _
        simp [innerLayers, entering, owned, stored]
      refine ⟨fun layer found => ?_, _, by rw [layersIs]; rfl, good ident slot parkedSome⟩
      obtain rfl : _ = layer := by simpa [layersIs] using found
      rfl
    obtain ⟨sites, isBodies, runs⟩ :=
      bodiesRun again base _ _ parked _ codes bodyAround parksHere (by rwa [againScope])
    rw [againLayers] at runs isBodies
    rw [length]
    refine ⟨_, fun opening isOpening => ?_,
      @dispatched_runs _ _ _ _ before _ _ _ _ _ _ runs ?_ (againLayers ▸ bodyAround.deep)⟩
    · have site : before.site = ⟨{ first.frame with loop := some ⟨false, labels⟩ } :: ctx.scope,
          last.opening (finals ctx.layers)⟩ := congrArg (Site.mk _) innerFinals
      rw [againScope, show finals before.layers = before.site.finals from rfl, site] at isBodies
      rw [site, Ctx.site]
      simp only [scope] at opened compiledTypes isOpening isBodies ⊢
      exact .typeSwitch boundIs.symm rfl opened rfl compiledTypes allocated isOpening isBodies
    intro lands starts finish
    have each : ∀ (index : Nat) start, (codes.map (·.start))[index]? = some start →
        lands start ((parked.map (·.2)).elim before.layers fun slot =>
          parking slot ((types.map boundType)[index]?.getD .any) before.layers) := by
      intro index start found
      refine starts index start _ found (boundEntries_get ?_)
      rw [List.getElem?_map, Option.map_eq_some_iff] at found
      obtain ⟨code, found, -⟩ := found
      exact (List.getElem?_eq_some_iff.mp found).1
    have subjectFits := (subjectSound before operand compiledSubject).interfaceCode isInterface
    cases parked with
    | none =>
      refine .typeSwitch subjectFits ?_ ?_
      · intro entry member
        obtain ⟨index, list, -, isStart, -⟩ := tagged_mem member
        exact each index _ isStart
      · rcases fallback_cases default (codes.map (·.start)) (ClauseCode.finish
            (here + first.length + 1) codes) with same | ⟨index, -, isStart⟩
        · rw [same]
          exact finish _ (.refl _)
        · exact each index _ isStart
    | some pair =>
      obtain ⟨ident, slot⟩ := pair
      obtain ⟨vacant, layer, found, parksSlot⟩ := parksHere ident slot rfl
      rw [againLayers] at found
      refine .typeSwitchParked subjectFits found parksSlot ?_ ?_
      · intro entry member
        obtain ⟨index, list, isList, isStart, inside⟩ := tagged_mem member
        have entered := each index _ isStart
        simp only [Option.map_some, Option.elim_some, List.getElem?_map, isList,
          Option.getD_some] at entered
        exact ⟨boundType list, boundType_known inside, entered⟩
      · rcases fallback_cases default (codes.map (·.start)) (ClauseCode.finish
            (here + first.length + 1) codes) with same | ⟨index, isDefault, isStart⟩
        · rw [same]
          exact finish _ (againLayers ▸ parking_serves vacant slot .any)
        · subst isDefault
          obtain ⟨clauseSpan, isClause⟩ := defaultClause_default compiledDefault
          rw [List.getElem?_map, Option.map_eq_some_iff] at isClause
          obtain ⟨clause, isClause, marked⟩ := isClause
          simp only [Prod.mk.injEq, Option.isNone_iff_eq_none] at marked
          have entered := each index _ isStart
          simp only [Option.map_some, Option.elim_some, List.getElem?_map,
            clauseTypes_get compiledTypes isClause marked.1, Option.getD_some] at entered
          exact entered

theorem parkReceived_level {receives : Bool} {parked : Option (Slot × Slot)} {after : Frame}
    (taken : parkReceived frame receives = (parked, after)) :
    Declares frame after [] ∧ parked.isSome = receives ∧
      ∀ level : Level, level.frame = frame → ∃ final : Level, final.frame = after ∧
        level.Grows final ∧ ∀ value flag, parked = some (value, flag) →
          final.Parks value ∧ final.Has flag ∧ flag.slotClass = .word ∧ flag.type = .bool := by
  cases receives with
  | false =>
    simp only [parkReceived, Bool.false_eq_true, if_false, Prod.mk.injEq] at taken
    obtain ⟨rfl, rfl⟩ := taken
    exact ⟨.refl frame, rfl, fun level same => ⟨level, same, .refl level, by simp⟩⟩
  | true =>
    simp only [parkReceived, if_true, Prod.mk.injEq] at taken
    obtain ⟨rfl, rfl⟩ := taken
    refine ⟨(Frame.allocate_declares frame .any).trans (Frame.allocate_declares _ .bool), rfl,
      fun level same => ?_⟩
    subst same
    obtain ⟨mid, midFrame, midGrows, parks⟩ := level.exists_parking
    obtain ⟨final, finalFrame, grows, shared, flagType⟩ := mid.exists_plain .bool
    rw [midFrame] at finalFrame shared flagType
    refine ⟨final, finalFrame, midGrows.trans grows, fun value flag same => ?_⟩
    simp only [Option.some.injEq, Prod.mk.injEq] at same
    obtain ⟨rfl, rfl⟩ := same
    exact ⟨grows.parks parks, shared.1, by simp [Frame.allocate, Ty.isScalar], flagType⟩

end Compile

/-- What a clause of a select does with a received value suits the type of the value. -/
def Receive.Typed (strict : Prop) (ctx : Ctx strict) (elem : Option Ty) : Receive → Prop
  | .discard => True
  | .define _ _ type => elem = some type
  | .assign value flag => ∃ type flags, elem = some type ∧
      PlaceTyped strict ctx value (Place.type? value) ∧ type.StoresTo (Place.type? value) ∧
      PlacesTyped strict ctx flag.toList flags ∧ ∀ wanted ∈ flags, Ty.StoresTo .bool wanted

/-- The clauses of a select, each with the type of what it receives; a default clause receives
nothing. -/
inductive SelectTyped (strict : Prop) (scope : Scope) :
    List (Option (Comm × Receive)) → List (Option Ty) → Prop
  | nil : SelectTyped strict scope [] []
  | default {comms : List (Option (Comm × Receive))} {received : List (Option Ty)} :
    SelectTyped strict scope comms received →
    SelectTyped strict scope (none :: comms) (none :: received)
  | comm {comm : Comm} {receive : Receive} {elem : Option Ty}
      {comms : List (Option (Comm × Receive))} {received : List (Option Ty)} :
    (∀ ctx : Ctx strict, ctx.scope = scope →
      CommsTyped strict ctx [comm] [elem] ∧ receive.Typed strict ctx elem) →
    SelectTyped strict scope comms received →
    SelectTyped strict scope (some (comm, receive) :: comms) (elem :: received)

namespace SelectTyped

variable {scope : Scope} {comms : List (Option (Comm × Receive))} {received : List (Option Ty)}

theorem length_eq (typed : SelectTyped strict scope comms received) :
    received.length = comms.length := by
  induction typed with
  | nil => rfl
  | default _ ih => simp [ih]
  | comm _ _ ih => simp [ih]

theorem get_none (typed : SelectTyped strict scope comms received) {index : Nat}
    (found : comms[index]? = some none) : received[index]? = some none := by
  induction typed generalizing index with
  | nil => simp at found
  | default _ ih =>
    cases index with
    | zero => rfl
    | succ index => simpa using ih (by simpa using found)
  | comm _ _ ih =>
    cases index with
    | zero => simp at found
    | succ index => simpa using ih (by simpa using found)

theorem commsTyped (typed : SelectTyped strict scope comms received) {ctx : Ctx strict}
    (same : ctx.scope = scope) {starts : List Nat} {lands : Nat → Option Ty → Prop}
    (length : starts.length = comms.length)
    (each : ∀ (index : Nat) start elem, starts[index]? = some start →
      received[index]? = some elem → lands start elem) :
    ∃ elems, CommsTyped strict ctx ((Compile.selectTargets comms starts).map (·.1)) elems ∧
      List.Forall₂ (fun (entry : Comm × Nat) elem => lands entry.2 elem)
        (Compile.selectTargets comms starts) elems := by
  induction typed generalizing starts with
  | nil => exact ⟨[], .nil, .nil⟩
  | default _ ih =>
    cases starts with
    | nil => simp at length
    | cons start starts =>
      obtain ⟨elems, comms, landing⟩ := ih (by simpa using length)
        fun index start elem found known =>
          each (index + 1) start elem (by simpa using found) (by simpa using known)
      exact ⟨elems, comms, landing⟩
  | @comm comm receive elem _ _ first _ ih =>
    cases starts with
    | nil => simp at length
    | cons start starts =>
      obtain ⟨elems, comms, landing⟩ := ih (by simpa using length)
        fun index start elem found known =>
          each (index + 1) start elem (by simpa using found) (by simpa using known)
      refine ⟨elem :: elems, ?_, .cons (each 0 start elem rfl rfl) landing⟩
      cases (first ctx same).1 with
      | send channel value _ => exact .send channel value comms
      | recv channel _ => exact .recv channel comms

end SelectTyped

namespace Compile

theorem selectComms_length {scope : Scope} {clauses : List CommClause}
    {comms : List (Option (Comm × Receive))} (compiled : selectComms scope clauses = .ok comms) :
    comms.length = clauses.length := by
  induction clauses generalizing comms with
  | nil =>
    simp only [selectComms, Compiled.pure_eq_ok] at compiled
    exact compiled ▸ rfl
  | cons clause clauses ih =>
    obtain ⟨node, body, span⟩ := clause
    cases node with
    | none =>
      simp only [selectComms, Compiled.bind_eq_ok, Compiled.pure_eq_ok] at compiled
      obtain ⟨others, compiledOthers, rfl⟩ := compiled
      simp [ih compiledOthers]
    | some node =>
      simp only [selectComms, Compiled.bind_eq_ok, Compiled.pure_eq_ok] at compiled
      obtain ⟨_, -, others, compiledOthers, rfl⟩ := compiled
      simp [ih compiledOthers]

theorem selectComms_default {scope : Scope} {clauses : List CommClause}
    {comms : List (Option (Comm × Receive))} (compiled : selectComms scope clauses = .ok comms)
    {index : Nat} {clause : CommClause} (found : clauses[index]? = some clause)
    (none : clause.comm = none) : comms[index]? = some .none := by
  induction clauses generalizing comms index with
  | nil => simp at found
  | cons first clauses ih =>
    obtain ⟨node, body, span⟩ := first
    cases node with
    | none =>
      simp only [selectComms, Compiled.bind_eq_ok, Compiled.pure_eq_ok] at compiled
      obtain ⟨others, compiledOthers, rfl⟩ := compiled
      cases index with
      | zero => rfl
      | succ index => simpa using ih compiledOthers (by simpa using found)
    | some node =>
      simp only [selectComms, Compiled.bind_eq_ok, Compiled.pure_eq_ok] at compiled
      obtain ⟨_, -, others, compiledOthers, rfl⟩ := compiled
      cases index with
      | zero =>
        simp only [List.getElem?_cons_zero, Option.some.injEq] at found
        subst found
        simp [CommClause.comm] at none
      | succ index => simpa using ih compiledOthers (by simpa using found)

theorem select_contained {clauses : List CommClause}
    (commsTyped : ∀ (ctx : Ctx strict) comms, selectComms ctx.scope clauses = .ok comms →
      ∃ received, SelectTyped strict ctx.scope comms received)
    (bodiesRun : ∀ (before ctx : Ctx strict) base out here parked comms received codes,
      Around base out ctx.scope ctx.layers → before.layers = ctx.layers →
      SelectTyped strict before.scope comms received → comms.length = clauses.length →
      (∀ value flag, parked = some (value, flag) → ctx.Vacant ∧
        ∃ layer : Layer, ctx.layers[0]? = some layer ∧ layer.level.Parks value ∧
          layer.level.Has flag ∧ flag.slotClass = .word ∧ flag.type = .bool) →
      selectBodies ctx.scope parked (comms.map (·.map (·.2))) here clauses = .ok codes →
      ∃ sites, SelectSites before.site ctx.scope parked.isSome (comms.map (·.map (·.2))) clauses
          sites ∧
        ClausesRun strict base out ctx.layers here codes sites
          (received.map fun elem => parked.elim ctx.layers fun slots =>
            receiving slots.1 elem ctx.layers))
    (compiled : stmt outer frame here labels (.select clauses span) = .ok piece) :
    Contained strict outer frame here piece fun finals =>
      StmtSites outer frame finals labels (.select clauses span) := by
  simp only [stmt, Compiled.bind_eq_ok, Compiled.pure_eq_ok] at compiled
  obtain ⟨default, compiledDefault, fragment, compiled, rfl⟩ := compiled
  refine ⟨rfl, fun ctx base out scope around => inScope_runs compiled ?_ around⟩
  intro here piece content
  simp only [Compiled.bind_eq_ok] at content
  obtain ⟨comms, compiledComms, content⟩ := content
  generalize receivesIs : clauses.any _ = receives at compiledComms content ⊢
  generalize allocated : parkReceived { owned := receives, loop := some ⟨false, labels⟩ } receives =
    result at content
  obtain ⟨parked, last⟩ := result
  simp only [Compiled.pure_eq_ok] at content
  obtain ⟨codes, compiledBodies, rfl⟩ := content
  have length : outer.length + 1 = ctx.scope.length := by simp [scope]
  rw [← scope] at compiledComms compiledBodies
  obtain ⟨declares, parkedIs, parks⟩ := parkReceived_level allocated
  refine (Declaring.empty ctx.scope { owned := receives }).opens
    (fun level => ∀ value flag, parked = some (value, flag) →
      level.Parks value ∧ level.Has flag ∧ flag.slotClass = .word ∧ flag.type = .bool)
    around ?_ (List.nil_append _).symm ?_
  · intro level same
    obtain ⟨mid, midFrame, grows⟩ := level.exists_reframed
      { owned := receives, loop := some ⟨false, labels⟩ } (by rw [same]; rfl)
      (by rw [same]; rfl) (by rw [same]; rfl) (by rw [same]; rfl)
    obtain ⟨final, finalFrame, more, parks⟩ := parks mid midFrame
    exact ⟨final, finalFrame, grows.trans more, parks⟩
  · intro level slots inner same good innerScope innerLayers innerFinals serves top
    let before : Ctx strict := inner.reframe innerScope
      { owned := receives, loop := some ⟨false, labels⟩ } rfl rfl rfl rfl
    obtain ⟨again, againScope, againLayers⟩ := exists_clauses before rfl declares top
    have bodyAround : Around base (switching ctx.scope.length before.layers out) again.scope
        again.layers := by
      rw [againScope, againLayers]
      refine @Around.enter_switch _ _ _ _ _ _ around labels declares.loop declares.func _ ?_
        (.refl _)
      have cost : last.cost = Frame.cost { owned := receives } := by
        simp [Frame.cost, declares.owned]
      exact cost ▸ serves
    have parksHere : ∀ value flag, parked = some (value, flag) → again.Vacant ∧
        ∃ layer : Layer, again.layers[0]? = some layer ∧ layer.level.Parks value ∧
          layer.level.Has flag ∧ flag.slotClass = .word ∧ flag.type = .bool := by
      intro value flag parkedSome
      have owned : level.frame.owned = true := by
        have lastOwned : last.owned = true := by
          rw [declares.owned, ← parkedIs, parkedSome]
          rfl
        rw [same]
        exact lastOwned
      have layersIs : again.layers = { level, ready := slots } :: ctx.layers := by
        rw [againLayers]
        change inner.layers = _
        simp [innerLayers, entering, owned, stored]
      refine ⟨fun layer found => ?_, _, by rw [layersIs]; rfl, good value flag parkedSome⟩
      obtain rfl : _ = layer := by simpa [layersIs] using found
      rfl
    obtain ⟨received, commsTyped⟩ := commsTyped before comms compiledComms
    have commsLength := selectComms_length compiledComms
    obtain ⟨sites, isBodies, runs⟩ := bodiesRun before again base _ _ parked comms received codes
      bodyAround againLayers.symm commsTyped commsLength parksHere (by rwa [againScope])
    rw [againLayers] at runs
    rw [length]
    refine ⟨_, ?_,
      @dispatched_runs _ _ _ here before _ _ _ _ _ _ runs ?_ (againLayers ▸ bodyAround.deep)⟩
    · rintro _ rfl
      have site : before.site = ⟨{ owned := receives, loop := some ⟨false, labels⟩ } :: ctx.scope,
          last.opening (finals ctx.layers)⟩ := congrArg (Site.mk _) innerFinals
      rw [againScope, site] at isBodies
      rw [site, Ctx.site]
      simp only [scope] at compiledComms isBodies ⊢
      exact .select receivesIs.symm rfl compiledComms allocated isBodies
    intro lands starts finish
    have codesLength : (codes.map (·.start)).length = comms.length := by
      rw [List.length_map, runs.length_eq, List.length_map, commsTyped.length_eq]
    obtain ⟨elems, typed, landing⟩ := @SelectTyped.commsTyped _ _ _ _ commsTyped before rfl _
      (fun start elem => lands start (parked.elim before.layers fun slots =>
        receiving slots.1 elem before.layers)) codesLength
      fun index start elem found known => starts index start _ found (by simp [known])
    have next : ∀ dest, (default.bind ((codes.map (·.start))[·]?)) = some dest →
        lands dest before.layers := by
      intro dest isDest
      obtain ⟨index, rfl, isStart⟩ := Option.bind_eq_some_iff.mp isDest
      obtain ⟨clauseSpan, isClause⟩ := defaultClause_default compiledDefault
      rw [List.getElem?_map, Option.map_eq_some_iff] at isClause
      obtain ⟨clause, isClause, marked⟩ := isClause
      simp only [Prod.mk.injEq, Option.isNone_iff_eq_none] at marked
      have known := commsTyped.get_none (selectComms_default compiledComms isClause marked.1)
      have entered := starts index dest _ isStart (by rw [List.getElem?_map, known]; rfl)
      cases parked <;> simpa [receiving] using entered
    cases parked with
    | none =>
      have all : ∀ entry ∈ selectTargets comms (codes.map (·.start)),
          lands entry.2 before.layers :=
        ((List.forall₂_and_left (R := fun _ _ => True) _ _).mp
          (landing.imp fun _ _ lands => ⟨lands, trivial⟩)).1
      exact .select typed all next
    | some pair =>
      obtain ⟨value, flag⟩ := pair
      obtain ⟨-, layer, found, parksValue, hasFlag⟩ := parksHere value flag rfl
      rw [againLayers] at found
      exact .selectParked typed found parksValue hasFlag landing next

end Compile

end MiniGo
