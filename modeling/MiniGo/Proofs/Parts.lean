import MiniGo.Proofs.Heads
/-!
Parts of statements: right-hand sides, returned values, the bodies of clauses that take a parked
value, and functions around their bodies.
-/

namespace MiniGo

namespace Compile

variable {strict : Prop} {span : Span}

theorem operands_length {scope : Scope} {check : Option Operand → Operand → Compiled Operand}
    {first : Option Operand} {nodes : List Expr} {compiled : List Operand}
    (same : operands scope check first nodes = .ok compiled) : compiled.length = nodes.length := by
  induction nodes generalizing first compiled with
  | nil =>
    simp only [operands, Compiled.pure_eq_ok] at same
    exact same ▸ rfl
  | cons node nodes ih =>
    simp only [operands, Compiled.bind_eq_ok, Compiled.pure_eq_ok] at same
    obtain ⟨_, -, _, -, others, compiledOthers, rfl⟩ := same
    simp [ih compiledOthers]

theorem places_length {scope : Scope} {nodes : List Expr} {compiled : List Place}
    (same : places scope nodes = .ok compiled) : compiled.length = nodes.length := by
  induction nodes generalizing compiled with
  | nil =>
    simp only [places, Compiled.pure_eq_ok] at same
    exact same ▸ rfl
  | cons node nodes ih =>
    simp only [places, Compiled.bind_eq_ok, Compiled.pure_eq_ok] at same
    obtain ⟨_, -, others, compiledOthers, rfl⟩ := same
    simp [ih compiledOthers]

theorem ofSingle_typed {ctx : Ctx strict} {operand : Operand} {count : Nat} {values : Rhs}
    (typed : operand.Typed strict ctx) (compiled : Rhs.ofSingle operand count span = .ok values) :
    values.Typed strict ctx := by
  unfold Rhs.ofSingle at compiled
  split at compiled
  · simp only [Compiled.pure_eq_ok] at compiled
    subst compiled
    simpa [Rhs.Typed] using typed
  · split at compiled
    · simp at compiled
    · simp only [Compiled.pure_eq_ok] at compiled
      exact compiled ▸ typed

theorem caseValue_fits {ctx : Ctx strict} {tag : Ty} {operand : Operand} {code : Code}
    (typed : operand.Typed strict ctx) (compiled : caseValue tag operand span = .ok code) :
    ∃ type, CodeFits strict ctx code type := by
  simp only [caseValue, Compiled.bind_eq_ok] at compiled
  obtain ⟨type, typeIs, compiled⟩ := compiled
  split at compiled
  · simp only [Compiled.bind_eq_ok, Compiled.pure_eq_ok] at compiled
    obtain ⟨converted, conversion, rfl⟩ := compiled
    exact ⟨tag, typed.convertTo_code conversion⟩
  · split at compiled
    · simp only [Compiled.pure_eq_ok] at compiled
      exact ⟨type, compiled ▸ typed.toCode (Operand.type_eq_ok.mp typeIs)⟩
    · simp at compiled

theorem element_place {ctx : Ctx strict} {base index : Operand} {container type : Ty}
    (typed : base.Typed strict ctx) (single : base.types = [container])
    (indexed : elementIndexType container span = .ok type)
    (fits : CodeFits strict ctx index.toCode type) :
    PlaceTyped strict ctx (.element container base.toCode index.toCode)
      (Place.type? (.element container base.toCode index.toCode)) := by
  have baseFits := typed.toCode single
  unfold elementIndexType at indexed
  split at indexed <;> simp at indexed <;> subst indexed
  · exact .item baseFits fits
  · exact .entry baseFits fits

theorem toInstr_eval {ctx : Ctx strict} {operand : Operand} (typed : operand.Typed strict ctx)
    (notConst : operand.isConst = false) : ∃ values types, operand.toInstr = .eval values ∧
      ValuesTyped strict ctx values types := by
  unfold Operand.Typed at typed
  unfold Operand.isConst Operand.const? at notConst
  unfold Operand.toInstr
  cases same : operand.code <;> simp only [same] at typed notConst ⊢
  · simp at notConst
  · obtain ⟨type, -, fits⟩ := typed
    exact ⟨_, [type], rfl, .each (.cons fits .nil)⟩
  · obtain ⟨types, valuesTyped, -⟩ := typed
    exact ⟨_, types, rfl, valuesTyped⟩

theorem commaOk_arity {scope : Scope} {node : Expr} {pair : Operand}
    (compiled : commaOk scope node = .ok (some pair)) : pair.arity = 2 := by
  unfold commaOk at compiled
  split at compiled
  · simp only [Compiled.bind_eq_ok] at compiled
    obtain ⟨_, -, container, -, compiled⟩ := compiled
    split at compiled <;> simp at compiled
    obtain ⟨_, -, _, -, rfl⟩ := compiled
    rfl
  · simp only [Compiled.bind_eq_ok, Compiled.pure_eq_ok, Option.some.injEq] at compiled
    obtain ⟨_, -, _, -, _, -, rfl⟩ := compiled
    rfl
  · simp only [Compiled.bind_eq_ok, Compiled.pure_eq_ok, Option.some.injEq] at compiled
    obtain ⟨_, -, _, -, _, -, rfl⟩ := compiled
    rfl
  · simp at compiled

theorem ofSingle_arity {operand : Operand} {count : Nat} {values : Rhs}
    (compiled : Rhs.ofSingle operand count span = .ok values) : values.arity = count := by
  unfold Rhs.ofSingle at compiled
  split at compiled
  · rename_i one
    simp only [Compiled.pure_eq_ok] at compiled
    simp [← compiled, Rhs.arity, one.2]
  · split at compiled
    · simp at compiled
    · rename_i same
      simp only [Compiled.pure_eq_ok] at compiled
      simpa [← compiled, Rhs.arity] using same

theorem rhs_arity {scope : Scope} {count : Nat} {nodes : List Expr} {values : Rhs}
    (compiled : rhs scope count span nodes = .ok values) : values.arity = count := by
  unfold rhs at compiled
  split at compiled
  · split at compiled
    · rename_i two
      simp only [Compiled.bind_eq_ok] at compiled
      obtain ⟨pair, compiledPair, compiled⟩ := compiled
      cases pair with
      | some pair =>
        simp only [Compiled.pure_eq_ok] at compiled
        simp [← compiled, Rhs.arity, commaOk_arity compiledPair, two]
      | none =>
        simp only [Compiled.bind_eq_ok] at compiled
        obtain ⟨operand, -, compiled⟩ := compiled
        exact ofSingle_arity compiled
    · simp only [pure_bind, Compiled.bind_eq_ok] at compiled
      obtain ⟨operand, -, compiled⟩ := compiled
      exact ofSingle_arity compiled
  · split at compiled <;> simp at compiled
    rename_i none
    simp [← compiled, Rhs.arity, none]
  · split at compiled
    · simp at compiled
    rename_i same
    simp only [Compiled.bind_eq_ok, Compiled.pure_eq_ok] at compiled
    obtain ⟨first, -, others, compiledOthers, rfl⟩ := compiled
    simp only [Rhs.arity, List.length_cons, operands_length compiledOthers]
    omega

def isComm : Stmt → Bool
  | .send _ _ _ | .expr (.unary .recv _ _) | .assign _ _ [.unary .recv _ _] _ => true
  | _ => false

theorem comm_isComm {scope : Scope} {node : Stmt} {found : Comm × Receive}
    (compiled : comm scope node = .ok found) : isComm node = true := by
  unfold comm at compiled
  split at compiled
  · rfl
  · rfl
  · rfl
  · simp at compiled

theorem comm_many {scope : Scope} {lhs rest : List Expr} {op : AssignOp} {first second : Expr}
    {found : Comm × Receive}
    (compiled : comm scope (.assign lhs op (first :: second :: rest) span) = .ok found) : False := by
  have known := comm_isComm compiled
  unfold isComm at known
  split at known <;> simp_all

theorem checkCompound_plain {op : BinaryOp} (checked : checkCompound op span = .ok ()) :
    (op.isComparison || op.isLogical) = false := by
  unfold checkCompound at checked
  split at checked
  · simp at checked
  · rename_i plain
    simpa using plain

theorem returnValues_runs {ctx : Ctx strict} {base here hops : Nat}
    {out : Nat → ExitKind → List Layer → Prop} {keyword : Keyword} {info : FuncInfo}
    {given : List Operand} {fragment : Fragment} (around : Around base out ctx.scope ctx.layers)
    (found : enclosing ctx.scope keyword span = .ok (hops, info))
    (typed : ∀ operand ∈ given, operand.Typed strict ctx)
    (compiled : returnValues hops info.results given span = .ok fragment) :
    Runs strict base out here fragment.lines (.replicate fragment.lines.length ctx.site) ctx.layers
      ctx.layers := by
  unfold enclosing at found
  split at found <;> simp at found
  rename_i place isFunction
  subst found
  simp only [returnValues, Compiled.bind_eq_ok, Compiled.pure_eq_ok] at compiled
  obtain ⟨values, returned, rfl⟩ := compiled
  obtain ⟨sources, valuesTyped, assignable⟩ := returnAll_typed typed returned
  obtain ⟨layer, isLayer, shared⟩ := around.returns hops info isFunction
  exact .one ctx (.ret isLayer shared valuesTyped (List.forall₂_map_right_iff.mp assignable))

theorem initEach_length {declared : Option Ty} {given : List Operand} {types : List Ty}
    {codes : List Code} (compiled : initEach declared given = .ok (types, codes)) :
    types.length = given.length := by
  induction given generalizing types codes with
  | nil =>
    simp only [initEach, Compiled.pure_eq_ok, Prod.mk.injEq] at compiled
    exact compiled.1 ▸ rfl
  | cons operand given ih =>
    simp only [initEach, Compiled.bind_eq_ok] at compiled
    obtain ⟨_, -, type, -, compiled⟩ := compiled
    split at compiled
    · simp at compiled
    simp only [Compiled.bind_eq_ok, Prod.exists, Compiled.pure_eq_ok, Prod.mk.injEq] at compiled
    obtain ⟨others, _, each, rfl, -⟩ := compiled
    simp [ih each]

theorem initValues_length {declared : Option Ty} {count : Nat} {given : List Operand}
    {types : List Ty} {values : Values}
    (compiled : initValues declared count given span = .ok (types, values)) :
    types.length = count := by
  have separate : initSeparate declared count given span = .ok (types, values) →
      types.length = count := by
    intro compiled
    simp only [initSeparate] at compiled
    split at compiled
    · simp at compiled
    rename_i same
    simp only [Compiled.bind_eq_ok, Prod.exists, Compiled.pure_eq_ok, Prod.mk.injEq] at compiled
    obtain ⟨found, codes, each, rfl, -⟩ := compiled
    rw [initEach_length each]
    simpa using same
  unfold initValues at compiled
  split at compiled
  · split at compiled <;> simp at compiled
    simp [← compiled.1]
  · split at compiled
    · simp only [initMulti] at compiled
      split at compiled
      · simp at compiled
      rename_i same
      split at compiled
      · simp only [Compiled.pure_eq_ok, Prod.mk.injEq] at compiled
        simpa [← compiled.1, Operand.arity] using same
      · simp only [Compiled.bind_eq_ok, Compiled.pure_eq_ok, Prod.mk.injEq] at compiled
        obtain ⟨-, -, rfl, -⟩ := compiled
        simp
    · exact separate compiled
  · exact separate compiled

theorem template_typed {ctx : Ctx strict} {head : FuncHead} {signature : Signature}
    {params : List (Option Slot)} {results : List Slot} {frame : Frame} {statements : List Stmt}
    {body : Piece}
    (resolved : ctx.scope.resolveHead span head = .ok signature) (proper : strict → head.Proper)
    (framed : functionFrame head signature = .ok (params, results, frame))
    (compiled : stmts ctx.scope frame 0 false statements = .ok body)
    (declaring : Declarable ctx.scope frame → Declaring strict ctx.scope frame 0 body fun finals =>
      StmtsSites ctx.scope frame finals false statements) :
    TemplateTyped strict ctx (template signature params results body) := by
  obtain ⟨paramCount, resultCount, isProper⟩ := Scope.resolveHead_spec resolved
  obtain ⟨level, levelFrame, owned, loop, ⟨named, func⟩, paramsFit, resultsFit, known⟩ :=
    functionFrame_level paramCount resultCount framed
  obtain ⟨slots, declares, runs⟩ := declaring ⟨⟨level, levelFrame⟩, ctx.sound⟩
  obtain ⟨final, finalFrame, grows⟩ := declares.level level levelFrame
  let entry : Ctx strict :=
    ⟨frame :: ctx.scope,
      { level := final, ready := params.filterMap id ++ results } :: ctx.layers,
      .owned owned (levelFrame ▸ grows.covers) (fun _ name slot member _ => known name slot member)
        ctx.fits⟩
  have around : Around ctx.layers.length (fun _ _ _ => False) entry.scope entry.layers := by
    refine ⟨Nat.lt_succ_self _, ?_, ?_⟩
    · intro kind label hops level found
      simp [entry, Scope.exit?, loop, func] at found
    · intro hops info found
      simp only [entry, Scope.function?, func, Option.some.injEq, Prod.mk.injEq] at found
      obtain ⟨rfl, rfl⟩ := found
      refine ⟨_, rfl, fun slot member => grows.shared slot ?_⟩
      exact ((List.forall₂_and_left (R := fun _ _ => True) _ _).mp
        (resultsFit.imp fun _ _ fit => ⟨fit.1, trivial⟩)).1 slot member
  have top : Top entry.layers body.frame := by
    refine ⟨fun _ => ⟨_, rfl, finalFrame ▸ (Level.Grows.refl final).covers⟩, fun bare => ?_⟩
    simp [declares.owned, owned] at bare
  obtain ⟨_, laid, positions, rfl, flows, enter⟩ := runs entry _ _ rfl around top
  rw [finals_cons, finalFrame] at laid
  have same : function ctx.scope head span (.mk statements span) =
      .ok (template signature params results body) := by
    simp [function, resolved, framed, compiled]
  refine @TemplateTyped.mk _ _ _ head span (.mk statements span) final positions _ same
    (.mk resolved framed compiled laid) (by rw [finalFrame]; rfl) (by rw [finalFrame]; rfl) ?_ ?_
    (fun isStrict => isProper (proper isStrict)) ?_ enter ?_
  · exact paramsFit.imp fun _ _ fit found same =>
      ⟨grows.shared found (fit found same).1, (fit found same).2⟩
  · exact resultsFit.imp fun _ _ fit => ⟨grows.shared _ fit.1, fit.2⟩
  · simpa [template, Template.program] using flows.length_eq
  · intro index line here found known
    have typed := flows.get (by simpa [template, Template.program] using found) known
    rwa [Nat.zero_add] at typed

theorem function_signature {scope before : Scope} {head : FuncHead} {body : Block}
    {compiled : Template} {signature : Signature}
    (same : function scope head span body = .ok compiled)
    (refines : ∀ found, scope.resolveHead span head = .ok found →
      before.resolveHead span head = .ok found)
    (resolved : before.resolveHead span head = .ok signature) :
    compiled.signature = signature := by
  obtain ⟨statements, _⟩ := body
  simp only [function, Compiled.bind_eq_ok, Prod.exists, Compiled.pure_eq_ok] at same
  obtain ⟨found, again, _, _, _, -, _, -, rfl⟩ := same
  have both := refines found again
  rw [resolved, Except.ok.injEq] at both
  exact both.symm

theorem function_params {scope : Scope} {head : FuncHead} {body : Block} {compiled : Template}
    (same : function scope head span body = .ok compiled) :
    compiled.signature.params.length = head.params.length := by
  obtain ⟨statements, _⟩ := body
  simp only [function, Compiled.bind_eq_ok, Prod.exists, Compiled.pure_eq_ok] at same
  obtain ⟨found, resolved, _, _, _, -, _, -, rfl⟩ := same
  exact (Scope.resolveHead_spec resolved).1.symm

/-- A function declared inside another is bound to the slot of its name. Its body sees the name, but
not that it has been stored. -/
theorem bind_runs {ctx : Ctx strict} {base here : Nat} {out : Nat → ExitKind → List Layer → Prop}
    {outer : Scope} {frame grown : Frame} {slot : Slot} {template : Template}
    (declares : Declares frame grown [slot]) (scope : ctx.scope = frame :: outer)
    (top : Top ctx.layers grown) (same : template.signature.toTy = slot.type)
    (typed : ∀ ctx : Ctx strict, ctx.scope = grown :: outer →
      TemplateTyped strict ctx.lasting template) :
    Runs strict base out here [⟨.bind slot template, span⟩]
      [⟨grown :: outer, finals ctx.layers⟩] ctx.layers (stored [slot] ctx.layers) := by
  have fits := ctx.fits
  rw [scope] at fits
  have owned : frame.owned = true := by
    by_contra bare
    have none := (fits.bare_declares declares top (by simpa using bare)).1
    simp at none
  have notString : slot.type ≠ .string := by simp [← same, Signature.toTy]
  obtain ⟨layer, found, covers⟩ := top.owned (declares.owned.trans owned)
  obtain ⟨name, member⟩ := declares.named slot (by simp)
  have grownFits : Fits strict (grown :: outer) ctx.layers := by
    generalize ctx.layers = layers at fits found
    cases fits with
    | bare bare => simp [owned] at bare
    | @owned _ _ first rest _ _ ready others =>
      obtain rfl : first = layer := by simpa using found
      refine .owned (declares.owned.trans owned) covers ?_ others
      intro isStrict name found member string
      rcases declares.fresh name found member with before | new
      · exact ready isStrict name found before string
      · obtain rfl : found = slot := by simpa using new
        exact absurd string notString
  exact .one ⟨grown :: outer, ctx.layers, grownFits⟩
    (.bind found (covers.shared member) (typed ⟨_, _, grownFits⟩ rfl) (fun _ => same)
      ⟨rfl, .refl _⟩)

section Clauses

variable {ctx : Ctx strict} {base here : Nat} {out : Nat → ExitKind → List Layer → Prop}
  {layer : Layer} {bodyKind : List Frame → List Site → Prop} {kind : List Site → Prop}

theorem bound_inside {subject : Slot} {type : Ty} {name : String} {nameSpan : Span}
    {slot : Option Slot} {grown : Frame} {copy : Fragment} {body : Piece}
    (around : Around base out ctx.scope ctx.layers) (found : ctx.layers[0]? = some layer)
    (parks : layer.level.Parks subject) (known : (subject, type) ∈ layer.parked)
    (declared : Frame.declareVar { owned := true } name type nameSpan = .ok (slot, grown))
    (copyIs : copy = slot.elim {} fun slot => .one (.adopt [(subject, slot)]) span)
    (declaring : Declaring strict ctx.scope grown (here + copy.length) body bodyKind)
    (join : ∀ sites, bodyKind (body.frame :: finals ctx.layers) sites →
      kind (.replicate slot.toList.length
        ⟨{ owned := true } :: ctx.scope, body.frame :: finals ctx.layers⟩ ++ sites)) :
    Inside ctx base out true here ((copy ++ body.toFragment).within body.frame) kind := by
  obtain ⟨declares, typeIs⟩ := Frame.declareVar_declares declared
  have opening : body.frame.opening (finals ctx.layers) = body.frame :: finals ctx.layers := by
    obtain ⟨_, bodyDeclares, -⟩ := declaring
    simp [Frame.opening, (declares.trans bodyDeclares).owned]
  cases slot with
  | none =>
    subst copyIs
    exact adopting_inside [] span around declares (.inl ⟨rfl, rfl⟩) (by simp) declaring rfl rfl
      (by simpa [opening] using join)
  | some slot =>
    subst copyIs
    refine adopting_inside [(subject, slot)] span around declares
      (.inr ⟨rfl, rfl, by simp⟩) ?_ declaring rfl rfl (by simpa [opening] using join)
    simp only [List.mem_singleton, forall_eq]
    exact ⟨by simp, layer, found,
      .inr ⟨parks, type, known, typeIs slot rfl ▸ type.assignableTo_refl⟩⟩

theorem received_inside {valueSlot flagSlot : Slot} {elem : Ty} {value flag : Option Ident}
    {slots : List (Option Slot)} {grown : Frame} {copy : Fragment} {body : Piece}
    (around : Around base out ctx.scope ctx.layers) (found : ctx.layers[0]? = some layer)
    (parks : layer.level.Parks valueSlot) (known : (valueSlot, elem) ∈ layer.parked)
    (flagIs : layer.level.Has flagSlot ∧ flagSlot.slotClass = .word ∧ flagSlot.type = .bool)
    (declared : Frame.declareParams { owned := value.isSome || flag.isSome }
      [(value, elem), (flag, .bool)] = .ok (slots, grown))
    (copyIs : copy = if value.isSome || flag.isSome then
        .one (.adopt (([valueSlot, flagSlot].zip slots).filterMap fun (source, slot) =>
          slot.map (source, ·))) span
      else {})
    (declaring : Declaring strict ctx.scope grown (here + copy.length) body bodyKind)
    (join : ∀ sites, bodyKind (body.frame.opening (finals ctx.layers)) sites →
      kind (.replicate (value.isSome || flag.isSome).toNat
        ⟨{ owned := value.isSome || flag.isSome } :: ctx.scope,
          body.frame.opening (finals ctx.layers)⟩ ++ sites)) :
    Inside ctx base out (value.isSome || flag.isSome) here
      ((copy ++ body.toFragment).within body.frame) kind := by
  obtain ⟨⟨names, declares, isName⟩, typed⟩ := Frame.declareParams_declares declared
  obtain ⟨first, second, rfl⟩ : ∃ first second, slots = [first, second] := by
    match slots, typed.length_eq with
    | [first, second], _ => exact ⟨first, second, rfl⟩
  rw [List.forall₂_cons, List.forall₂_cons] at typed
  obtain ⟨firstType, secondType, -⟩ := typed
  by_cases owned : (value.isSome || flag.isSome) = true
  · rw [if_pos owned] at copyIs
    subst copyIs
    refine adopting_inside _ span around declares (.inr ⟨owned, rfl, ?_⟩) ?_ declaring rfl rfl
      (by simpa [owned] using join)
    · intro slot member
      have isSlot := (isName slot).mp member
      simp only [List.mem_cons, List.not_mem_nil, or_false] at isSlot
      rcases isSlot with rfl | rfl
      · simp
      · cases first <;> simp
    · intro pair member
      simp only [List.zip_cons_cons, List.zip_nil_left, List.mem_filterMap, List.mem_cons,
        List.not_mem_nil, or_false, Option.map_eq_some_iff] at member
      obtain ⟨⟨source, slot⟩, isPair, target, isTarget, rfl⟩ := member
      simp only [Prod.mk.injEq] at isPair isTarget
      rcases isPair with ⟨rfl, rfl⟩ | ⟨rfl, rfl⟩
      · subst isTarget
        refine ⟨(isName target).mpr (by simp), layer, found, .inr ⟨parks, elem, known, ?_⟩⟩
        rw [firstType target rfl]
        exact elem.assignableTo_refl
      · subst isTarget
        refine ⟨(isName target).mpr (by simp), layer, found, .inl ⟨flagIs.1, flagIs.2.1, ?_⟩⟩
        rw [secondType target rfl, flagIs.2.2]
        rfl
  · have none : value = none ∧ flag = none := by simpa using owned
    obtain ⟨rfl, rfl⟩ := none
    simp only [Option.isSome_none, Bool.or_self, Bool.false_eq_true, if_false] at copyIs
    subst copyIs
    have noSlots : names = [] := by
      simp only [Frame.declareParams, Compiled.bind_eq_ok, Compiled.pure_eq_ok, Prod.exists,
        Prod.mk.injEq] at declared
      refine List.eq_nil_iff_forall_not_mem.mpr fun slot member => ?_
      have isSlot := (isName slot).mp member
      obtain ⟨_, _, ⟨_, _, ⟨rfl, rfl⟩, rfl, rfl⟩, same, -⟩ := declared
      simp [← same] at isSlot
    exact adopting_inside [] span around declares (.inl ⟨rfl, noSlots⟩)
      (by simp) declaring rfl rfl (by simpa using join)

end Clauses

end Compile

end MiniGo
