import MiniGo.Proofs.Parts
/-!
Whatever is compiled is typed: one induction over syntax trees, with a case for each form that the
compiler takes apart.
-/

namespace MiniGo

namespace Compile

variable {strict : Prop}

mutual

theorem expr_sound (node : Expr) (proper : ProperIf strict node.heads) : node.Sound strict := by
  intro ctx operand compiled
  match node with
  | .ident ident =>
    simp only [expr] at compiled
    exact Operand.typed_ofIdent compiled
  | .int value _ =>
    simp only [expr, Compiled.pure_eq_ok] at compiled
    exact compiled ▸ Operand.typed_const rfl
  | .float value _ =>
    simp only [expr, Compiled.pure_eq_ok] at compiled
    exact compiled ▸ Operand.typed_const rfl
  | .bool value _ =>
    simp only [expr, Compiled.pure_eq_ok] at compiled
    exact compiled ▸ Operand.typed_const rfl
  | .string value _ =>
    simp only [expr, Compiled.pure_eq_ok] at compiled
    exact compiled ▸ Operand.typed_const rfl
  | .binary op left right _ =>
    simp only [Expr.heads, properIf_append] at proper
    simp only [expr, Compiled.bind_eq_ok] at compiled
    obtain ⟨first, compiledFirst, second, compiledSecond, compiled⟩ := compiled
    have firstTyped := expr_sound left proper.1 ctx first compiledFirst
    have secondTyped := expr_sound right proper.2 ctx second compiledSecond
    split at compiled
    · exact firstTyped.logical secondTyped compiled
    · rename_i plain
      exact firstTyped.binary (by simpa using plain) secondTyped compiled
  | .unary op inner _ =>
    simp only [Expr.heads] at proper
    simp only [expr, Compiled.bind_eq_ok] at compiled
    obtain ⟨given, compiledGiven, compiled⟩ := compiled
    exact (expr_sound inner proper ctx given compiledGiven).unary compiled
  | .call callee args ellipsis _ =>
    simp only [Expr.heads, properIf_append] at proper
    simp only [expr, Compiled.bind_eq_ok] at compiled
    obtain ⟨kind, -, compiled⟩ := compiled
    cases kind with
    | conversion target => exact conversion_typed args proper.2 ctx compiled
    | builtin builtin =>
      simp only [Compiled.bind_eq_ok] at compiled
      obtain ⟨⟨⟩, used, compiled⟩ := compiled
      split at compiled
      · rename_i isMake
        obtain rfl : builtin = .make := by simpa using isMake
        exact make_typed args proper.2 ctx used compiled
      · simp only [Compiled.bind_eq_ok] at compiled
        obtain ⟨given, compiledGiven, compiled⟩ := compiled
        exact Builtin.toOperand_typed (operands_checked args proper.2 ctx compiledGiven)
          (operands_length compiledGiven) used compiled
    | function =>
      simp only [Compiled.bind_eq_ok, Compiled.pure_eq_ok] at compiled
      obtain ⟨called, compiledCallee, signature, isFunction, given, compiledGiven, invoke,
        invoked, rfl⟩ := compiled
      exact Invoke.toOperand_typed (Invoke.function_typed
        (expr_sound callee proper.1 ctx called compiledCallee) (Invoke.signature_eq_ok isFunction)
        (operands_checked args proper.2 ctx compiledGiven).unchecked invoked)
  | .func head body _ =>
    simp only [Expr.heads, properIf_cons] at proper
    simp only [expr, Compiled.bind_eq_ok, Compiled.pure_eq_ok] at compiled
    obtain ⟨template, compiledBody, rfl⟩ := compiled
    exact Operand.typed_single
      (CodeTyped.closure (function_typed body proper.1 proper.2 ctx.lasting compiledBody)).fits
  | .index base index _ =>
    simp only [Expr.heads, properIf_append] at proper
    simp only [expr, Compiled.bind_eq_ok] at compiled
    obtain ⟨whole, compiledBase, container, isContainer, type, indexed, given, compiledIndex,
      converted, conversion, compiled⟩ := compiled
    exact Operand.Typed.element (expr_sound base proper.1 ctx whole compiledBase)
      (Operand.type_eq_ok.mp isContainer) indexed
      ((expr_sound index proper.2 ctx given compiledIndex).convertTo_code conversion) compiled
  | .sliceLit elem elems _ =>
    simp only [Expr.heads] at proper
    simp only [expr, Compiled.bind_eq_ok, Compiled.pure_eq_ok] at compiled
    obtain ⟨type, -, items, compiledItems, rfl⟩ := compiled
    exact Operand.typed_single
      (CodeTyped.sliceLit (operands_checked elems proper ctx compiledItems).converted).fits
  | .mapLit key value entries _ =>
    simp only [Expr.heads] at proper
    simp only [expr, Compiled.bind_eq_ok] at compiled
    obtain ⟨keyType, -, compiled⟩ := compiled
    split at compiled
    · simp at compiled
    rename_i isKey
    simp only [Compiled.bind_eq_ok, Compiled.pure_eq_ok] at compiled
    obtain ⟨valueType, -, codes, compiledEntries, rfl⟩ := compiled
    exact Operand.typed_single
      (CodeTyped.mapLit (by simpa using isKey) (mapEntries_fit entries proper ctx compiledEntries)).fits
  | .typeAssert inner written _ =>
    simp only [Expr.heads] at proper
    simp only [expr, Compiled.bind_eq_ok, Compiled.pure_eq_ok] at compiled
    obtain ⟨given, compiledGiven, code, isInterface, target, -, rfl⟩ := compiled
    exact Operand.typed_single (CodeTyped.typeAssert
      ((expr_sound inner proper ctx given compiledGiven).interfaceCode isInterface)).fits
  | .type written _ => simp [expr] at compiled

theorem conversion_typed {span : Span} {target : Ty} {operand : Operand} (args : List Expr)
    (proper : ProperIf strict (Expr.headsOf args)) (ctx : Ctx strict)
    (compiled : conversion ctx.scope target span args = .ok operand) :
    operand.Typed strict ctx := by
  match args with
  | [] => simp [conversion] at compiled
  | [arg] =>
    simp only [Expr.headsOf, properIf_append] at proper
    simp only [conversion, Compiled.bind_eq_ok] at compiled
    obtain ⟨given, compiledGiven, compiled⟩ := compiled
    exact (expr_sound arg proper.1 ctx given compiledGiven).conversion compiled
  | _ :: _ :: _ => simp [conversion] at compiled

theorem make_typed {span : Span} {ellipsis : Bool} {operand : Operand} (args : List Expr)
    (proper : ProperIf strict (Expr.headsOf args)) (ctx : Ctx strict)
    (used : Builtin.checkUse .make ellipsis args.length span = .ok ())
    (compiled : make ctx.scope ellipsis span args = .ok operand) : operand.Typed strict ctx := by
  match args with
  | [] =>
    simp only [make] at compiled
    exact @Builtin.toOperand_typed _ _ _ _ _ 0 [] _ trivial rfl used compiled
  | written :: sizes =>
    simp only [Expr.headsOf, properIf_append] at proper
    simp only [make, Compiled.bind_eq_ok] at compiled
    obtain ⟨type, isType, given, compiledSizes, compiled⟩ := compiled
    refine Builtin.made_typed (Builtin.madeType_keyed isType) ?_ compiled
    exact (operands_checked sizes proper.2 ctx compiledSizes).all fun first given result typed passed =>
      typed.convertTo_code passed

theorem operands_checked {check : Option Operand → Operand → Compiled Operand}
    {first : Option Operand} {compiled : List Operand} (nodes : List Expr)
    (proper : ProperIf strict (Expr.headsOf nodes)) (ctx : Ctx strict)
    (same : operands ctx.scope check first nodes = .ok compiled) :
    CheckedBy strict ctx check first compiled := by
  match nodes with
  | [] =>
    simp only [operands, Compiled.pure_eq_ok] at same
    exact same ▸ trivial
  | node :: rest =>
    simp only [Expr.headsOf, properIf_append] at proper
    simp only [operands, Compiled.bind_eq_ok, Compiled.pure_eq_ok] at same
    obtain ⟨given, compiledNode, passed, checked, others, compiledOthers, rfl⟩ := same
    exact ⟨⟨given, expr_sound node proper.1 ctx given compiledNode, checked⟩,
      operands_checked rest proper.2 ctx compiledOthers⟩

theorem mapEntries_fit {key value : Ty} {codes : List (Code × Code)} (entries : List (Expr × Expr))
    (proper : ProperIf strict (Expr.headsOfEntries entries)) (ctx : Ctx strict)
    (compiled : mapEntries ctx.scope key value entries = .ok codes) :
    EntriesFit strict ctx codes key value := by
  match entries with
  | [] =>
    simp only [mapEntries, Compiled.pure_eq_ok] at compiled
    exact compiled ▸ .nil
  | (keyNode, valueNode) :: rest =>
    simp only [Expr.headsOfEntries, properIf_append] at proper
    simp only [mapEntries, Compiled.bind_eq_ok, Compiled.pure_eq_ok] at compiled
    obtain ⟨givenKey, compiledKey, _, convertedKey, givenValue, compiledValue, _, convertedValue,
      others, compiledOthers, rfl⟩ := compiled
    exact .cons ((expr_sound keyNode proper.1.1 ctx givenKey compiledKey).convertTo_code convertedKey)
      ((expr_sound valueNode proper.1.2 ctx givenValue compiledValue).convertTo_code convertedValue)
      (mapEntries_fit rest proper.2 ctx compiledOthers)

theorem commaOk_typed {pair : Operand} (node : Expr) (proper : ProperIf strict node.heads)
    (ctx : Ctx strict) (compiled : commaOk ctx.scope node = .ok (some pair)) :
    pair.Typed strict ctx := by
  match node with
  | .index base index _ =>
    simp only [Expr.heads, properIf_append] at proper
    simp only [commaOk, Compiled.bind_eq_ok] at compiled
    obtain ⟨whole, compiledBase, container, isContainer, compiled⟩ := compiled
    split at compiled
    · rename_i key value
      simp only [Compiled.bind_eq_ok, Compiled.pure_eq_ok, Option.some.injEq] at compiled
      obtain ⟨given, compiledIndex, converted, conversion, rfl⟩ := compiled
      exact Operand.typed_multi (.mapLookup
        ((expr_sound base proper.1 ctx whole compiledBase).toCode (Operand.type_eq_ok.mp isContainer))
        ((expr_sound index proper.2 ctx given compiledIndex).convertTo_code conversion))
    · simp at compiled
  | .unary op channel _ =>
    cases op with
    | recv =>
      simp only [Expr.heads] at proper
      simp only [commaOk, Compiled.bind_eq_ok, Compiled.pure_eq_ok, Option.some.injEq] at compiled
      obtain ⟨given, compiledChannel, type, isType, elem, received, rfl⟩ := compiled
      obtain ⟨direction, rfl⟩ := Operand.recvElem_eq_ok received
      exact Operand.typed_multi (.receiveOk
        ((expr_sound channel proper ctx given compiledChannel).toCode (Operand.type_eq_ok.mp isType)))
    | neg => simp [commaOk] at compiled
    | not => simp [commaOk] at compiled
  | .typeAssert inner written _ =>
    simp only [Expr.heads] at proper
    simp only [commaOk, Compiled.bind_eq_ok, Compiled.pure_eq_ok, Option.some.injEq] at compiled
    obtain ⟨given, compiledGiven, code, isInterface, target, -, rfl⟩ := compiled
    exact Operand.typed_multi (.typeAssertOk
      ((expr_sound inner proper ctx given compiledGiven).interfaceCode isInterface))
  | .ident _ | .int _ _ | .float _ _ | .bool _ _ | .string _ _ | .binary _ _ _ _ | .call _ _ _ _
  | .func _ _ _ | .sliceLit _ _ _ | .mapLit _ _ _ _ | .type _ _ => simp [commaOk] at compiled

theorem place_sound (node : Expr) (proper : ProperIf strict node.heads) :
    node.PlaceSound strict := by
  intro ctx found compiled
  match node with
  | .ident ident =>
    simp only [place] at compiled
    exact identPlace_typed compiled
  | .index base index _ =>
    simp only [Expr.heads, properIf_append] at proper
    simp only [place, Compiled.bind_eq_ok, Compiled.pure_eq_ok] at compiled
    obtain ⟨whole, compiledBase, container, isContainer, type, indexed, given, compiledIndex,
      converted, conversion, rfl⟩ := compiled
    exact element_place (expr_sound base proper.1 ctx whole compiledBase)
      (Operand.type_eq_ok.mp isContainer) indexed
      ((expr_sound index proper.2 ctx given compiledIndex).convertTo_code conversion)
  | .int _ _ | .float _ _ | .bool _ _ | .string _ _ | .binary _ _ _ _ | .unary _ _ _
  | .call _ _ _ _ | .func _ _ _ | .sliceLit _ _ _ | .mapLit _ _ _ _ | .typeAssert _ _ _
  | .type _ _ => simp [place] at compiled

theorem optional_sound (node : Option Expr) (proper : ProperIf strict (Expr.headsIn node)) :
    ∀ found, node = some found → found.Sound strict := by
  match node with
  | none => simp
  | some node =>
    simp only [Expr.headsIn] at proper
    intro found same
    obtain rfl : node = found := by simpa using same
    exact expr_sound node proper

theorem optional_placeSound (node : Option Expr) (proper : ProperIf strict (Expr.headsIn node)) :
    ∀ found, node = some found → found.PlaceSound strict := by
  match node with
  | none => simp
  | some node =>
    simp only [Expr.headsIn] at proper
    intro found same
    obtain rfl : node = found := by simpa using same
    exact place_sound node proper

theorem places_typed {found : List Place} (nodes : List Expr)
    (proper : ProperIf strict (Expr.headsOf nodes)) (ctx : Ctx strict)
    (compiled : places ctx.scope nodes = .ok found) :
    ∀ place ∈ found, PlaceTyped strict ctx place (Place.type? place) := by
  match nodes with
  | [] =>
    simp only [places, Compiled.pure_eq_ok] at compiled
    simp [← compiled]
  | node :: rest =>
    simp only [Expr.headsOf, properIf_append] at proper
    simp only [places, Compiled.bind_eq_ok, Compiled.pure_eq_ok] at compiled
    obtain ⟨first, compiledFirst, others, compiledOthers, rfl⟩ := compiled
    exact List.forall_mem_cons.mpr ⟨place_sound node proper.1 ctx first compiledFirst,
      places_typed rest proper.2 ctx compiledOthers⟩

theorem rhs_typed {span : Span} {count : Nat} {values : Rhs} (nodes : List Expr)
    (proper : ProperIf strict (Expr.headsOf nodes)) (ctx : Ctx strict)
    (compiled : rhs ctx.scope count span nodes = .ok values) : values.Typed strict ctx := by
  match nodes with
  | [] =>
    simp only [rhs] at compiled
    split at compiled <;> simp at compiled
    subst compiled
    simp [Rhs.Typed]
  | [single] =>
    simp only [Expr.headsOf, properIf_append] at proper
    simp only [rhs] at compiled
    have single_typed : ∀ operand, expr ctx.scope single = .ok operand →
        operand.Typed strict ctx := fun operand => expr_sound single proper.1 ctx operand
    split at compiled
    · simp only [Compiled.bind_eq_ok] at compiled
      obtain ⟨pair, compiledPair, compiled⟩ := compiled
      cases pair with
      | some pair =>
        simp only [Compiled.pure_eq_ok] at compiled
        exact compiled ▸ commaOk_typed single proper.1 ctx compiledPair
      | none =>
        simp only [Compiled.bind_eq_ok] at compiled
        obtain ⟨operand, compiledSingle, compiled⟩ := compiled
        exact ofSingle_typed (single_typed operand compiledSingle) compiled
    · simp only [pure_bind, Compiled.bind_eq_ok] at compiled
      obtain ⟨operand, compiledSingle, compiled⟩ := compiled
      exact ofSingle_typed (single_typed operand compiledSingle) compiled
  | node :: next :: rest =>
    simp only [Expr.headsOf, properIf_append] at proper
    simp only [rhs] at compiled
    split at compiled
    · simp at compiled
    simp only [Compiled.bind_eq_ok, Compiled.pure_eq_ok] at compiled
    obtain ⟨first, compiledFirst, others, compiledOthers, rfl⟩ := compiled
    have firstTyped := expr_sound node proper.1 ctx first compiledFirst
    have othersTyped := (operands_checked (next :: rest)
      (by simpa only [Expr.headsOf, properIf_append] using proper.2) ctx compiledOthers).unchecked
    exact List.forall_mem_cons.mpr ⟨firstTyped, othersTyped⟩

theorem prepareCall_typed {keyword : Keyword} {invoke : Invoke} (node : Expr)
    (proper : ProperIf strict node.heads) (ctx : Ctx strict)
    (compiled : prepareCall ctx.scope keyword node = .ok invoke) :
    CallTyped strict ctx invoke.call invoke.results := by
  match node with
  | .call callee args ellipsis _ =>
    simp only [Expr.heads, properIf_append] at proper
    simp only [prepareCall, Compiled.bind_eq_ok] at compiled
    obtain ⟨kind, -, compiled⟩ := compiled
    cases kind with
    | conversion target => simp at compiled
    | builtin builtin =>
      simp only at compiled
      split at compiled
      · simp at compiled
      split at compiled
      · simp at compiled
      simp only [Compiled.bind_eq_ok] at compiled
      obtain ⟨⟨⟩, used, given, compiledGiven, compiled⟩ := compiled
      have checked := operands_checked args proper.2 ctx compiledGiven
      refine Builtin.invoke_typed (checked.all fun _ _ _ => Builtin.checkArgument_typed) ?_ compiled
      intro params types
      cases builtin with
      | delete =>
        refine Builtin.delete_takes checked ?_ types
        rw [operands_length compiledGiven]
        exact Builtin.checkUse_count used rfl
      | _ => trivial
    | function =>
      simp only [Compiled.bind_eq_ok] at compiled
      obtain ⟨called, compiledCallee, signature, isFunction, given, compiledGiven, invoked⟩ :=
        compiled
      exact Invoke.function_typed
        (expr_sound callee proper.1 ctx called compiledCallee) (Invoke.signature_eq_ok isFunction)
        (operands_checked args proper.2 ctx compiledGiven).unchecked invoked
  | .ident _ | .int _ _ | .float _ _ | .bool _ _ | .string _ _ | .binary _ _ _ _ | .unary _ _ _
  | .index _ _ _ | .func _ _ _ | .sliceLit _ _ _ | .mapLit _ _ _ _ | .typeAssert _ _ _
  | .type _ _ => simp [prepareCall] at compiled

theorem function_typed {span : Span} {head : FuncHead} {compiled : Template} (body : Block)
    (properHead : strict → head.Proper) (proper : ProperIf strict body.heads) (ctx : Ctx strict)
    (same : function ctx.scope head span body = .ok compiled) :
    TemplateTyped strict ctx compiled := by
  match body with
  | .mk statements _ =>
    simp only [Block.heads] at proper
    simp only [function, Compiled.bind_eq_ok, Prod.exists, Compiled.pure_eq_ok] at same
    obtain ⟨signature, resolved, params, results, frame, framed, piece, compiledBody, rfl⟩ := same
    exact template_typed resolved properHead framed compiledBody fun declarable =>
      stmts_extends statements proper _ _ _ piece declarable compiledBody

theorem stmts_extends {clause : Bool} (nodes : List Stmt)
    (proper : ProperIf strict (Stmt.headsOf nodes)) :
    Extends strict (fun outer frame here => stmts outer frame here clause nodes)
      fun outer frame finals => StmtsSites outer frame finals clause nodes := by
  intro outer frame here piece declarable compiled
  match nodes with
  | [] =>
    simp only [stmts, Compiled.pure_eq_ok] at compiled
    exact compiled ▸ .nothing outer frame fun _ => .nil
  | node :: rest =>
    simp only [Stmt.headsOf, properIf_append] at proper
    simp only [stmts] at compiled
    split at compiled
    · rename_i falls
      simp only [Compiled.pure_eq_ok] at compiled
      simp only [Bool.and_eq_true, List.isEmpty_iff] at falls
      obtain ⟨⟨rfl, rfl⟩, falls⟩ := falls
      exact compiled ▸ .nothing outer frame fun _ => .falls falls
    rename_i goesOn
    simp only [Compiled.bind_eq_ok, Compiled.pure_eq_ok] at compiled
    obtain ⟨first, compiledFirst, others, compiledOthers, rfl⟩ := compiled
    have left := stmt_extends node proper.1 _ _ _ first declarable compiledFirst
    obtain ⟨slots, declares, -⟩ := id left
    exact left.append
      (stmts_extends rest proper.2 _ _ _ others (declarable.after declares) compiledOthers)
      fun _ _ _ isFirst isRest => .cons (by simpa using goesOn) compiledFirst isFirst isRest

theorem scopedStmts_settles {span : Span} {clause : Bool} (nodes : List Stmt)
    (proper : ProperIf strict (Stmt.headsOf nodes)) :
    Settles strict (fun scope here => scopedStmts scope here clause span nodes)
      fun scope finals => ScopedSites scope finals clause nodes := by
  intro ctx base out here fragment around compiled
  match nodes with
  | [] =>
    simp only [scopedStmts, Compiled.pure_eq_ok] at compiled
    exact ⟨[], .nil, compiled ▸ .nil (.refl _)⟩
  | node :: rest =>
    simp only [Stmt.headsOf, properIf_append] at proper
    simp only [scopedStmts] at compiled
    refine inScope_runs compiled (fun here piece content => ?_) around
    have whole : stmts ctx.scope { owned := (node :: rest).any Stmt.declares } here clause
        (node :: rest) = .ok piece := by
      simpa only [stmts] using content
    have declaring : Declaring strict ctx.scope { owned := (node :: rest).any Stmt.declares } here piece
        fun finals => StmtsSites ctx.scope { owned := (node :: rest).any Stmt.declares } finals clause
          (node :: rest) := by
      split at content
      · rename_i falls
        simp only [Compiled.pure_eq_ok] at content
        simp only [Bool.and_eq_true, List.isEmpty_iff] at falls
        obtain ⟨⟨rfl, rfl⟩, falls⟩ := falls
        exact content ▸ .nothing ctx.scope _ fun _ => .falls falls
      rename_i goesOn
      simp only [Compiled.bind_eq_ok, Compiled.pure_eq_ok] at content
      obtain ⟨first, compiledFirst, others, compiledOthers, rfl⟩ := content
      have declarable := Declarable.empty ctx.sound ((node :: rest).any Stmt.declares)
      have left := stmt_extends node proper.1 _ _ _ first declarable compiledFirst
      obtain ⟨slots, declares, -⟩ := id left
      exact left.append
        (stmts_extends rest proper.2 _ _ _ others (declarable.after declares) compiledOthers)
        fun _ _ _ isFirst isRest => .cons (by simpa using goesOn) compiledFirst isFirst isRest
    exact declaring.inside around fun _ => .cons whole

theorem block_settles (body : Block) (proper : ProperIf strict body.heads) :
    Settles strict (fun scope here => block scope here body)
      fun scope finals => BlockSites scope finals body := by
  match body with
  | .mk statements span =>
    simp only [Block.heads] at proper
    simp only [block]
    intro ctx base out here fragment around compiled
    obtain ⟨sites, isScoped, runs⟩ :=
      scopedStmts_settles statements proper ctx base out here fragment around compiled
    exact ⟨sites, .mk isScoped, runs⟩

theorem initStmt_extends (node : Option Stmt) (proper : ProperIf strict (Stmt.headsIn node)) :
    Extends strict (fun outer frame here => initStmt outer frame here node)
      fun outer frame finals => OptionSites outer frame finals node := by
  intro outer frame here piece declarable compiled
  match node with
  | none =>
    simp only [initStmt, Compiled.pure_eq_ok] at compiled
    exact compiled ▸ .nothing outer frame fun _ => .none
  | some node =>
    simp only [Stmt.headsIn] at proper
    simp only [initStmt] at compiled
    exact (stmt_extends node proper _ _ _ piece declarable compiled).imp fun _ _ => .some

theorem postStmt_extends (node : Option Stmt) (proper : ProperIf strict (Stmt.headsIn node)) :
    Extends strict (fun outer frame here => postStmt outer frame here node)
      fun outer frame finals => OptionSites outer frame finals node := by
  intro outer frame here piece declarable compiled
  match node with
  | none =>
    simp only [postStmt, Compiled.pure_eq_ok] at compiled
    exact compiled ▸ .nothing outer frame fun _ => .none
  | some node =>
    simp only [Stmt.headsIn] at proper
    simp only [postStmt] at compiled
    split at compiled
    · simp at compiled
    exact (stmt_extends node proper _ _ _ piece declarable compiled).imp fun _ _ => .some

theorem elseStmt_runs (node : Option Stmt) (proper : ProperIf strict (Stmt.headsIn node))
    (outer : Scope) (frame : Frame) (ctx : Ctx strict) (base : Nat)
    (out : Nat → ExitKind → List Layer → Prop) (here : Nat) (fragment : Fragment)
    (scope : ctx.scope = frame :: outer) (around : Around base out ctx.scope ctx.layers)
    (compiled : elseStmt outer frame here node = .ok fragment) :
    ∃ sites, ElseSites outer frame (finals ctx.layers) node sites ∧
      Runs strict base out here fragment.lines sites ctx.layers ctx.layers := by
  match node with
  | none =>
    simp only [elseStmt, Compiled.pure_eq_ok] at compiled
    exact ⟨[], .none, compiled ▸ .nil (.refl _)⟩
  | some node =>
    simp only [Stmt.headsIn] at proper
    simp only [elseStmt] at compiled
    split at compiled
    · rename_i isBody
      simp only [Compiled.bind_eq_ok, Compiled.pure_eq_ok] at compiled
      obtain ⟨piece, compiledPiece, rfl⟩ := compiled
      match node with
      | .block body =>
        simp only [Stmt.heads] at proper
        simp only [stmt, Compiled.bind_eq_ok, Compiled.pure_eq_ok] at compiledPiece
        obtain ⟨fragment, compiledBody, rfl⟩ := compiledPiece
        rw [← scope] at compiledBody
        obtain ⟨sites, isBlock, runs⟩ :=
          block_settles body proper ctx base out here fragment around compiledBody
        rw [scope] at isBlock
        exact ⟨sites, .body isBody (.block isBlock), runs⟩
      | .ifElse init cond thenBranch elseBranch _ =>
        simp only [Stmt.heads, properIf_append] at proper
        obtain ⟨sites, isIf, runs⟩ := (ifElse_contained (initStmt_extends init proper.1.1.1)
          (expr_sound cond proper.1.1.2) (block_settles thenBranch proper.1.2)
          (elseStmt_runs elseBranch proper.2) compiledPiece).2 ctx base out scope around
        exact ⟨sites, .body isBody isIf, runs⟩
      | .empty _ | .bad _ | .assign _ _ _ _ | .branch _ _ _ | .caseClause _ | .commClause _
      | .decl _ | .defer _ _ | .expr _ | .forLoop _ _ _ _ _ | .go _ _ | .incDec _ _ _
      | .labeled _ _ _ | .range _ _ _ _ _ _ | .ret _ _ | .select _ _ | .send _ _ _
      | .switch _ _ _ _ | .typeSwitch _ _ _ _ _ => simp [Stmt.isBranchBody] at isBody
    · rename_i notBody
      rw [← scope] at compiled
      refine inScope_runs compiled (fun here piece content => ?_) around
      refine (stmt_extends node proper _ _ _ piece (.empty ctx.sound _) content).inside around
        fun sites inner => ?_
      rw [Ctx.site]
      simp only [scope] at content inner ⊢
      exact .scoped (by simpa using notBody) content inner

theorem stmt_extends {labels : List String} (node : Stmt) (proper : ProperIf strict node.heads) :
    Extends strict (fun outer frame here => stmt outer frame here labels node)
      fun outer frame finals => StmtSites outer frame finals labels node := by
  intro outer frame here piece declarable compiled
  match node with
  | .empty _ =>
    refine Flat.stmtSites rfl compiled ?_
    simp only [stmt, Compiled.pure_eq_ok] at compiled
    exact compiled ▸ .flat_nothing outer frame
  | .bad _ => simp [stmt] at compiled
  | .caseClause _ => simp [stmt] at compiled
  | .commClause _ => simp [stmt] at compiled
  | .labeled label body _ =>
    simp only [Stmt.heads] at proper
    simp only [stmt] at compiled
    exact (stmt_extends body proper outer frame here piece declarable compiled).imp fun _ _ => .labeled
  | .block body =>
    simp only [Stmt.heads] at proper
    simp only [stmt, Compiled.bind_eq_ok, Compiled.pure_eq_ok] at compiled
    obtain ⟨fragment, compiledBody, rfl⟩ := compiled
    refine Contained.declaring ⟨rfl, fun ctx base out scope around => ?_⟩
    rw [← scope] at compiledBody
    obtain ⟨sites, isBlock, runs⟩ :=
      block_settles body proper ctx base out here fragment around compiledBody
    exact ⟨sites, .block (scope ▸ isBlock), runs⟩
  | .branch kind label _ =>
    refine Flat.stmtSites rfl compiled ?_
    simp only [stmt, Compiled.bind_eq_ok, Compiled.pure_eq_ok] at compiled
    obtain ⟨fragment, compiledBranch, rfl⟩ := compiled
    refine Contained.declaring (.flat rfl fun ctx base out scope around => ?_)
    rw [← scope] at compiledBranch
    exact branchStmt_runs around compiledBranch
  | .expr inner =>
    refine Flat.stmtSites rfl compiled ?_
    simp only [Stmt.heads] at proper
    simp only [stmt, Compiled.bind_eq_ok] at compiled
    obtain ⟨operand, compiledInner, compiled⟩ := compiled
    split at compiled <;> simp only [Compiled.pure_eq_ok] at compiled <;> subst compiled
    · exact .flat_nothing outer frame
    · rename_i notConst
      refine Contained.declaring (.flat rfl fun ctx base out scope around => ?_)
      rw [← scope] at compiledInner
      obtain ⟨values, types, isEval, typed⟩ :=
        toInstr_eval (expr_sound inner proper ctx operand compiledInner) (by simpa using notConst)
      rw [Piece.one_lines, isEval]
      exact .one ctx (.eval typed ⟨rfl, .refl _⟩)
  | .assign lhs op rhsNodes _ =>
    refine Flat.stmtSites rfl compiled ?_
    simp only [Stmt.heads, properIf_append] at proper
    simp only [stmt] at compiled
    cases op with
    | define =>
      simp only [Compiled.bind_eq_ok] at compiled
      obtain ⟨values, compiledValues, compiled⟩ := compiled
      obtain ⟨slots, declares, runs⟩ :=
        @define_runs strict _ outer _ _ _ _ (rhs_arity compiledValues).symm compiled
      refine .flat declares fun ctx base out scope _ top => ?_
      rw [← scope] at compiledValues
      exact runs ctx base out here scope (rhs_typed rhsNodes proper.2 ctx compiledValues) top
    | assign =>
      simp only [Compiled.bind_eq_ok, Compiled.pure_eq_ok] at compiled
      obtain ⟨targets, compiledTargets, values, compiledValues, fragment, assigned, rfl⟩ := compiled
      refine Contained.declaring (.flat rfl fun ctx base out scope around => ?_)
      rw [← scope] at compiledTargets compiledValues
      exact assign_runs (places_typed lhs proper.1 ctx compiledTargets)
        (rhs_typed rhsNodes proper.2 ctx compiledValues) (rhs_arity compiledValues) assigned
    | compound op =>
      simp only at compiled
      split at compiled
      · simp at compiled
      simp only [Compiled.bind_eq_ok] at compiled
      obtain ⟨⟨⟩, plain, targets, compiledTargets, compiled⟩ := compiled
      split at compiled
      · rename_i target
        simp only [Compiled.bind_eq_ok] at compiled
        obtain ⟨type, isType, given, compiledGiven, compiled⟩ := compiled
        split at compiled
        · rename_i operand
          simp only [Compiled.bind_eq_ok, Compiled.pure_eq_ok] at compiled
          obtain ⟨fragment, updated, rfl⟩ := compiled
          refine Contained.declaring (.flat rfl fun ctx base out scope around => ?_)
          rw [← scope] at compiledTargets compiledGiven
          have typed := (operands_checked rhsNodes proper.2 ctx compiledGiven).unchecked
          exact update_runs (checkCompound_plain plain)
            (places_typed lhs proper.1 ctx compiledTargets target (by simp))
            (typed operand (by simp)) isType updated
        · simp at compiled
      · simp at compiled
  | .incDec target increment _ =>
    refine Flat.stmtSites rfl compiled ?_
    simp only [Stmt.heads] at proper
    simp only [stmt, Compiled.bind_eq_ok, Compiled.pure_eq_ok] at compiled
    obtain ⟨found, compiledTarget, type, isType, fragment, updated, rfl⟩ := compiled
    refine Contained.declaring (.flat rfl fun ctx base out scope around => ?_)
    rw [← scope] at compiledTarget
    exact update_runs (by cases increment <;> rfl) (place_sound target proper ctx found compiledTarget)
      (Operand.typed_const rfl) isType updated
  | .decl declaration =>
    simp only [Stmt.heads] at proper
    simp only [stmt] at compiled
    exact decl_extends declaration proper outer frame here piece declarable compiled
  | .ret values _ =>
    refine Flat.stmtSites rfl compiled ?_
    simp only [Stmt.heads] at proper
    simp only [stmt, Compiled.bind_eq_ok, Prod.exists] at compiled
    obtain ⟨hops, info, found, compiled⟩ := compiled
    split at compiled
    · split at compiled
      · simp at compiled
      simp only [Compiled.pure_eq_ok] at compiled
      subst compiled
      exact Contained.declaring (.flat rfl fun ctx base out scope around => .one ctx .interrupt)
    · simp only [Compiled.bind_eq_ok, Compiled.pure_eq_ok] at compiled
      obtain ⟨given, compiledGiven, fragment, returned, rfl⟩ := compiled
      refine Contained.declaring (.flat rfl fun ctx base out scope around => ?_)
      rw [← scope] at compiledGiven found
      exact returnValues_runs around found
        (operands_checked values proper ctx compiledGiven).unchecked returned
  | .defer call _ =>
    refine Flat.stmtSites rfl compiled ?_
    simp only [Stmt.heads] at proper
    simp only [stmt, Compiled.bind_eq_ok, Compiled.pure_eq_ok] at compiled
    obtain ⟨_, -, invoke, compiledCall, rfl⟩ := compiled
    refine Contained.declaring (.flat rfl fun ctx base out scope around => ?_)
    rw [← scope] at compiledCall
    exact .one ctx (.defer (prepareCall_typed call proper ctx compiledCall) ⟨rfl, .refl _⟩)
  | .go call _ =>
    refine Flat.stmtSites rfl compiled ?_
    simp only [Stmt.heads] at proper
    simp only [stmt, Compiled.bind_eq_ok, Compiled.pure_eq_ok] at compiled
    obtain ⟨invoke, compiledCall, rfl⟩ := compiled
    refine Contained.declaring (.flat rfl fun ctx base out scope around => ?_)
    rw [← scope] at compiledCall
    exact .one ctx (.go (prepareCall_typed call proper ctx.inner compiledCall) ⟨rfl, .refl _⟩)
  | .send channel value _ =>
    refine Flat.stmtSites rfl compiled ?_
    simp only [Stmt.heads, properIf_append] at proper
    simp only [stmt, Compiled.bind_eq_ok, Compiled.pure_eq_ok] at compiled
    obtain ⟨target, compiledTarget, type, isType, elem, sends, given, compiledGiven, converted,
      conversion, rfl⟩ := compiled
    refine Contained.declaring (.flat rfl fun ctx base out scope around => ?_)
    rw [← scope] at compiledTarget compiledGiven
    obtain ⟨direction, rfl⟩ := Operand.sendElem_eq_ok sends
    exact .one ctx (.send
      ((expr_sound channel proper.1 ctx target compiledTarget).toCode (Operand.type_eq_ok.mp isType))
      ((expr_sound value proper.2 ctx given compiledGiven).convertTo_code conversion)
      ⟨rfl, .refl _⟩)
  | .ifElse init cond thenBranch elseBranch _ =>
    simp only [Stmt.heads, properIf_append] at proper
    exact (ifElse_contained (initStmt_extends init proper.1.1.1) (expr_sound cond proper.1.1.2)
      (block_settles thenBranch proper.1.2) (elseStmt_runs elseBranch proper.2) compiled).declaring
  | .forLoop init cond post body _ =>
    simp only [Stmt.heads, properIf_append] at proper
    exact (forLoop_contained (initStmt_extends init proper.1.1.1)
      (optional_sound cond proper.1.1.2) (postStmt_extends post proper.1.2)
      (block_settles body proper.2) compiled).declaring
  | .range key value isDefine subject body _ =>
    simp only [Stmt.heads, properIf_append] at proper
    exact (range_contained (optional_placeSound key proper.1.1.1)
      (optional_placeSound value proper.1.1.2) (expr_sound subject proper.1.2)
      (block_settles body proper.2) compiled).declaring
  | .switch init tag clauses _ =>
    simp only [Stmt.heads, properIf_append] at proper
    exact (switch_contained (initStmt_extends init proper.1.1) (optional_sound tag proper.1.2)
      (switchCases_fit clauses proper.2) (switchBodies_run clauses proper.2) compiled).declaring
  | .typeSwitch init binding subject clauses _ =>
    simp only [Stmt.heads, properIf_append] at proper
    exact (typeSwitch_contained (initStmt_extends init proper.1.1) (expr_sound subject proper.1.2)
      (typeSwitchBodies_run clauses proper.2) compiled).declaring
  | .select clauses _ =>
    simp only [Stmt.heads] at proper
    exact (select_contained (selectComms_typed clauses proper) (selectBodies_run clauses proper)
      compiled).declaring

theorem caseValues_fit {tag : Ty} {codes : List Code} (nodes : List Expr)
    (proper : ProperIf strict (Expr.headsOf nodes)) (ctx : Ctx strict)
    (compiled : caseValues ctx.scope tag nodes = .ok codes) :
    ∀ code ∈ codes, ∃ type, CodeFits strict ctx code type := by
  match nodes with
  | [] =>
    simp only [caseValues, Compiled.pure_eq_ok] at compiled
    simp [← compiled]
  | node :: rest =>
    simp only [Expr.headsOf, properIf_append] at proper
    simp only [caseValues, Compiled.bind_eq_ok, Compiled.pure_eq_ok] at compiled
    obtain ⟨operand, compiledNode, code, compared, others, compiledOthers, rfl⟩ := compiled
    exact List.forall_mem_cons.mpr
      ⟨caseValue_fits (expr_sound node proper.1 ctx operand compiledNode) compared,
        caseValues_fit rest proper.2 ctx compiledOthers⟩

theorem switchCases_fit (clauses : List CaseClause)
    (proper : ProperIf strict (CaseClause.headsOf clauses)) (ctx : Ctx strict) (tag : Ty)
    (cases : List (List Code)) (compiled : switchCases ctx.scope tag clauses = .ok cases) :
    ∀ codes ∈ cases, ∀ code ∈ codes, ∃ type, CodeFits strict ctx code type := by
  match clauses with
  | [] =>
    simp only [switchCases, Compiled.pure_eq_ok] at compiled
    simp [← compiled]
  | .mk none _ _ :: rest =>
    simp only [CaseClause.headsOf, properIf_append] at proper
    simp only [switchCases, Compiled.bind_eq_ok, Compiled.pure_eq_ok] at compiled
    obtain ⟨others, compiledOthers, rfl⟩ := compiled
    exact List.forall_mem_cons.mpr
      ⟨by simp, switchCases_fit rest proper.2 ctx tag others compiledOthers⟩
  | .mk (some list) _ _ :: rest =>
    simp only [CaseClause.headsOf, properIf_append] at proper
    simp only [switchCases, Compiled.bind_eq_ok, Compiled.pure_eq_ok] at compiled
    obtain ⟨codes, compiledList, others, compiledOthers, rfl⟩ := compiled
    exact List.forall_mem_cons.mpr ⟨caseValues_fit list proper.1.1 ctx compiledList,
      switchCases_fit rest proper.2 ctx tag others compiledOthers⟩

theorem switchBodies_run (clauses : List CaseClause)
    (proper : ProperIf strict (CaseClause.headsOf clauses)) (ctx : Ctx strict) (base : Nat)
    (out : Nat → ExitKind → List Layer → Prop) (here : Nat) (codes : List ClauseCode)
    (around : Around base out ctx.scope ctx.layers)
    (compiled : switchBodies ctx.scope here clauses = .ok codes) :
    ∃ sites, SwitchSites ctx.scope (finals ctx.layers) clauses sites ∧
      ClausesRun strict base out ctx.layers here codes sites
        (List.replicate codes.length ctx.layers) := by
  match clauses with
  | [] =>
    simp only [switchBodies, Compiled.pure_eq_ok] at compiled
    exact ⟨[], .nil, compiled ▸ .nil⟩
  | .mk list statements span :: rest =>
    have proper' : ProperIf strict (Stmt.headsOf statements) ∧
        ProperIf strict (CaseClause.headsOf rest) := by
      cases list <;> simp only [CaseClause.headsOf, properIf_append] at proper
      · exact proper
      · exact ⟨proper.1.2, proper.2⟩
    simp only [switchBodies] at compiled
    split at compiled
    · simp at compiled
    rename_i notLast
    simp only [Compiled.bind_eq_ok, Compiled.pure_eq_ok] at compiled
    obtain ⟨body, compiledBody, others, compiledOthers, rfl⟩ := compiled
    obtain ⟨sites, isScoped, runs⟩ :=
      scopedStmts_settles statements proper'.1 ctx base out here body around compiledBody
    obtain ⟨more, isRest, restRun⟩ :=
      switchBodies_run rest proper'.2 ctx base out _ others around compiledOthers
    refine ⟨sites :: more, .cons isScoped isRest, .cons rfl runs ?_ restRun⟩
    intro falls
    cases rest with
    | nil =>
      have fallsThrough : statements.getLast?.any Stmt.isFallthrough = true := falls
      simp [fallsThrough] at notLast
    | cons next rest =>
      obtain ⟨nextList, nextBody, nextSpan⟩ := next
      simp only [switchBodies] at compiledOthers
      split at compiledOthers
      · simp at compiledOthers
      simp only [Compiled.bind_eq_ok, Compiled.pure_eq_ok] at compiledOthers
      obtain ⟨_, -, _, -, rfl⟩ := compiledOthers
      exact ⟨ctx.layers, rfl, .refl _⟩

theorem typeSwitchBodies_run (clauses : List CaseClause)
    (proper : ProperIf strict (CaseClause.headsOf clauses)) (ctx : Ctx strict) (base : Nat)
    (out : Nat → ExitKind → List Layer → Prop) (here : Nat) (parked : Option (Ident × Slot))
    (types : List Ty) (codes : List ClauseCode) (around : Around base out ctx.scope ctx.layers)
    (parks : ∀ ident slot, parked = some (ident, slot) → ctx.Vacant ∧
      ∃ layer : Layer, ctx.layers[0]? = some layer ∧ layer.level.Parks slot)
    (compiled : typeSwitchBodies ctx.scope parked types here clauses = .ok codes) :
    ∃ sites, TypeSwitchSites ctx.scope (finals ctx.layers) (parked.map (·.1)) types clauses sites ∧
      ClausesRun strict base out ctx.layers here codes sites
        (boundEntries (parked.map (·.2)) ctx.layers types codes.length) := by
  match clauses with
  | [] =>
    simp only [typeSwitchBodies, Compiled.pure_eq_ok] at compiled
    exact ⟨[], .nil, compiled ▸ .nil⟩
  | .mk list statements span :: rest =>
    have proper' : ProperIf strict (Stmt.headsOf statements) ∧
        ProperIf strict (CaseClause.headsOf rest) := by
      cases list <;> simp only [CaseClause.headsOf, properIf_append] at proper
      · exact proper
      · exact ⟨proper.1.2, proper.2⟩
    simp only [typeSwitchBodies] at compiled
    split at compiled
    · simp at compiled
    cases parked with
    | none =>
      simp only [Compiled.bind_eq_ok, Compiled.pure_eq_ok] at compiled
      obtain ⟨body, compiledBody, others, compiledOthers, rfl⟩ := compiled
      obtain ⟨sites, isScoped, runs⟩ :=
        scopedStmts_settles statements proper'.1 ctx base out here body around compiledBody
      obtain ⟨more, isRest, restRun⟩ := typeSwitchBodies_run rest proper'.2 ctx base out _ none _
        others around parks compiledOthers
      exact ⟨sites :: more, .plain isScoped isRest, .cons rfl runs (by simp) restRun⟩
    | some binding =>
      obtain ⟨ident, subject⟩ := binding
      simp only [Compiled.bind_eq_ok, Compiled.pure_eq_ok] at compiled
      obtain ⟨body, compiledBody, others, compiledOthers, rfl⟩ := compiled
      obtain ⟨vacant, layer, found, parksSubject⟩ := parks ident subject rfl
      obtain ⟨more, isRest, restRun⟩ := typeSwitchBodies_run rest proper'.2 ctx base out _ _ _
        others around parks compiledOthers
      have serves := parking_serves vacant subject (types.headD .any)
      have innerAround := around.serve serves
      have served : finals (ctx.serving serves).layers = finals ctx.layers := serves.finals_eq
      have site : (ctx.serving serves).site = ⟨ctx.scope, finals ctx.layers⟩ :=
        congrArg (Site.mk _) served
      obtain ⟨sites, isBound, runs⟩ := @inScope_runs _ _ _ _ (ctx.serving serves) _ _ _ _
        (fun sites => TypeSwitchSites ctx.scope (finals ctx.layers) (some ident) types
          (.mk list statements span :: rest) (sites :: more)) compiledBody
        (fun here piece content => by
          simp only [Compiled.bind_eq_ok, Prod.exists, Compiled.pure_eq_ok] at content
          obtain ⟨slot, grown, declared, inner, compiledInner, rfl⟩ := content
          obtain ⟨declares, -⟩ := Frame.declareVar_declares declared
          refine bound_inside innerAround (parking_get found) parksSubject (by simp) declared
            (by cases slot <;> rfl) (stmts_extends statements proper'.1 _ _ _ inner
              ((Declarable.empty ctx.sound true).after declares) compiledInner) fun sites isBody => ?_
          rw [served] at isBody ⊢
          rw [site, Fragment.within_frame]
          exact .bound declared compiledInner isBody isRest) innerAround
      exact ⟨sites :: more, isBound, .cons rfl (runs.finish serves) (by simp) restRun⟩

theorem receivePlaces_typed {span : Span} {elem : Ty} {value : Place} {flag : Option Place}
    (nodes : List Expr)
    (proper : ProperIf strict (Expr.headsOf nodes)) (ctx : Ctx strict)
    (compiled : receivePlaces ctx.scope elem span nodes = .ok (value, flag)) :
    Receive.Typed strict ctx (some elem) (.assign value flag) := by
  match nodes with
  | [] =>
    simp only [receivePlaces, Compiled.pure_eq_ok, Prod.mk.injEq] at compiled
    obtain ⟨rfl, rfl⟩ := compiled
    exact ⟨elem, [], rfl, .blank, by simp [Ty.StoresTo, Place.type?], .nil, by simp⟩
  | [target] =>
    simp only [Expr.headsOf, properIf_append] at proper
    simp only [receivePlaces, Compiled.bind_eq_ok, Compiled.pure_eq_ok, Prod.mk.injEq] at compiled
    obtain ⟨found, compiledTarget, ⟨⟩, checked, rfl, rfl⟩ := compiled
    exact ⟨elem, [], rfl, place_sound target proper.1 ctx found compiledTarget,
      checkPlace_stores checked, .nil, by simp⟩
  | target :: second :: _ =>
    simp only [Expr.headsOf, properIf_append] at proper
    simp only [receivePlaces, Compiled.bind_eq_ok, Compiled.pure_eq_ok, Prod.mk.injEq] at compiled
    obtain ⟨found, compiledTarget, ⟨⟩, checked, other, compiledSecond, ⟨⟩, checkedFlag, rfl, rfl⟩ :=
      compiled
    exact ⟨elem, [Place.type? other], rfl, place_sound target proper.1 ctx found compiledTarget,
      checkPlace_stores checked,
      .cons (place_sound second proper.2.1 ctx other compiledSecond) .nil,
      by simpa using checkPlace_stores checkedFlag⟩

theorem comm_typed {scope : Scope} {found : Comm} {receive : Receive} (node : Stmt)
    (proper : ProperIf strict node.heads) (compiled : comm scope node = .ok (found, receive)) :
    ∃ elem, ∀ ctx : Ctx strict, ctx.scope = scope →
      CommsTyped strict ctx [found] [elem] ∧ receive.Typed strict ctx elem := by
  match node with
  | .send channel value _ =>
    simp only [Stmt.heads, properIf_append] at proper
    simp only [comm, Compiled.bind_eq_ok, Compiled.pure_eq_ok, Prod.mk.injEq] at compiled
    obtain ⟨target, compiledTarget, type, isType, elem, sends, given, compiledGiven, converted,
      conversion, rfl, rfl⟩ := compiled
    obtain ⟨direction, rfl⟩ := Operand.sendElem_eq_ok sends
    refine ⟨none, fun ctx same => ⟨?_, trivial⟩⟩
    subst same
    exact .send
      ((expr_sound channel proper.1 ctx target compiledTarget).toCode (Operand.type_eq_ok.mp isType))
      ((expr_sound value proper.2 ctx given compiledGiven).convertTo_code conversion) .nil
  | .expr (.unary op channel _) =>
    cases op with
    | recv =>
      simp only [Stmt.heads, Expr.heads] at proper
      simp only [comm, Compiled.bind_eq_ok, Compiled.pure_eq_ok, Prod.mk.injEq] at compiled
      obtain ⟨target, compiledTarget, type, isType, elem, receives, rfl, rfl⟩ := compiled
      obtain ⟨direction, rfl⟩ := Operand.recvElem_eq_ok receives
      refine ⟨some elem, fun ctx same => ⟨?_, trivial⟩⟩
      subst same
      exact .recv ((expr_sound channel proper ctx target compiledTarget).toCode
        (Operand.type_eq_ok.mp isType)) .nil
    | neg | not => exact absurd (comm_isComm compiled) Bool.false_ne_true
  | .assign lhs op [.unary unary channel _] _ =>
    cases unary with
    | recv =>
      simp only [Stmt.heads, Expr.headsOf, Expr.heads, properIf_append] at proper
      simp only [comm] at compiled
      split at compiled
      · simp at compiled
      cases op with
      | compound op => simp at compiled
      | define =>
        simp only [Compiled.bind_eq_ok, Prod.exists, Compiled.pure_eq_ok, Prod.mk.injEq] at compiled
        obtain ⟨target, compiledTarget, type, isType, elem, receives, value, flag, -, rfl, rfl⟩ :=
          compiled
        obtain ⟨direction, rfl⟩ := Operand.recvElem_eq_ok receives
        refine ⟨some elem, fun ctx same => ⟨?_, rfl⟩⟩
        subst same
        exact .recv ((expr_sound channel proper.2.1 ctx target compiledTarget).toCode
          (Operand.type_eq_ok.mp isType)) .nil
      | assign =>
        simp only [Compiled.bind_eq_ok, Prod.exists, Compiled.pure_eq_ok, Prod.mk.injEq] at compiled
        obtain ⟨target, compiledTarget, type, isType, elem, receives, value, flag, places, rfl,
          rfl⟩ := compiled
        obtain ⟨direction, rfl⟩ := Operand.recvElem_eq_ok receives
        refine ⟨some elem, fun ctx same => ?_⟩
        subst same
        exact ⟨.recv ((expr_sound channel proper.2.1 ctx target compiledTarget).toCode
          (Operand.type_eq_ok.mp isType)) .nil, receivePlaces_typed lhs proper.1 ctx places⟩
    | neg | not => exact absurd (comm_isComm compiled) Bool.false_ne_true
  | .expr (.ident _) | .expr (.int _ _) | .expr (.float _ _) | .expr (.bool _ _)
  | .expr (.string _ _) | .expr (.binary _ _ _ _) | .expr (.call _ _ _ _) | .expr (.func _ _ _)
  | .expr (.index _ _ _) | .expr (.sliceLit _ _ _) | .expr (.mapLit _ _ _ _)
  | .expr (.typeAssert _ _ _) | .expr (.type _ _) | .assign _ _ [] _
  | .assign _ _ [.ident _] _ | .assign _ _ [.int _ _] _ | .assign _ _ [.float _ _] _
  | .assign _ _ [.bool _ _] _ | .assign _ _ [.string _ _] _ | .assign _ _ [.binary _ _ _ _] _
  | .assign _ _ [.call _ _ _ _] _ | .assign _ _ [.func _ _ _] _ | .assign _ _ [.index _ _ _] _
  | .assign _ _ [.sliceLit _ _ _] _ | .assign _ _ [.mapLit _ _ _ _] _
  | .assign _ _ [.typeAssert _ _ _] _ | .assign _ _ [.type _ _] _ | .empty _ | .bad _ | .block _
  | .branch _ _ _ | .caseClause _ | .commClause _ | .decl _ | .defer _ _ | .forLoop _ _ _ _ _
  | .go _ _ | .ifElse _ _ _ _ _ | .incDec _ _ _ | .labeled _ _ _ | .range _ _ _ _ _ _ | .ret _ _
  | .select _ _ | .switch _ _ _ _ | .typeSwitch _ _ _ _ _ =>
    exact absurd (comm_isComm compiled) Bool.false_ne_true
  | .assign _ _ (_ :: _ :: _) _ => exact (comm_many compiled).elim

theorem selectComms_typed (clauses : List CommClause)
    (proper : ProperIf strict (CommClause.headsOf clauses)) (ctx : Ctx strict)
    (comms : List (Option (Comm × Receive))) (compiled : selectComms ctx.scope clauses = .ok comms) :
    ∃ received, SelectTyped strict ctx.scope comms received := by
  match clauses with
  | [] =>
    simp only [selectComms, Compiled.pure_eq_ok] at compiled
    exact ⟨[], compiled ▸ .nil⟩
  | .mk none _ _ :: rest =>
    simp only [CommClause.headsOf, Stmt.headsIn, properIf_append] at proper
    simp only [selectComms, Compiled.bind_eq_ok, Compiled.pure_eq_ok] at compiled
    obtain ⟨others, compiledOthers, rfl⟩ := compiled
    obtain ⟨received, typed⟩ := selectComms_typed rest proper.2 ctx others compiledOthers
    exact ⟨none :: received, .default typed⟩
  | .mk (some node) _ _ :: rest =>
    simp only [CommClause.headsOf, Stmt.headsIn, properIf_append] at proper
    simp only [selectComms, Compiled.bind_eq_ok, Prod.exists, Compiled.pure_eq_ok] at compiled
    obtain ⟨found, receive, compiledComm, others, compiledOthers, rfl⟩ := compiled
    obtain ⟨elem, first⟩ := comm_typed node proper.1.1 compiledComm
    obtain ⟨received, typed⟩ := selectComms_typed rest proper.2 ctx others compiledOthers
    exact ⟨elem :: received, .comm first typed⟩

theorem selectBodies_run (clauses : List CommClause)
    (proper : ProperIf strict (CommClause.headsOf clauses)) (before ctx : Ctx strict) (base : Nat)
    (out : Nat → ExitKind → List Layer → Prop) (here : Nat) (parked : Option (Slot × Slot))
    (comms : List (Option (Comm × Receive))) (received : List (Option Ty)) (codes : List ClauseCode)
    (around : Around base out ctx.scope ctx.layers) (same : before.layers = ctx.layers)
    (typed : SelectTyped strict before.scope comms received)
    (length : comms.length = clauses.length)
    (parks : ∀ value flag, parked = some (value, flag) → ctx.Vacant ∧
      ∃ layer : Layer, ctx.layers[0]? = some layer ∧ layer.level.Parks value ∧
        layer.level.Has flag ∧ flag.slotClass = .word ∧ flag.type = .bool)
    (compiled : selectBodies ctx.scope parked (comms.map (·.map (·.2))) here clauses = .ok codes) :
    ∃ sites, SelectSites before.site ctx.scope parked.isSome (comms.map (·.map (·.2))) clauses
        sites ∧
      ClausesRun strict base out ctx.layers here codes sites
        (received.map fun elem => parked.elim ctx.layers fun slots =>
          receiving slots.1 elem ctx.layers) := by
  have outside : finals ctx.layers = before.site.finals := by rw [Ctx.site, same]
  match clauses with
  | [] =>
    simp only [selectBodies, Compiled.pure_eq_ok] at compiled
    obtain rfl : comms = [] := by simpa using length
    cases typed
    exact ⟨[], .nil, compiled ▸ .nil⟩
  | .mk node statements span :: rest =>
    simp only [CommClause.headsOf, properIf_append] at proper
    cases typed with
    | nil => simp at length
    | @default comms received typed =>
      simp only [selectBodies, List.map_cons, Option.map_none, List.head?_cons, Option.join_some,
        Compiled.bind_eq_ok, Compiled.pure_eq_ok, List.tail_cons] at compiled
      obtain ⟨body, compiledBody, others, compiledOthers, rfl⟩ := compiled
      obtain ⟨more, isRest, restRun⟩ := selectBodies_run rest proper.2 before ctx base out _ parked
        comms received others around same typed (by simpa using length) parks compiledOthers
      obtain ⟨sites, isScoped, runs⟩ :=
        scopedStmts_settles statements proper.1.2 ctx base out here body around compiledBody
      refine ⟨sites :: more, .plain (by simp) (outside ▸ isScoped) isRest,
        .cons rfl ?_ (by simp) restRun⟩
      cases parked <;> exact runs
    | @comm found receive elem comms received first typed =>
      have next := fun here others => selectBodies_run rest proper.2 before ctx base out here parked
        comms received others around same typed (by simpa using length) parks
      have plain (body : Fragment)
          (compiled : scopedStmts ctx.scope here false span statements = .ok body) :
          ∃ sites, ScopedSites ctx.scope before.site.finals false statements sites ∧
            Runs strict base out here body.lines sites ctx.layers ctx.layers :=
        outside ▸ scopedStmts_settles statements proper.1.2 ctx base out here body around compiled
      cases parked with
      | none =>
        cases receive
        all_goals
          simp only [selectBodies, List.map_cons, Option.map_some, List.head?_cons,
            Option.join_some, Compiled.bind_eq_ok, Compiled.pure_eq_ok, List.tail_cons] at compiled
          obtain ⟨body, compiledBody, others, compiledOthers, rfl⟩ := compiled
          obtain ⟨sites, isScoped, runs⟩ := plain body compiledBody
          obtain ⟨more, isRest, restRun⟩ := next _ others compiledOthers
          exact ⟨sites :: more, .plain (by simp) isScoped isRest,
            .cons rfl runs (by simp) restRun⟩
      | some slots =>
        obtain ⟨valueSlot, flagSlot⟩ := slots
        obtain ⟨vacant, layer, isLayer, parksValue, hasFlag⟩ := parks valueSlot flagSlot rfl
        have serves := receiving_serves vacant valueSlot elem
        cases receive with
        | discard =>
          simp only [selectBodies, List.map_cons, Option.map_some, List.head?_cons,
            Option.join_some, Compiled.bind_eq_ok, Compiled.pure_eq_ok, List.tail_cons] at compiled
          obtain ⟨body, compiledBody, others, compiledOthers, rfl⟩ := compiled
          obtain ⟨sites, isScoped, runs⟩ := plain body compiledBody
          obtain ⟨more, isRest, restRun⟩ := next _ others compiledOthers
          exact ⟨sites :: more, .plain (by simp) isScoped isRest,
            .cons rfl (runs.enter serves) (by simp) restRun⟩
        | define value flag type =>
          simp only [selectBodies, List.map_cons, Option.map_some, List.head?_cons,
            Option.join_some, Compiled.bind_eq_ok, Compiled.pure_eq_ok, List.tail_cons] at compiled
          obtain ⟨body, compiledBody, others, compiledOthers, rfl⟩ := compiled
          obtain ⟨more, isRest, restRun⟩ := next _ others compiledOthers
          obtain rfl : elem = some type := (first before rfl).2
          have innerAround := around.serve serves
          have served : finals (ctx.serving serves).layers = before.site.finals :=
            serves.finals_eq.trans outside
          have site : (ctx.serving serves).site = ⟨ctx.scope, before.site.finals⟩ :=
            congrArg (Site.mk _) served
          obtain ⟨sites, isDefine, runs⟩ := @inScope_runs _ _ _ _ (ctx.serving serves) _ _ _ _
            (fun sites => SelectSites before.site ctx.scope true
              ((some (found, .define value flag type) :: comms).map (·.map (·.2)))
              (.mk node statements span :: rest) (sites :: more)) compiledBody
            (fun here piece content => by
              simp only [Compiled.bind_eq_ok, Prod.exists, Compiled.pure_eq_ok] at content
              obtain ⟨slots, grown, declared, inner, compiledInner, rfl⟩ := content
              obtain ⟨⟨names, declares, -⟩, -⟩ := Frame.declareParams_declares declared
              refine received_inside innerAround (parking_get isLayer) parksValue (by simp) hasFlag
                declared rfl (stmts_extends statements proper.1.2 _ _ _ inner
                  ((Declarable.empty ctx.sound _).after declares) compiledInner)
                fun sites isBody => ?_
              rw [served] at isBody ⊢
              rw [site, Fragment.within_frame]
              exact .define rfl rfl declared compiledInner isBody isRest) innerAround
          exact ⟨sites :: more, isDefine, .cons rfl (runs.finish serves) (by simp) restRun⟩
        | assign value flag =>
          simp only [selectBodies, List.map_cons, Option.map_some, List.head?_cons,
            Option.join_some, pure_bind, Compiled.bind_eq_ok, Compiled.pure_eq_ok,
            List.tail_cons] at compiled
          obtain ⟨inner, compiledInner, others, compiledOthers, rfl⟩ := compiled
          obtain ⟨more, isRest, restRun⟩ := next _ others compiledOthers
          let start : Ctx strict :=
            ⟨before.scope, receiving valueSlot elem ctx.layers, before.fits.serves (same ▸ serves)⟩
          obtain ⟨type, flags, rfl, valueTyped, valueStores, flagsTyped, flagsStore⟩ :=
            (first start rfl).2
          have startSite : start.site = before.site :=
            congrArg (Site.mk _) (serves.finals_eq.trans outside)
          have copied : Runs strict base out here
              (Fragment.one (.unpark (valueSlot, flagSlot) value flag) span).lines [before.site]
              start.layers ctx.layers :=
            startSite ▸ .one start (.unpark (parking_get isLayer) parksValue (by simp) hasFlag
              valueTyped valueStores flagsTyped flagsStore ⟨rfl, serves⟩)
          obtain ⟨sites, isScoped, runs⟩ := scopedStmts_settles statements proper.1.2 ctx base out _
            inner around compiledInner
          exact ⟨(before.site :: sites) :: more, .assign rfl (outside ▸ isScoped) isRest,
            .cons rfl (copied.append runs) (by simp) restRun⟩

theorem varSpecs_extends (specs : List ValueSpec)
    (proper : ProperIf strict (ValueSpec.headsOf specs)) :
    Extends strict (fun outer frame here => varSpecs outer frame here specs)
      fun outer frame finals => SpecsSites outer frame finals specs := by
  intro outer frame here piece declarable compiled
  match specs with
  | [] =>
    simp only [varSpecs, Compiled.pure_eq_ok] at compiled
    exact compiled ▸ .nothing outer frame fun _ => .nil
  | .mk names written values span :: rest =>
    simp only [ValueSpec.headsOf, properIf_append] at proper
    simp only [varSpecs, Compiled.bind_eq_ok, Prod.exists, Compiled.pure_eq_ok] at compiled
    obtain ⟨declared, isDeclared, given, compiledGiven, types, codes, initial, first, initialised,
      others, compiledOthers, rfl⟩ := compiled
    have alone : varSpecs outer frame here [.mk names written values span] = .ok first := by
      simp [varSpecs, isDeclared, compiledGiven, initial, initialised, Piece.append_none]
    obtain ⟨slots, declares, runs⟩ := @declareInit_runs strict _ outer _ _ _ _ _
      (initValues_length initial) initialised
    have left : Declaring strict outer frame here first (Flat outer frame first) := by
      refine .flat declares fun ctx base out scope around top => ?_
      rw [← scope] at compiledGiven
      obtain ⟨sources, valuesTyped, assignable, -⟩ :=
        initValues_typed (operands_checked values proper.1 ctx compiledGiven).unchecked initial
      exact runs ctx base out here sources scope around.deep valuesTyped assignable top
    exact left.append
      (varSpecs_extends rest proper.2 _ _ _ others (declarable.after declares) compiledOthers)
      fun _ _ _ isFirst isRest => isFirst ▸ .cons alone isRest

theorem decl_extends {labels : List String} (declaration : Decl)
    (proper : ProperIf strict declaration.heads) :
    Extends strict (fun outer frame here => decl outer frame here declaration)
      fun outer frame finals => StmtSites outer frame finals labels (.decl declaration) := by
  intro outer frame here piece declarable compiled
  match declaration with
  | .var specs _ =>
    simp only [Decl.heads] at proper
    simp only [decl] at compiled
    exact (varSpecs_extends specs proper outer frame here piece declarable compiled).imp
      fun _ _ => .variables
  | .const specs _ =>
    refine Flat.stmtSites rfl (by simpa only [stmt] using compiled) ?_
    simp only [decl, Compiled.bind_eq_ok, Compiled.pure_eq_ok] at compiled
    obtain ⟨grown, declared, rfl⟩ := compiled
    exact .silent (constSpecs_declares specs declarable declared) fun _ => rfl
  | .type specs _ =>
    refine Flat.stmtSites rfl (by simpa only [stmt] using compiled) ?_
    simp only [decl, Compiled.bind_eq_ok, Compiled.pure_eq_ok] at compiled
    obtain ⟨grown, declared, rfl⟩ := compiled
    exact .silent (typeSpecs_declares specs declarable declared) fun _ => rfl
  | .func name head body _ =>
    simp only [Decl.heads, properIf_cons] at proper
    simp only [decl, Compiled.bind_eq_ok, Prod.exists] at compiled
    obtain ⟨signature, resolved, slot, grown, declared, template, compiledBody, compiled⟩ := compiled
    obtain ⟨declares, typeIs⟩ := Frame.declareVar_declares declared
    cases slot with
    | none =>
      simp only [Compiled.pure_eq_ok] at compiled
      exact compiled ▸ .silent declares fun _ => .func resolved declared
    | some slot =>
      simp only [Compiled.pure_eq_ok] at compiled
      subst compiled
      refine ⟨[slot], declares, fun ctx base out scope around top => ?_⟩
      have signatureIs : template.signature = signature :=
        function_signature compiledBody
          (fun other again => Scope.Refines.resolveHead (Scope.refines_declareVar declared) again)
          resolved
      exact ⟨_, .func resolved declared,
        bind_runs declares scope top (by rw [signatureIs, typeIs slot rfl]) fun ctx scope =>
          function_typed body proper.1 proper.2 ctx.lasting (scope ▸ compiledBody :)⟩

end

theorem scopedStmts_runs {span : Span} {clause : Bool} {nodes : List Stmt} {ctx : Ctx strict}
    {base here : Nat} {out : Nat → ExitKind → List Layer → Prop} {fragment : Fragment}
    (proper : ProperIf strict (Stmt.headsOf nodes)) (around : Around base out ctx.scope ctx.layers)
    (compiled : scopedStmts ctx.scope here clause span nodes = .ok fragment) :
    ∃ sites, Runs strict base out here fragment.lines sites ctx.layers ctx.layers := by
  obtain ⟨sites, -, runs⟩ :=
    scopedStmts_settles nodes proper ctx base out here fragment around compiled
  exact ⟨sites, runs⟩

end Compile

end MiniGo
