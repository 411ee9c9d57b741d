import MiniGo.Proofs.Foresight
/-!
A file whose scopes foresee their slots is compiled, or rejected for a fault of its own: one induction
over syntax trees, with a case for each form that the compiler takes apart.
-/

namespace MiniGo

open Compiled (Blameless)

namespace Compile

variable {outer : Scope} {frame after : Frame} {here : Nat} {piece : Piece}

theorem inScope_blameless {owned : Bool} {span : Span} {compile : Frame → Nat → Compiled Piece}
    (inner : ∀ here, (compile { owned } here).Blameless)
    (takes : ∀ here piece, compile { owned } here = .ok piece → Takes owned { owned } piece.frame) :
    (inScope owned span here compile).Blameless := by
  refine (inner _).bind fun piece compiled => ?_
  have taken := takes _ _ compiled
  cases owned with
  | true =>
    have more : 0 < piece.frame.objects + piece.frame.words := taken.1 rfl
    simp only [if_true]
    rw [if_neg (by simpa using Nat.pos_iff_ne_zero.mp more)]
    exact Compiled.blameless_pure _
  | false =>
    have none : piece.frame.objects + piece.frame.words = 0 := taken.2 rfl
    simp [none]

theorem branchStmt_blameless (scope : Scope) (kind : BranchKind) (label : Option Ident) (span : Span) :
    (branchStmt scope kind label span).Blameless := by
  have exits (kind : ExitKind) : (exitStmt scope kind label span).Blameless := by
    unfold exitStmt
    dsimp only
    split <;> simp [Cause.isInternal, Cause.kind]
  cases kind with
  | «break» => exact exits .break
  | «continue» => exact exits .continue
  | fallthrough => simp [branchStmt, Cause.isInternal, Cause.kind]
  | goto => simp [branchStmt, Cause.isInternal, Cause.kind]

theorem enclosing_blameless (scope : Scope) (keyword : Keyword) (span : Span) :
    (enclosing scope keyword span).Blameless := by
  unfold enclosing
  split <;> simp [Cause.isInternal, Cause.kind]

theorem branches_blameless {cond : Cond} {condSpan span : Span}
    {thenPart : Nat → Compiled Fragment} {elsePart : Option (Nat → Compiled Fragment)}
    (first : ∀ here, (thenPart here).Blameless)
    (second : ∀ part, elsePart = some part → ∀ here, (part here).Blameless) :
    (branches cond here condSpan span thenPart elsePart).Blameless := by
  cases cond with
  | const value =>
    refine (first _).bind fun _ _ => ?_
    cases elsePart with
    | none => exact Compiled.blameless_pure _
    | some part => exact (second part rfl _).bind fun _ _ => Compiled.blameless_pure _
  | code cond =>
    refine (first _).bind fun _ _ => ?_
    cases elsePart with
    | none => exact Compiled.blameless_pure _
    | some part => exact (second part rfl _).bind fun _ _ => Compiled.blameless_pure _

theorem loop_blameless {cond : Cond} {level : Nat} {span : Span} {body : Nat → Compiled Fragment}
    {post : Nat → Compiled Piece} (bodies : ∀ here, (body here).Blameless)
    (posts : ∀ here, (post here).Blameless) :
    (loop cond level here span body post).Blameless := by
  unfold loop
  split <;> exact (bodies _).bind fun _ _ => (posts _).bind fun _ _ => Compiled.blameless_pure _

theorem defaultClause_blameless (statement : ClauseStmt) (clauses : List (Bool × Span)) :
    (defaultClause statement clauses).Blameless := by
  have go (index : Nat) (found : Option Nat) :
      (defaultClause.go statement clauses index found).Blameless := by
    induction clauses generalizing index found with
    | nil => simp [defaultClause.go]
    | cons clause rest ih => simp [defaultClause.go, ih, Cause.isInternal, Cause.kind]
  exact go 0 none

theorem rangeShape_blameless (type : Ty) (span subjectSpan : Span) :
    (rangeShape type span subjectSpan).Blameless := by
  unfold rangeShape
  split
  · simp
  · simp
  · simp
  · simp
  · exact (Operand.recvElem_blameless ..).bind fun _ _ => by simp
  · simp [Cause.isInternal, Cause.kind]

theorem checkPlace_blameless (place : Place) (type : Ty) (span : Span) :
    (checkPlace place type span).Blameless := by
  unfold checkPlace
  split <;> simp [Cause.isInternal, Cause.kind]

theorem receiveNames_blameless (lhs : List Expr) (span : Span) :
    (receiveNames lhs span).Blameless := by
  unfold receiveNames
  dsimp only
  split <;> simp [Cause.isInternal, Cause.kind]

theorem clauseTypes_blameless (scope : Scope) (clauses : List CaseClause) :
    (clauseTypes scope clauses).Blameless := by
  have each (nodes : List Expr) : (nodes.mapM scope.typeOperand).Blameless := by
    induction nodes with
    | nil => exact Compiled.blameless_pure _
    | cons node rest ih =>
      rw [List.mapM_cons]
      exact (scope.typeOperand_blameless node).bind fun _ _ => ih.bind fun _ _ =>
        Compiled.blameless_pure _
  induction clauses with
  | nil => exact Compiled.blameless_pure _
  | cons clause rest ih =>
    exact (each _).bind fun _ _ => ih.bind fun _ _ => Compiled.blameless_pure _

theorem caseValue_blameless (tag : Ty) (operand : Operand) (span : Span) :
    (caseValue tag operand span).Blameless := by
  refine operand.type_blameless.bind fun _ _ => ?_
  simp only [Compiled.blameless_ite, Compiled.blameless_pure]
  refine ⟨fun _ => ?_, fun _ => ⟨fun _ => trivial, fun _ => ?_⟩⟩
  · exact (operand.convertTo_blameless tag).bind fun _ _ => Compiled.blameless_pure _
  · simp [Cause.isInternal, Cause.kind]

theorem constValue_blameless (declared : Option Ty) (name : Ident) (operand : Operand) :
    (constValue declared name operand).Blameless := by
  refine (operand.declaredAs_blameless declared).bind fun found _ => found.type_blameless.bind
    fun _ _ => ?_
  split <;> simp [Cause.isInternal, Cause.kind]

theorem declaredType_blameless (scope : Scope) (written : Option TypeExpr) (span : Span) :
    (declaredType scope written span).Blameless := by
  cases written with
  | none => exact Compiled.blameless_pure _
  | some written =>
    exact (scope.resolve_blameless span written).bind fun _ _ => Compiled.blameless_pure _

theorem typeSpecs_blameless (outer : Scope) (frame : Frame) (specs : List TypeSpec) :
    (typeSpecs outer frame specs).Blameless := by
  induction specs generalizing frame with
  | nil => exact Compiled.blameless_pure _
  | cons spec rest ih =>
    exact (Scope.resolve_blameless ..).bind fun _ _ =>
      (frame.declareSymbol_blameless _ _ _).bind fun after _ => ih after

theorem functionFrame_blameless (head : FuncHead) (signature : Signature) :
    (functionFrame head signature).Blameless :=
  (Frame.declareParams_blameless _ _).bind fun _ _ =>
    (Frame.declareResults_blameless _ _).bind fun _ _ => Compiled.blameless_pure _

theorem stmt_declarable {labels : List String} {node : Stmt} (declarable : Declarable outer frame)
    (compiled : stmt outer frame here labels node = .ok piece) : Declarable outer piece.frame := by
  obtain ⟨slots, declares, -⟩ :=
    @stmt_extends False labels node (fun absurd => absurd.elim) outer frame here piece declarable compiled
  exact declarable.after declares

theorem initStmt_declarable {init : Option Stmt} (declarable : Declarable outer frame)
    (compiled : initStmt outer frame here init = .ok piece) : Declarable outer piece.frame := by
  obtain ⟨slots, declares, -⟩ :=
    @initStmt_extends False init (fun absurd => absurd.elim) outer frame here piece declarable compiled
  exact declarable.after declares

theorem initStmt_takes {init : Option Stmt} (compiled : initStmt outer frame here init = .ok piece) :
    Takes (init.any Stmt.binds) frame piece.frame := by
  cases init with
  | none =>
    rw [initStmt] at compiled
    obtain rfl := Compiled.pure_eq_ok.mp compiled
    exact .none rfl
  | some node =>
    rw [initStmt] at compiled
    exact stmt_takes node compiled

theorem postStmt_takes {post : Option Stmt} (compiled : postStmt outer frame here post = .ok piece) :
    Takes (post.any fun node => !node.isDefine && node.binds) frame piece.frame := by
  cases post with
  | none =>
    rw [postStmt] at compiled
    obtain rfl := Compiled.pure_eq_ok.mp compiled
    exact .none rfl
  | some node =>
    rw [postStmt] at compiled
    split at compiled
    · simp at compiled
    · next other =>
      have takes := stmt_takes node compiled
      simpa [other] using takes

theorem binds_of_isDefine {node : Stmt} (define : node.isDefine = true) : node.binds = true := by
  cases node <;> simp_all [Stmt.isDefine, Stmt.binds, Stmt.declares]
  split at define <;> simp_all

theorem init_any_binds {init : Option Stmt} (foreseen : init.all Stmt.isForeseenInit = true) :
    init.any Stmt.binds = init.any Stmt.isDefine := by
  cases init with
  | none => rfl
  | some node =>
    have seen : node.isForeseenInit = true := foreseen
    simp only [Stmt.isForeseenInit, Bool.or_eq_true, Bool.not_eq_true'] at seen
    simp only [Option.any_some]
    cases define : node.isDefine with
    | true => exact binds_of_isDefine define
    | false => exact seen.resolve_left (by simp [define])

theorem binds_of_declares {node : Stmt} (declares : node.declares = true) : node.binds = true := by
  cases node <;> simp_all [Stmt.binds, Stmt.declares]

theorem any_binds_eq {nodes : List Stmt} (foreseen : Stmt.areForeseen nodes = true) :
    nodes.any Stmt.binds = nodes.any Stmt.declares := by
  simp only [Stmt.areForeseen, Bool.or_eq_true, Bool.not_eq_true'] at foreseen
  cases declares : nodes.any Stmt.declares with
  | true =>
    obtain ⟨node, member, isDeclaring⟩ := List.any_eq_true.mp declares
    exact List.any_eq_true.mpr ⟨node, member, binds_of_declares isDeclaring⟩
  | false => exact foreseen.resolve_left (by simp [declares])

theorem scopedStmts_blameless {scope : Scope} {clause : Bool} {span : Span} {nodes : List Stmt}
    (sound : scope.Sound) (foreseen : Stmt.areForeseen nodes = true)
    (each : ∀ frame here, Declarable scope frame → (stmts scope frame here clause nodes).Blameless) :
    (scopedStmts scope here clause span nodes).Blameless := by
  cases nodes with
  | nil =>
    rw [scopedStmts]
    exact Compiled.blameless_pure _
  | cons node rest =>
    have same : scopedStmts scope here clause span (node :: rest) =
        inScope ((node :: rest).any Stmt.declares) span here fun inner here =>
          stmts scope inner here clause (node :: rest) := by
      simp only [scopedStmts, stmts]
    rw [same]
    refine inScope_blameless (fun here => each _ here (.empty sound _)) fun here piece compiled => ?_
    have takes := stmts_takes (node :: rest) compiled
    rw [any_binds_eq foreseen] at takes
    exact takes

theorem toCond_blameless {scope : Scope} {node : Expr} {operand : Operand} (sound : scope.Sound)
    (compiled : expr scope node = .ok operand) : operand.toCond.Blameless := by
  let nowhere : Ctx False := ⟨[], [], .nil⟩
  exact @Operand.toCond_blameless operand False nowhere fun constant =>
    expr_constant sound node compiled constant

theorem rangeTarget_blameless {type : Ty} {isDefine : Bool} {target : Option Expr}
    (declarable : Declarable outer frame)
    (places : ∀ node, target = some node → ∀ scope : Scope, scope.Sound →
      (place scope node).Blameless) :
    (rangeTarget outer frame type isDefine target).Blameless := by
  cases target with
  | none =>
    rw [rangeTarget]
    exact Compiled.blameless_pure _
  | some node =>
    rw [rangeTarget]
    split
    · split
      · simp [Cause.isInternal, Cause.kind]
      · exact (frame.declareVar_blameless _ _ _).bind fun _ _ => Compiled.blameless_pure _
    · refine (places node rfl _ declarable.sound).bind fun found _ =>
        (checkPlace_blameless ..).bind fun _ _ => ?_
      split <;> exact Compiled.blameless_pure _

theorem rangeTarget_declarable {type : Ty} {isDefine : Bool} {target : Option Expr}
    {found : Option Place × Frame} (declarable : Declarable outer frame)
    (compiled : rangeTarget outer frame type isDefine target = .ok found) :
    Declarable outer found.2 := by
  have sound := @optional_placeSound False target fun absurd => absurd.elim
  obtain ⟨slots, declares, -⟩ := rangeTarget_typed sound compiled
  exact declarable.after declares

theorem rangeSlots_taken (frame : Frame) (subject key : Ty) :
    (rangeSlots frame subject key).2.taken = frame.taken + 5 := by
  simp only [rangeSlots, Frame.allocate_taken]

theorem parkSubject_takes (frame : Frame) (binding : Option Ident) :
    Takes binding.isSome frame (parkSubject frame binding).2 := by
  cases binding with
  | none => exact .none rfl
  | some ident => exact .some (by simp only [parkSubject, Frame.allocate_taken]; omega)

theorem parkReceived_takes (frame : Frame) (receives : Bool) :
    Takes receives frame (parkReceived frame receives).2 := by
  cases receives with
  | false => exact .none rfl
  | true => exact .some (by simp only [parkReceived, if_true, Frame.allocate_taken]; omega)

section Compounds

variable {labels : List String} {span : Span} {init : Option Stmt}
  (declarable : Declarable outer frame)

include declarable

theorem elseStmt_blameless {node : Option Stmt}
    (foreseen : (node.all fun node => node.isBranchBody || Stmt.areForeseen [node]) = true)
    (each : ∀ found, node = some found → ∀ outer frame here, Declarable outer frame →
      (stmt outer frame here [] found).Blameless) :
    (elseStmt outer frame here node).Blameless := by
  cases node with
  | none =>
    rw [elseStmt]
    exact Compiled.blameless_pure _
  | some node =>
    have stmts := each node rfl
    rw [elseStmt]
    split
    · exact (stmts outer frame here declarable).bind fun _ _ => Compiled.blameless_pure _
    · next other =>
      have seen : Stmt.areForeseen [node] = true := by simpa [other] using foreseen
      refine inScope_blameless (fun here => stmts _ _ here (.empty declarable.sound _))
        fun here piece compiled => ?_
      have takes := stmt_takes node compiled
      have same := any_binds_eq seen
      simp only [List.any_cons, List.any_nil, Bool.or_false] at same
      rw [same] at takes
      exact takes

theorem ifElse_blameless {cond : Expr} {thenBranch : Block} {elseBranch : Option Stmt}
    (seen : init.all Stmt.isForeseenInit = true)
    (inits : ∀ inner here, Declarable (frame :: outer) inner →
      (initStmt (frame :: outer) inner here init).Blameless)
    (conds : ∀ scope : Scope, scope.Sound → (expr scope cond).Blameless)
    (thens : ∀ (scope : Scope) here, scope.Sound → (block scope here thenBranch).Blameless)
    (elses : ∀ inner here, Declarable (frame :: outer) inner →
      (elseStmt (frame :: outer) inner here elseBranch).Blameless) :
    (stmt outer frame here labels (.ifElse init cond thenBranch elseBranch span)).Blameless := by
  rw [stmt]
  refine Blameless.bind (inScope_blameless (fun here => ?_) fun here piece compiled => ?_)
    fun _ _ => Compiled.blameless_pure _
  · refine (inits _ here (.empty declarable.sound _)).bind fun first compiledFirst => ?_
    have inner := initStmt_declarable (.empty declarable.sound _) compiledFirst
    refine (conds _ inner.sound).bind fun operand compiledCond => ?_
    refine (toCond_blameless inner.sound compiledCond).bind fun test _ => ?_
    refine (branches_blameless (fun here => thens _ here inner.sound) fun part isPart here => ?_).bind
      fun _ _ => Compiled.blameless_pure _
    split at isPart
    · obtain rfl := Option.some.inj isPart
      exact elses _ here inner
    · cases isPart
  · simp only [Compiled.bind_eq_ok, Compiled.pure_eq_ok] at compiled
    obtain ⟨first, compiledFirst, -, -, -, -, rest, -, rfl⟩ := compiled
    have takes := initStmt_takes compiledFirst
    rw [init_any_binds seen] at takes
    exact takes

theorem forLoop_blameless {cond : Option Expr} {post : Option Stmt} {body : Block}
    (seen : init.all Stmt.isForeseenInit = true)
    (seenPost : init.any Stmt.isDefine = true ∨ post.all Stmt.isForeseenInit = true)
    (inits : ∀ inner here, Declarable (frame :: outer) inner →
      (initStmt (frame :: outer) inner here init).Blameless)
    (conds : ∀ scope : Scope, scope.Sound → (loopCond scope cond).Blameless)
    (bodies : ∀ (scope : Scope) here, scope.Sound → (block scope here body).Blameless)
    (posts : ∀ inner here, Declarable (frame :: outer) inner →
      (postStmt (frame :: outer) inner here post).Blameless) :
    (stmt outer frame here labels (.forLoop init cond post body span)).Blameless := by
  rw [stmt]
  refine Blameless.bind (inScope_blameless (fun here => ?_) fun here piece compiled => ?_)
    fun _ _ => Compiled.blameless_pure _
  · refine (inits _ here (.empty declarable.sound _)).bind fun first compiledFirst => ?_
    have inner := initStmt_declarable (.empty declarable.sound _) compiledFirst
    have looping : Declarable (frame :: outer) { first.frame with loop := some ⟨true, labels⟩ } :=
      inner.reframed rfl rfl rfl rfl
    refine (conds _ looping.sound).bind fun test _ => ?_
    exact (loop_blameless (fun here => bodies _ here looping.sound) fun here =>
      posts _ here looping).bind fun _ _ => Compiled.blameless_pure _
  · simp only [Compiled.bind_eq_ok, Compiled.pure_eq_ok] at compiled
    obtain ⟨first, compiledFirst, test, -, rest, compiledRest, rfl⟩ := compiled
    have takes := initStmt_takes compiledFirst
    rw [init_any_binds seen] at takes
    obtain ⟨there, last, compiledLast, same⟩ := loop_frame compiledRest
    have takesPost := postStmt_takes compiledLast
    have flag : (init.any Stmt.isDefine || post.any fun node => !node.isDefine && node.binds) =
        init.any Stmt.isDefine := by
      rcases seenPost with define | seen
      · simp [define]
      · cases post with
        | none => simp
        | some node => cases define : node.isDefine <;> simp_all [Stmt.isForeseenInit]
    have both := takes.and takesPost
    rw [flag] at both
    show Takes _ _ rest.frame
    rw [same]
    exact both

theorem range_blameless {key value : Option Expr} {isDefine : Bool} {subject : Expr} {body : Block}
    (subjects : ∀ scope : Scope, scope.Sound → (expr scope subject).Blameless)
    (keys : ∀ node, key = some node → ∀ scope : Scope, scope.Sound → (place scope node).Blameless)
    (values : ∀ node, value = some node → ∀ scope : Scope, scope.Sound →
      (place scope node).Blameless)
    (bodies : ∀ (scope : Scope) here, scope.Sound → (block scope here body).Blameless) :
    (stmt outer frame here labels (.range key value isDefine subject body span)).Blameless := by
  rw [stmt]
  refine Blameless.bind (inScope_blameless (fun here => ?_) fun here piece compiled => ?_)
    fun _ _ => Compiled.blameless_pure _
  · have start : Declarable (frame :: outer) { owned := true } := .empty declarable.sound true
    refine (subjects _ start.sound).bind fun operand _ => operand.type_blameless.bind fun type _ =>
      (rangeShape_blameless ..).bind fun shape _ => ?_
    simp only [Compiled.fault_bind, Compiled.blameless_ite]
    refine ⟨fun _ => by simp [Cause.isInternal, Cause.kind], fun _ => ?_⟩
    refine (rangeTarget_blameless start keys).bind fun first compiledKey => ?_
    have afterKey := rangeTarget_declarable start compiledKey
    refine (rangeTarget_blameless afterKey values).bind fun second compiledValue => ?_
    have afterValue := rangeTarget_declarable afterKey compiledValue
    have taken : rangeSlots second.2 type shape.2.1 =
      ((rangeSlots second.2 type shape.2.1).1, (rangeSlots second.2 type shape.2.1).2) := rfl
    have afterSlots := afterValue.after (rangeSlots_declares taken)
    have looping : Declarable (frame :: outer)
        { (rangeSlots second.2 type shape.2.1).2 with loop := some ⟨true, labels⟩ } :=
      afterSlots.reframed rfl rfl rfl rfl
    exact (bodies _ _ looping.sound).bind fun _ _ => Compiled.blameless_pure _
  · simp only [Compiled.bind_eq_ok] at compiled
    obtain ⟨operand, -, type, -, ⟨kind, keyType, valueType⟩, -, compiled⟩ := compiled
    split at compiled
    · simp at compiled
    simp only [Compiled.bind_eq_ok, Compiled.pure_eq_ok] at compiled
    obtain ⟨first, -, second, -, fragment, -, rfl⟩ := compiled
    refine .some ?_
    have taken := rangeSlots_taken second.2 type keyType
    show Frame.taken { owned := true } < (rangeSlots second.2 type keyType).2.taken
    rw [taken]
    exact Nat.lt_of_lt_of_le (by decide : 0 < 5) (Nat.le_add_left 5 _)

theorem switch_blameless {tag : Option Expr} {clauses : List CaseClause}
    (seen : init.all Stmt.isForeseenInit = true)
    (inits : ∀ inner here, Declarable (frame :: outer) inner →
      (initStmt (frame :: outer) inner here init).Blameless)
    (tags : ∀ scope : Scope, scope.Sound → (switchTag scope span tag).Blameless)
    (cases : ∀ (scope : Scope) type, scope.Sound → (switchCases scope type clauses).Blameless)
    (bodies : ∀ (scope : Scope) here, scope.Sound → (switchBodies scope here clauses).Blameless) :
    (stmt outer frame here labels (.switch init tag clauses span)).Blameless := by
  rw [stmt]
  refine Blameless.bind (inScope_blameless (fun here => ?_) fun here piece compiled => ?_)
    fun _ _ => Compiled.blameless_pure _
  · refine (inits _ here (.empty declarable.sound _)).bind fun first compiledFirst => ?_
    have inner := initStmt_declarable (.empty declarable.sound _) compiledFirst
    have breaking : Declarable (frame :: outer) { first.frame with loop := some ⟨false, labels⟩ } :=
      inner.reframed rfl rfl rfl rfl
    exact (tags _ breaking.sound).bind fun found _ => found.type_blameless.bind fun type _ =>
      (defaultClause_blameless ..).bind fun _ _ => (cases _ type breaking.sound).bind fun _ _ =>
        (bodies _ _ breaking.sound).bind fun _ _ => Compiled.blameless_pure _
  · simp only [Compiled.bind_eq_ok, Compiled.pure_eq_ok] at compiled
    obtain ⟨first, compiledFirst, -, -, -, -, -, -, -, -, codes, -, rfl⟩ := compiled
    have takes := initStmt_takes compiledFirst
    rw [init_any_binds seen] at takes
    exact takes

theorem typeSwitch_blameless {binding : Option Ident} {subject : Expr} {clauses : List CaseClause}
    (seen : init.all Stmt.isForeseenInit = true ∨ binding.any (!·.isBlank) = true)
    (inits : ∀ inner here, Declarable (frame :: outer) inner →
      (initStmt (frame :: outer) inner here init).Blameless)
    (subjects : ∀ scope : Scope, scope.Sound → (expr scope subject).Blameless)
    (bodies : ∀ (scope : Scope) parked types here, scope.Sound →
      parked.isSome = binding.any (!·.isBlank) →
      (∀ ident slot, parked = some (ident, slot) → ident.isBlank = false) →
      (typeSwitchBodies scope parked types here clauses).Blameless) :
    (stmt outer frame here labels (.typeSwitch init binding subject clauses span)).Blameless := by
  rw [stmt]
  have named : (binding.filter (!·.isBlank)).isSome = binding.any (!·.isBlank) := by
    cases binding with
    | none => rfl
    | some ident => cases blank : ident.isBlank <;> simp [blank]
  refine Blameless.bind (inScope_blameless (fun here => ?_) fun here piece compiled => ?_)
    fun _ _ => Compiled.blameless_pure _
  · refine (inits _ here (.empty declarable.sound _)).bind fun first compiledFirst => ?_
    have inner := initStmt_declarable (.empty declarable.sound _) compiledFirst
    have breaking : Declarable (frame :: outer) { first.frame with loop := some ⟨false, labels⟩ } :=
      inner.reframed rfl rfl rfl rfl
    refine (subjects _ breaking.sound).bind fun operand _ =>
      (operand.interfaceCode_blameless _).bind fun code _ =>
        (defaultClause_blameless ..).bind fun _ _ => (clauseTypes_blameless ..).bind fun types _ => ?_
    generalize parks : parkSubject _ (binding.filter (!·.isBlank)) = park
    obtain ⟨parked, grown⟩ := park
    obtain ⟨declares, isSome, -⟩ := parkSubject_level parks
    refine (bodies _ parked _ _ (breaking.after declares).sound (isSome.trans named)
      fun ident slot found => ?_).bind fun _ _ => Compiled.blameless_pure _
    cases bound : binding.filter (!·.isBlank) with
    | none => simp [parkSubject, bound, found] at parks
    | some other =>
      simp only [parkSubject, bound, found, Prod.mk.injEq, Option.some.injEq] at parks
      obtain ⟨⟨rfl, -⟩, -⟩ := parks
      simpa using (Option.filter_eq_some_iff.mp bound).2
  · simp only [Compiled.bind_eq_ok, Compiled.pure_eq_ok] at compiled
    obtain ⟨first, compiledFirst, -, -, -, -, -, -, types, -, codes, -, rfl⟩ := compiled
    have takes := (initStmt_takes compiledFirst).and
      (parkSubject_takes { first.frame with loop := some ⟨false, labels⟩ }
        (binding.filter (!·.isBlank)))
    have flag : (init.any Stmt.binds || (binding.filter (!·.isBlank)).isSome) =
        (init.any Stmt.isDefine || (binding.filter (!·.isBlank)).isSome) := by
      rcases seen with seen | bound
      · rw [init_any_binds seen]
      · simp [named, bound]
    rw [flag] at takes
    exact takes

theorem select_blameless {clauses : List CommClause}
    (comms : ∀ scope : Scope, scope.Sound → (selectComms scope clauses).Blameless)
    (bodies : ∀ (scope before : Scope) found parked here, scope.Sound →
      selectComms before clauses = .ok found →
      (∀ clause ∈ clauses, ∀ lhs op rhs span, clause.comm = some (.assign lhs op rhs span) →
        parked.isSome = true) →
      (selectBodies scope parked (found.map (·.map (·.2))) here clauses).Blameless) :
    (stmt outer frame here labels (.select clauses span)).Blameless := by
  rw [stmt]
  refine (defaultClause_blameless ..).bind fun default _ => ?_
  refine Blameless.bind (inScope_blameless (fun here => ?_) fun here piece compiled => ?_)
    fun _ _ => Compiled.blameless_pure _
  · generalize isAny : clauses.any _ = receives
    have breaking : Declarable (frame :: outer)
        { owned := receives, loop := some ⟨false, labels⟩ } :=
      (Declarable.empty declarable.sound receives).reframed rfl rfl rfl rfl
    refine (comms _ breaking.sound).bind fun found compiledComms => ?_
    generalize parks : parkReceived _ receives = park
    obtain ⟨parked, grown⟩ := park
    obtain ⟨declares, isSome, -⟩ := parkReceived_level parks
    refine (bodies _ _ found parked _ (breaking.after declares).sound compiledComms
      fun clause member lhs op rhs span isAssign => ?_).bind fun _ _ => Compiled.blameless_pure _
    rw [isSome, ← isAny]
    exact List.any_eq_true.mpr ⟨clause, member, by rw [isAssign]⟩
  · generalize clauses.any _ = receives at compiled ⊢
    simp only [Compiled.bind_eq_ok, Compiled.pure_eq_ok] at compiled
    obtain ⟨found, -, codes, -, rfl⟩ := compiled
    exact parkReceived_takes { owned := receives, loop := some ⟨false, labels⟩ } receives

end Compounds

theorem function_blameless {scope : Scope} {head : FuncHead} {span blockSpan : Span}
    {statements : List Stmt} (sound : scope.Sound)
    (body : ∀ frame, Declarable scope frame → (stmts scope frame 0 false statements).Blameless) :
    (function scope head span (.mk statements blockSpan)).Blameless := by
  rw [function]
  refine (scope.resolveHead_blameless span head).bind fun signature resolved =>
    (functionFrame_blameless ..).bind fun framed compiledFrame => ?_
  obtain ⟨params, results, frame⟩ := framed
  obtain ⟨paramCount, resultCount, -⟩ := Scope.resolveHead_spec resolved
  obtain ⟨level, same, -⟩ := functionFrame_level paramCount resultCount compiledFrame
  exact (body frame ⟨⟨level, same⟩, sound⟩).bind fun _ _ => Compiled.blameless_pure _

theorem boundClause_blameless {scope : Scope} {span : Span} {ident : Ident} {subject : Slot} {type : Ty}
    {statements : List Stmt} (sound : scope.Sound) (named : ident.isBlank = false)
    (each : ∀ frame here, Declarable scope frame →
      (stmts scope frame here false statements).Blameless) :
    (inScope true span here fun inner here => do
      let (slot, inner) ← inner.declareVar ident.name type ident.span
      let copy : Fragment := match slot with
        | some slot => .one (.adopt [(subject, slot)]) span
        | none => {}
      let body ← stmts scope inner (here + copy.length) false statements
      pure ((copy ++ body.toFragment).within body.frame)).Blameless := by
  refine inScope_blameless (fun here => ?_) fun here piece compiled => ?_
  · refine (Frame.declareVar_blameless ..).bind fun found declared => ?_
    have grown := (Declarable.empty sound true).after (Frame.declareVar_declares declared).1
    exact (each _ _ grown).bind fun _ _ => Compiled.blameless_pure _
  · simp only [Compiled.bind_eq_ok, Compiled.pure_eq_ok, Prod.exists] at compiled
    obtain ⟨slot, after, declared, body, compiledBody, rfl⟩ := compiled
    have first : Takes true { owned := true } after := by
      refine .some ?_
      rw [Frame.declareVar_taken declared, if_neg (by simpa [Ident.isBlank] using named)]
      omega
    have both := first.and (stmts_takes statements compiledBody)
    rwa [Bool.true_or] at both

theorem comm_other {scope : Scope} {node : Stmt} (other : isComm node = false) :
    (comm scope node).Blameless := by
  unfold comm
  split
  · simp [isComm] at other
  · simp [isComm] at other
  · simp [isComm] at other
  · simp [Cause.isInternal, Cause.kind]

theorem receiveNames_named {lhs : List Expr} {span : Span} {value flag : Option Ident}
    (compiled : receiveNames lhs span = .ok (value, flag)) :
    (value.isSome || flag.isSome) = lhs.any (·.ident?.any (!·.isBlank)) ∧
      ∀ ident, value = some ident ∨ flag = some ident → ident.isBlank = false := by
  have idents : lhs.any (·.ident?.any (!·.isBlank)) =
      (lhs.map Expr.ident?).any (Option.any (!·.isBlank)) := by simp [Function.comp_def]
  rw [idents]
  unfold receiveNames at compiled
  split at compiled
  · next first same =>
    obtain ⟨rfl, rfl⟩ := Prod.mk.inj (Compiled.pure_eq_ok.mp compiled)
    rw [same]
    cases blank : first.isBlank <;> simp [blank]
  · next first second same =>
    obtain ⟨rfl, rfl⟩ := Prod.mk.inj (Compiled.pure_eq_ok.mp compiled)
    rw [same]
    cases blank : first.isBlank <;> cases blank' : second.isBlank <;> simp [blank, blank']
    rintro ident (rfl | rfl) <;> assumption
  · simp at compiled

theorem comm_define {scope : Scope} {node : Stmt} {found : Comm} {value flag : Option Ident}
    {elem : Ty} (compiled : comm scope node = .ok (found, .define value flag elem)) :
    ∃ lhs rhs span, node = .assign lhs .define rhs span ∧
      (value.isSome || flag.isSome) = lhs.any (·.ident?.any (!·.isBlank)) ∧
      ∀ ident, value = some ident ∨ flag = some ident → ident.isBlank = false := by
  unfold comm at compiled
  split at compiled
  · simp at compiled
  · simp at compiled
  · dsimp only at compiled
    split at compiled
    · simp at compiled
    split at compiled
    · simp at compiled
    · simp only [Compiled.bind_eq_ok, Compiled.pure_eq_ok, Prod.exists, Prod.mk.injEq,
        Receive.define.injEq] at compiled
      obtain ⟨_, -, _, -, _, -, _, _, names, -, rfl, rfl, -⟩ := compiled
      exact ⟨_, _, _, rfl, receiveNames_named names⟩
    · simp at compiled
  · simp at compiled

theorem comm_areForeseen {scope : Scope} {node : Stmt} {body : List Stmt} {found : Comm × Receive}
    (compiled : comm scope node = .ok found)
    (other : ∀ value flag elem, found.2 ≠ .define value flag elem)
    (seen : CommClause.isForeseen (some node) body = true) : Stmt.areForeseen body = true := by
  unfold CommClause.isForeseen at seen
  split at seen
  · next lhs rhs span same =>
    obtain rfl := Option.some.inj same
    have communicates := comm_isComm compiled
    unfold isComm at communicates
    split at communicates
    · contradiction
    · contradiction
    · next same =>
      obtain ⟨rfl, rfl, rfl, rfl⟩ := Stmt.assign.inj same
      simp only [comm] at compiled
      split at compiled
      · simp at compiled
      · simp only [Compiled.bind_eq_ok, Compiled.pure_eq_ok] at compiled
        obtain ⟨_, -, _, -, _, -, ⟨value, flag⟩, -, rfl⟩ := compiled
        exact absurd rfl (other value flag _)
    · contradiction
  · exact seen

theorem Frame.declareParams_taken {params : List (Option Ident × Ty)} {slots : List (Option Slot)}
    (named : ∀ ident type, (some ident, type) ∈ params → ident.isBlank = false)
    (compiled : frame.declareParams params = .ok (slots, after)) :
    Takes (params.any (·.1.isSome)) frame after := by
  induction params generalizing frame slots with
  | nil =>
    obtain ⟨-, rfl⟩ := Prod.mk.inj (Compiled.pure_eq_ok.mp compiled)
    exact .none rfl
  | cons param rest ih =>
    obtain ⟨_ | ident, type⟩ := param
    · simp only [Frame.declareParams, Compiled.bind_eq_ok, Compiled.pure_eq_ok, Prod.exists,
        Prod.mk.injEq] at compiled
      obtain ⟨_, _, declared, -, rfl⟩ := compiled
      simpa using ih (fun ident type mem => named ident type (.tail _ mem)) declared
    · simp only [Frame.declareParams, Compiled.bind_eq_ok, Compiled.pure_eq_ok, Prod.exists,
        Prod.mk.injEq] at compiled
      obtain ⟨_, middle, first, _, _, declared, -, rfl⟩ := compiled
      have more : Takes true frame middle := by
        have isNamed := named ident type (.head _)
        refine .some ?_
        rw [Frame.declareVar_taken first, if_neg (by simpa [Ident.isBlank] using isNamed)]
        omega
      exact more.and (ih (fun ident type mem => named ident type (.tail _ mem)) declared)

theorem receivedClause_blameless {scope : Scope} {span : Span} {value flag : Option Ident} {elem : Ty}
    {valueSlot flagSlot : Slot} {statements : List Stmt} (sound : scope.Sound)
    (named : ∀ ident, value = some ident ∨ flag = some ident → ident.isBlank = false)
    (seen : ((value.isSome || flag.isSome) || !statements.any Stmt.binds) = true)
    (each : ∀ frame here, Declarable scope frame →
      (stmts scope frame here false statements).Blameless) :
    (inScope (value.isSome || flag.isSome) span here fun inner here => do
      let (slots, inner) ← inner.declareParams [(value, elem), (flag, .bool)]
      let pairs := ([valueSlot, flagSlot].zip slots).filterMap fun (source, slot) =>
        slot.map (source, ·)
      let copy : Fragment := if value.isSome || flag.isSome then .one (.adopt pairs) span else {}
      let body ← stmts scope inner (here + copy.length) false statements
      pure ((copy ++ body.toFragment).within body.frame)).Blameless := by
  refine inScope_blameless (fun here => ?_) fun here piece compiled => ?_
  · refine (Frame.declareParams_blameless ..).bind fun found declared => ?_
    obtain ⟨⟨names, declares, -⟩, -⟩ := Frame.declareParams_declares declared
    exact (each _ _ ((Declarable.empty sound _).after declares)).bind fun _ _ => Compiled.blameless_pure _
  · simp only [Compiled.bind_eq_ok, Compiled.pure_eq_ok, Prod.exists] at compiled
    obtain ⟨slots, after, declared, body, compiledBody, rfl⟩ := compiled
    have first : Takes (value.isSome || flag.isSome)
        { owned := value.isSome || flag.isSome } after := by
      have all := Frame.declareParams_taken (fun ident type mem => named ident <| by
        simp only [List.mem_cons, Prod.mk.injEq, List.not_mem_nil, or_false] at mem
        exact mem.imp (·.1.symm) (·.1.symm)) declared
      simpa using all
    have both := first.and (stmts_takes statements compiledBody)
    cases declares : value.isSome || flag.isSome with
    | true => rwa [declares, Bool.true_or] at both
    | false =>
      rw [declares, Bool.false_or, Bool.not_eq_true'] at seen
      rwa [declares, seen, Bool.or_self] at both

mutual

theorem expr_blameless {scope : Scope} (sound : scope.Sound) (node : Expr)
    (foreseen : node.foreseen = true) :
    (expr scope node).Blameless := by
  match node with
  | .ident ident =>
    rw [expr]
    exact Operand.ofIdent_blameless scope ident
  | .int _ _ | .float _ _ | .bool _ _ | .string _ _ =>
    rw [expr]
    exact Compiled.blameless_pure _
  | .binary op left right _ =>
    simp only [Expr.foreseen, Bool.and_eq_true] at foreseen
    rw [expr]
    refine (expr_blameless sound left foreseen.1).bind fun first compiledFirst =>
      (expr_blameless sound right foreseen.2).bind fun second _ => ?_
    split
    · refine (Operand.checkLogical_blameless ..).bind fun _ _ =>
        (Operand.checkLogical_blameless ..).bind fun _ _ =>
          (toCond_blameless sound compiledFirst).bind fun test _ => ?_
      cases test with
      | const value =>
        dsimp only
        split <;> exact Compiled.blameless_pure _
      | code code => exact Compiled.blameless_pure _
    · exact Operand.binary_blameless ..
  | .unary op operand _ =>
    simp only [Expr.foreseen] at foreseen
    rw [expr]
    exact (expr_blameless sound operand foreseen).bind fun _ _ => Operand.unary_blameless ..
  | .call callee args ellipsis _ =>
    simp only [Expr.foreseen, Bool.and_eq_true] at foreseen
    rw [expr]
    refine (scope.callee_blameless callee).bind fun kind _ => ?_
    cases kind with
    | conversion target => exact conversion_blameless sound args foreseen.2
    | builtin builtin =>
      refine (builtin.checkUse_blameless ..).bind fun _ _ => ?_
      split
      · exact make_blameless sound args foreseen.2
      · exact (operands_blameless sound (fun _ _ => Builtin.checkArgument_blameless ..) args
          foreseen.2).bind fun _ _ => Builtin.toOperand_blameless ..
    | function =>
      exact (expr_blameless sound callee foreseen.1).bind fun _ _ =>
        (Invoke.signature_blameless ..).bind fun _ _ =>
          (operands_blameless sound (fun _ _ => Compiled.blameless_pure _) args foreseen.2).bind
            fun _ _ => (Invoke.function_blameless ..).bind fun _ _ => Compiled.blameless_pure _
  | .func head (.mk statements blockSpan) _ =>
    simp only [Expr.foreseen] at foreseen
    rw [expr]
    refine Blameless.bind ?_ fun _ _ => Compiled.blameless_pure _
    exact function_blameless sound fun frame declarable => stmts_blameless declarable statements foreseen
  | .index base index _ =>
    simp only [Expr.foreseen, Bool.and_eq_true] at foreseen
    rw [expr]
    exact (expr_blameless sound base foreseen.1).bind fun found _ => found.type_blameless.bind
      fun _ _ => (Operand.indexType_blameless ..).bind fun _ _ =>
        (expr_blameless sound index foreseen.2).bind fun _ _ =>
          (Operand.convertTo_blameless ..).bind fun _ _ => Operand.element_blameless ..
  | .sliceLit elem elems _ =>
    simp only [Expr.foreseen] at foreseen
    rw [expr]
    exact (scope.resolve_blameless _ _).bind fun _ _ =>
      (operands_blameless sound (fun _ _ => Operand.convertTo_blameless ..) elems foreseen).bind
        fun _ _ => Compiled.blameless_pure _
  | .mapLit key value entries _ =>
    simp only [Expr.foreseen] at foreseen
    rw [expr]
    refine (scope.resolve_blameless _ _).bind fun _ _ => ?_
    simp only [Compiled.fault_bind, Compiled.blameless_ite]
    refine ⟨fun _ => by simp [Cause.isInternal, Cause.kind], fun _ => ?_⟩
    exact (scope.resolve_blameless _ _).bind fun _ _ =>
      (mapEntries_blameless sound entries foreseen).bind fun _ _ => Compiled.blameless_pure _
  | .typeAssert operand written _ =>
    simp only [Expr.foreseen] at foreseen
    rw [expr]
    exact (expr_blameless sound operand foreseen).bind fun _ _ =>
      (Operand.interfaceCode_blameless ..).bind fun _ _ => (scope.resolve_blameless _ _).bind
        fun _ _ => Compiled.blameless_pure _
  | .type written _ =>
    rw [expr]
    exact (scope.resolve_blameless _ _).bind fun _ _ => by simp [Cause.isInternal, Cause.kind]

theorem conversion_blameless {scope : Scope} {span : Span} {target : Ty} (sound : scope.Sound)
    (args : List Expr)
    (foreseen : Expr.foreseenAll args = true) : (conversion scope target span args).Blameless := by
  match args with
  | [] => simp [conversion, Cause.isInternal, Cause.kind]
  | [arg] =>
    simp only [Expr.foreseenAll, Bool.and_eq_true] at foreseen
    rw [conversion]
    exact (expr_blameless sound arg foreseen.1).bind fun _ _ => Operand.conversion_blameless ..
  | _ :: _ :: _ => simp [conversion, Cause.isInternal, Cause.kind]

theorem make_blameless {scope : Scope} {span : Span} {ellipsis : Bool} (sound : scope.Sound)
    (args : List Expr)
    (foreseen : Expr.foreseenAll args = true) : (make scope ellipsis span args).Blameless := by
  match args with
  | [] =>
    rw [make]
    exact Builtin.toOperand_blameless ..
  | written :: sizes =>
    simp only [Expr.foreseenAll, Bool.and_eq_true] at foreseen
    rw [make]
    exact (Builtin.madeType_blameless ..).bind fun _ _ =>
      (operands_blameless sound (fun _ _ => Builtin.checkArgument_blameless ..) sizes
        foreseen.2).bind fun _ _ => Builtin.made_blameless ..

theorem operands_blameless {scope : Scope} {check : Option Operand → Operand → Compiled Operand}
    {first : Option Operand} (sound : scope.Sound)
    (checks : ∀ first operand, (check first operand).Blameless) (nodes : List Expr)
    (foreseen : Expr.foreseenAll nodes = true) : (operands scope check first nodes).Blameless := by
  match nodes with
  | [] =>
    rw [operands]
    exact Compiled.blameless_pure _
  | node :: rest =>
    simp only [Expr.foreseenAll, Bool.and_eq_true] at foreseen
    rw [operands]
    exact (expr_blameless sound node foreseen.1).bind fun _ _ => (checks _ _).bind fun _ _ =>
      (operands_blameless sound checks rest foreseen.2).bind fun _ _ => Compiled.blameless_pure _

theorem mapEntries_blameless {scope : Scope} {key value : Ty} (sound : scope.Sound)
    (entries : List (Expr × Expr))
    (foreseen : Expr.foreseenEntries entries = true) :
    (mapEntries scope key value entries).Blameless := by
  match entries with
  | [] =>
    rw [mapEntries]
    exact Compiled.blameless_pure _
  | (keyNode, valueNode) :: rest =>
    simp only [Expr.foreseenEntries, Bool.and_eq_true] at foreseen
    rw [mapEntries]
    exact (expr_blameless sound keyNode foreseen.1.1).bind fun _ _ =>
      (Operand.convertTo_blameless ..).bind fun _ _ =>
        (expr_blameless sound valueNode foreseen.1.2).bind fun _ _ =>
          (Operand.convertTo_blameless ..).bind fun _ _ =>
            (mapEntries_blameless sound rest foreseen.2).bind fun _ _ => Compiled.blameless_pure _

theorem commaOk_blameless {scope : Scope} (sound : scope.Sound) (node : Expr)
    (foreseen : node.foreseen = true) : (commaOk scope node).Blameless := by
  match node with
  | .index base index _ =>
    simp only [Expr.foreseen, Bool.and_eq_true] at foreseen
    rw [commaOk]
    refine (expr_blameless sound base foreseen.1).bind fun found _ => found.type_blameless.bind
      fun type _ => ?_
    cases type with
    | map key value =>
      exact (expr_blameless sound index foreseen.2).bind fun _ _ =>
        (Operand.convertTo_blameless ..).bind fun _ _ => Compiled.blameless_pure _
    | _ => exact Compiled.blameless_pure _
  | .unary op channel _ =>
    simp only [Expr.foreseen] at foreseen
    cases op with
    | recv =>
      rw [commaOk]
      exact (expr_blameless sound channel foreseen).bind fun found _ => found.type_blameless.bind
        fun _ _ => (Operand.recvElem_blameless ..).bind fun _ _ => Compiled.blameless_pure _
    | _ => simp [commaOk]
  | .typeAssert operand written _ =>
    simp only [Expr.foreseen] at foreseen
    rw [commaOk]
    exact (expr_blameless sound operand foreseen).bind fun _ _ =>
      (Operand.interfaceCode_blameless ..).bind fun _ _ => (scope.resolve_blameless _ _).bind
        fun _ _ => Compiled.blameless_pure _
  | .ident _ | .int _ _ | .float _ _ | .bool _ _ | .string _ _ | .binary _ _ _ _ | .call _ _ _ _
  | .func _ _ _ | .sliceLit _ _ _ | .mapLit _ _ _ _ | .type _ _ => simp [commaOk]

theorem place_blameless {scope : Scope} (sound : scope.Sound) (node : Expr)
    (foreseen : node.foreseen = true) : (place scope node).Blameless := by
  match node with
  | .ident ident =>
    rw [place]
    exact identPlace_blameless ..
  | .index base index _ =>
    simp only [Expr.foreseen, Bool.and_eq_true] at foreseen
    rw [place]
    exact (expr_blameless sound base foreseen.1).bind fun found _ => found.type_blameless.bind
      fun _ _ => (elementIndexType_blameless ..).bind fun _ _ =>
        (expr_blameless sound index foreseen.2).bind fun _ _ =>
          (Operand.convertTo_blameless ..).bind fun _ _ => Compiled.blameless_pure _
  | .int _ _ | .float _ _ | .bool _ _ | .string _ _ | .binary _ _ _ _ | .unary _ _ _
  | .call _ _ _ _ | .func _ _ _ | .sliceLit _ _ _ | .mapLit _ _ _ _ | .typeAssert _ _ _
  | .type _ _ => simp [place, Cause.isInternal, Cause.kind]

theorem optional_place_blameless (node : Option Expr) (foreseen : Expr.foreseenIn node = true) :
    ∀ found, node = some found → ∀ scope : Scope, scope.Sound → (place scope found).Blameless := by
  match node with
  | none => simp
  | some node =>
    simp only [Expr.foreseenIn] at foreseen
    rintro _ ⟨⟩ scope sound
    exact place_blameless sound node foreseen

theorem places_blameless {scope : Scope} (sound : scope.Sound) (nodes : List Expr)
    (foreseen : Expr.foreseenAll nodes = true) : (places scope nodes).Blameless := by
  match nodes with
  | [] =>
    rw [places]
    exact Compiled.blameless_pure _
  | node :: rest =>
    simp only [Expr.foreseenAll, Bool.and_eq_true] at foreseen
    rw [places]
    exact (place_blameless sound node foreseen.1).bind fun _ _ =>
      (places_blameless sound rest foreseen.2).bind fun _ _ => Compiled.blameless_pure _

theorem rhs_blameless {scope : Scope} {span : Span} {count : Nat} (sound : scope.Sound)
    (nodes : List Expr) (foreseen : Expr.foreseenAll nodes = true) :
    (rhs scope count span nodes).Blameless := by
  match nodes with
  | [] =>
    rw [rhs]
    simp [Cause.isInternal, Cause.kind]
  | [single] =>
    simp only [Expr.foreseenAll, Bool.and_eq_true] at foreseen
    have alone : (expr scope single >>= fun operand => Rhs.ofSingle operand count span).Blameless :=
      (expr_blameless sound single foreseen.1).bind fun _ _ => Rhs.ofSingle_blameless ..
    rw [rhs]
    split
    · refine (commaOk_blameless sound single foreseen.1).bind fun found _ => ?_
      cases found with
      | some pair => exact Compiled.blameless_pure _
      | none => exact alone
    · exact alone
  | node :: next :: rest =>
    simp only [Expr.foreseenAll, Bool.and_eq_true] at foreseen
    have others : Expr.foreseenAll (next :: rest) = true := by
      simp [Expr.foreseenAll, foreseen.2]
    rw [rhs]
    · simp only [Compiled.fault_bind, Compiled.blameless_ite]
      refine ⟨fun _ => by simp [Cause.isInternal, Cause.kind], fun _ => ?_⟩
      exact (expr_blameless sound node foreseen.1).bind fun _ _ =>
        (operands_blameless sound (fun _ _ => Compiled.blameless_pure _) (next :: rest) others).bind
          fun _ _ => Compiled.blameless_pure _
    · simp

theorem prepareCall_blameless {scope : Scope} {keyword : Keyword} (sound : scope.Sound) (node : Expr)
    (foreseen : node.foreseen = true) : (prepareCall scope keyword node).Blameless := by
  match node with
  | .call callee args ellipsis _ =>
    simp only [Expr.foreseen, Bool.and_eq_true] at foreseen
    rw [prepareCall]
    refine (scope.callee_blameless callee).bind fun kind _ => ?_
    cases kind with
    | conversion target => simp [Cause.isInternal, Cause.kind]
    | builtin builtin =>
      simp only [Compiled.fault_bind, Compiled.blameless_ite]
      refine ⟨fun _ => by simp [Cause.isInternal, Cause.kind], fun _ => ⟨fun _ =>
        by simp [Cause.isInternal, Cause.kind], fun _ => ?_⟩⟩
      exact (builtin.checkUse_blameless ..).bind fun _ _ =>
        (operands_blameless sound (fun _ _ => Builtin.checkArgument_blameless ..) args
          foreseen.2).bind fun _ _ => Builtin.invoke_blameless ..
    | function =>
      exact (expr_blameless sound callee foreseen.1).bind fun _ _ =>
        (Invoke.signature_blameless ..).bind fun _ _ =>
          (operands_blameless sound (fun _ _ => Compiled.blameless_pure _) args foreseen.2).bind
            fun _ _ => Invoke.function_blameless ..
  | .ident _ | .int _ _ | .float _ _ | .bool _ _ | .string _ _ | .binary _ _ _ _ | .unary _ _ _
  | .index _ _ _ | .func _ _ _ | .sliceLit _ _ _ | .mapLit _ _ _ _ | .typeAssert _ _ _
  | .type _ _ => simp [prepareCall, Cause.isInternal, Cause.kind]

theorem stmts_blameless {outer : Scope} {frame : Frame} {here : Nat} {clause : Bool}
    (declarable : Declarable outer frame) (nodes : List Stmt)
    (foreseen : Stmt.foreseenAll nodes = true) :
    (stmts outer frame here clause nodes).Blameless := by
  match nodes with
  | [] =>
    rw [stmts]
    exact Compiled.blameless_pure _
  | node :: rest =>
    simp only [Stmt.foreseenAll, Bool.and_eq_true] at foreseen
    rw [stmts]
    split
    · exact Compiled.blameless_pure _
    · refine (stmt_blameless declarable node foreseen.1).bind fun first compiled => ?_
      exact (stmts_blameless (stmt_declarable declarable compiled) rest foreseen.2).bind
        fun _ _ => Compiled.blameless_pure _

theorem stmt_blameless {outer : Scope} {frame : Frame} {here : Nat} {labels : List String}
    (declarable : Declarable outer frame) (node : Stmt) (foreseen : node.foreseen = true) :
    (stmt outer frame here labels node).Blameless := by
  match node with
  | .empty _ =>
    rw [stmt]
    exact Compiled.blameless_pure _
  | .bad _ | .caseClause _ | .commClause _ => simp [stmt, Cause.isInternal, Cause.kind]
  | .labeled _ body _ =>
    simp only [Stmt.foreseen] at foreseen
    rw [stmt]
    exact stmt_blameless declarable body foreseen
  | .block body =>
    simp only [Stmt.foreseen] at foreseen
    rw [stmt]
    exact (block_blameless declarable.sound body foreseen).bind fun _ _ => Compiled.blameless_pure _
  | .branch _ _ _ =>
    rw [stmt]
    exact (branchStmt_blameless ..).bind fun _ _ => Compiled.blameless_pure _
  | .expr operand =>
    simp only [Stmt.foreseen] at foreseen
    rw [stmt]
    refine (expr_blameless declarable.sound operand foreseen).bind fun _ _ => ?_
    split <;> exact Compiled.blameless_pure _
  | .assign lhs op nodes _ =>
    simp only [Stmt.foreseen, Bool.and_eq_true] at foreseen
    cases op with
    | define =>
      rw [stmt]
      exact (rhs_blameless declarable.sound nodes foreseen.2).bind fun _ _ => define_blameless ..
    | assign =>
      rw [stmt]
      exact (places_blameless declarable.sound lhs foreseen.1).bind fun _ _ =>
        (rhs_blameless declarable.sound nodes foreseen.2).bind fun _ _ =>
          (assign_blameless ..).bind fun _ _ => Compiled.blameless_pure _
    | compound op =>
      have check (span : Span) : (checkCompound op span).Blameless := by
        simp [checkCompound, Cause.isInternal, Cause.kind]
      rw [stmt]
      simp only [Compiled.fault_bind, Compiled.blameless_ite]
      refine ⟨fun _ => by simp [Cause.isInternal, Cause.kind], fun _ => ?_⟩
      refine (check _).bind fun _ _ => ?_
      refine (places_blameless declarable.sound lhs foreseen.1).bind fun targets _ => ?_
      split
      · refine (compoundType_blameless ..).bind fun _ _ => ?_
        refine (operands_blameless declarable.sound (fun _ _ => Compiled.blameless_pure _) nodes
          foreseen.2).bind fun found _ => ?_
        split
        · exact (update_blameless ..).bind fun _ _ => Compiled.blameless_pure _
        · simp [Cause.isInternal, Cause.kind]
      · simp [Cause.isInternal, Cause.kind]
  | .incDec target _ _ =>
    simp only [Stmt.foreseen] at foreseen
    rw [stmt]
    exact (place_blameless declarable.sound target foreseen).bind fun _ _ =>
      (compoundType_blameless ..).bind fun _ _ => (update_blameless ..).bind fun _ _ =>
        Compiled.blameless_pure _
  | .decl declaration =>
    simp only [Stmt.foreseen] at foreseen
    rw [stmt]
    exact decl_blameless declarable declaration foreseen
  | .ret values _ =>
    simp only [Stmt.foreseen] at foreseen
    rw [stmt]
    refine (enclosing_blameless ..).bind fun found _ => ?_
    obtain ⟨hops, info⟩ := found
    dsimp only
    split
    · simp [Cause.isInternal, Cause.kind]
    · exact (operands_blameless declarable.sound (fun _ _ => Compiled.blameless_pure _) values
        foreseen).bind fun _ _ => (returnValues_blameless ..).bind fun _ _ =>
          Compiled.blameless_pure _
  | .defer call _ =>
    simp only [Stmt.foreseen] at foreseen
    rw [stmt]
    exact (enclosing_blameless ..).bind fun _ _ =>
      (prepareCall_blameless declarable.sound call foreseen).bind fun _ _ =>
        Compiled.blameless_pure _
  | .go call _ =>
    simp only [Stmt.foreseen] at foreseen
    rw [stmt]
    exact (prepareCall_blameless (Declarable.empty declarable.sound true).sound call foreseen).bind
      fun _ _ => Compiled.blameless_pure _
  | .send channel value _ =>
    simp only [Stmt.foreseen, Bool.and_eq_true] at foreseen
    rw [stmt]
    exact (expr_blameless declarable.sound channel foreseen.1).bind fun found _ =>
      found.type_blameless.bind fun _ _ => (Operand.sendElem_blameless ..).bind fun _ _ =>
        (expr_blameless declarable.sound value foreseen.2).bind fun _ _ =>
          (Operand.convertTo_blameless ..).bind fun _ _ => Compiled.blameless_pure _
  | .ifElse init cond thenBranch elseBranch _ =>
    simp only [Stmt.foreseen, Bool.and_eq_true] at foreseen
    obtain ⟨⟨seen, seenElse⟩, ⟨⟨init', cond'⟩, then'⟩, else'⟩ := foreseen
    exact ifElse_blameless declarable seen (fun _ _ inner => initStmt_blameless inner init init')
      (fun _ sound => expr_blameless sound cond cond')
      (fun _ _ sound => block_blameless sound thenBranch then')
      fun _ _ inner => elseStmt_blameless inner seenElse (optional_stmt_blameless elseBranch else')
  | .forLoop init cond post body _ =>
    simp only [Stmt.foreseen, Bool.and_eq_true, Bool.or_eq_true] at foreseen
    obtain ⟨⟨seen, seenPost⟩, ⟨⟨init', cond'⟩, post'⟩, body'⟩ := foreseen
    exact forLoop_blameless declarable seen seenPost
      (fun _ _ inner => initStmt_blameless inner init init')
      (fun _ sound => loopCond_blameless sound cond cond')
      (fun _ _ sound => block_blameless sound body body')
      fun _ _ inner => postStmt_blameless inner post post'
  | .range key value _ subject body _ =>
    simp only [Stmt.foreseen, Bool.and_eq_true] at foreseen
    obtain ⟨⟨⟨key', value'⟩, subject'⟩, body'⟩ := foreseen
    exact range_blameless declarable (fun _ sound => expr_blameless sound subject subject')
      (optional_place_blameless key key') (optional_place_blameless value value')
      fun _ _ sound => block_blameless sound body body'
  | .switch init tag clauses _ =>
    simp only [Stmt.foreseen, Bool.and_eq_true] at foreseen
    obtain ⟨seen, ⟨init', tag'⟩, clauses'⟩ := foreseen
    exact switch_blameless declarable seen (fun _ _ inner => initStmt_blameless inner init init')
      (fun _ sound => switchTag_blameless sound tag tag')
      (fun _ _ sound => switchCases_blameless sound clauses clauses')
      fun _ _ sound => switchBodies_blameless sound clauses clauses'
  | .typeSwitch init binding subject clauses _ =>
    simp only [Stmt.foreseen, Bool.and_eq_true, Bool.or_eq_true] at foreseen
    obtain ⟨seen, ⟨init', subject'⟩, clauses'⟩ := foreseen
    refine typeSwitch_blameless declarable seen
      (fun _ _ inner => initStmt_blameless inner init init')
      (fun _ sound => expr_blameless sound subject subject')
      fun _ parked _ _ sound isSome named => ?_
    rw [← isSome] at clauses'
    exact typeSwitchBodies_blameless sound named clauses clauses'
  | .select clauses _ =>
    simp only [Stmt.foreseen] at foreseen
    exact select_blameless declarable
      (fun _ sound => selectComms_blameless sound clauses foreseen)
      fun _ _ _ _ _ sound compiled parks =>
        selectBodies_blameless sound clauses compiled parks foreseen

theorem block_blameless {scope : Scope} {here : Nat} (sound : scope.Sound) (body : Block)
    (foreseen : body.foreseen = true) : (block scope here body).Blameless := by
  match body with
  | .mk statements _ =>
    simp only [Block.foreseen, Bool.and_eq_true] at foreseen
    rw [block]
    exact scopedStmts_blameless sound foreseen.1 fun _ _ declarable =>
      stmts_blameless declarable statements foreseen.2

theorem optional_stmt_blameless (node : Option Stmt) (foreseen : Stmt.foreseenIn node = true) :
    ∀ found, node = some found → ∀ outer frame here, Declarable outer frame →
      (stmt outer frame here [] found).Blameless := by
  match node with
  | none => simp
  | some node =>
    simp only [Stmt.foreseenIn] at foreseen
    rintro _ ⟨⟩ outer frame here declarable
    exact stmt_blameless declarable node foreseen

theorem initStmt_blameless {outer : Scope} {frame : Frame} {here : Nat}
    (declarable : Declarable outer frame) (init : Option Stmt)
    (foreseen : Stmt.foreseenIn init = true) : (initStmt outer frame here init).Blameless := by
  match init with
  | none =>
    rw [initStmt]
    exact Compiled.blameless_pure _
  | some node =>
    simp only [Stmt.foreseenIn] at foreseen
    rw [initStmt]
    exact stmt_blameless declarable node foreseen

theorem postStmt_blameless {outer : Scope} {frame : Frame} {here : Nat}
    (declarable : Declarable outer frame) (post : Option Stmt)
    (foreseen : Stmt.foreseenIn post = true) : (postStmt outer frame here post).Blameless := by
  match post with
  | none =>
    rw [postStmt]
    exact Compiled.blameless_pure _
  | some node =>
    simp only [Stmt.foreseenIn] at foreseen
    rw [postStmt]
    split
    · simp [Cause.isInternal, Cause.kind]
    · exact stmt_blameless declarable node foreseen

theorem loopCond_blameless {scope : Scope} (sound : scope.Sound) (cond : Option Expr)
    (foreseen : Expr.foreseenIn cond = true) : (loopCond scope cond).Blameless := by
  match cond with
  | none =>
    rw [loopCond]
    exact Compiled.blameless_pure _
  | some node =>
    simp only [Expr.foreseenIn] at foreseen
    rw [loopCond]
    exact (expr_blameless sound node foreseen).bind fun _ compiled => toCond_blameless sound compiled

theorem switchTag_blameless {scope : Scope} {span : Span} (sound : scope.Sound) (tag : Option Expr)
    (foreseen : Expr.foreseenIn tag = true) : (switchTag scope span tag).Blameless := by
  match tag with
  | none =>
    rw [switchTag]
    exact Compiled.blameless_pure _
  | some node =>
    simp only [Expr.foreseenIn] at foreseen
    rw [switchTag]
    exact expr_blameless sound node foreseen

theorem caseValues_blameless {scope : Scope} {tag : Ty} (sound : scope.Sound) (nodes : List Expr)
    (foreseen : Expr.foreseenAll nodes = true) : (caseValues scope tag nodes).Blameless := by
  match nodes with
  | [] =>
    rw [caseValues]
    exact Compiled.blameless_pure _
  | node :: rest =>
    simp only [Expr.foreseenAll, Bool.and_eq_true] at foreseen
    rw [caseValues]
    exact (expr_blameless sound node foreseen.1).bind fun _ _ =>
      (caseValue_blameless ..).bind fun _ _ =>
        (caseValues_blameless sound rest foreseen.2).bind fun _ _ => Compiled.blameless_pure _

theorem switchCases_blameless {scope : Scope} {tag : Ty} {declares : Bool} (sound : scope.Sound)
    (clauses : List CaseClause) (foreseen : CaseClause.foreseenAll declares clauses = true) :
    (switchCases scope tag clauses).Blameless := by
  match clauses with
  | [] =>
    rw [switchCases]
    exact Compiled.blameless_pure _
  | .mk none _ _ :: rest =>
    simp only [CaseClause.foreseenAll, Bool.and_eq_true] at foreseen
    rw [switchCases]
    exact (switchCases_blameless sound rest foreseen.2).bind fun _ _ => Compiled.blameless_pure _
  | .mk (some list) _ _ :: rest =>
    simp only [CaseClause.foreseenAll, Bool.and_eq_true] at foreseen
    rw [switchCases]
    exact (caseValues_blameless sound list foreseen.1.2.1).bind fun _ _ =>
      (switchCases_blameless sound rest foreseen.2).bind fun _ _ => Compiled.blameless_pure _

theorem switchBodies_blameless {scope : Scope} {here : Nat} (sound : scope.Sound)
    (clauses : List CaseClause) (foreseen : CaseClause.foreseenAll false clauses = true) :
    (switchBodies scope here clauses).Blameless := by
  match clauses with
  | [] =>
    rw [switchBodies]
    exact Compiled.blameless_pure _
  | .mk list body _ :: rest =>
    have parts : Stmt.areForeseen body = true ∧ Stmt.foreseenAll body = true ∧
        CaseClause.foreseenAll false rest = true := by
      cases list <;> simp only [CaseClause.foreseenAll, Bool.and_eq_true, Bool.or_eq_true,
        Bool.false_eq_true, false_or] at foreseen
      · exact ⟨foreseen.1.1, foreseen.1.2, foreseen.2⟩
      · exact ⟨foreseen.1.1, foreseen.1.2.2, foreseen.2⟩
    obtain ⟨seen, body', rest'⟩ := parts
    rw [switchBodies]
    simp only [Compiled.fault_bind, Compiled.blameless_ite]
    refine ⟨fun _ => by simp [Cause.isInternal, Cause.kind], fun _ => ?_⟩
    exact (scopedStmts_blameless sound seen fun _ _ declarable =>
      stmts_blameless declarable body body').bind fun _ _ =>
        (switchBodies_blameless sound rest rest').bind fun _ _ => Compiled.blameless_pure _

theorem typeSwitchBodies_blameless {scope : Scope} {parked : Option (Ident × Slot)} {types : List Ty}
    {here : Nat} (sound : scope.Sound)
    (named : ∀ ident slot, parked = some (ident, slot) → ident.isBlank = false)
    (clauses : List CaseClause) (foreseen : CaseClause.foreseenAll parked.isSome clauses = true) :
    (typeSwitchBodies scope parked types here clauses).Blameless := by
  match clauses with
  | [] =>
    rw [typeSwitchBodies]
    exact Compiled.blameless_pure _
  | .mk list body _ :: rest =>
    have parts : (parked.isSome = true ∨ Stmt.areForeseen body = true) ∧
        Stmt.foreseenAll body = true ∧ CaseClause.foreseenAll parked.isSome rest = true := by
      cases list <;> simp only [CaseClause.foreseenAll, Bool.and_eq_true, Bool.or_eq_true] at foreseen
      · exact ⟨foreseen.1.1, foreseen.1.2, foreseen.2⟩
      · exact ⟨foreseen.1.1, foreseen.1.2.2, foreseen.2⟩
    obtain ⟨seen, body', rest'⟩ := parts
    have others {here types} : (typeSwitchBodies scope parked types here rest).Blameless :=
      typeSwitchBodies_blameless sound named rest rest'
    rw [typeSwitchBodies]
    simp only [Compiled.fault_bind, Compiled.blameless_ite]
    refine ⟨fun _ => by simp [Cause.isInternal, Cause.kind], fun _ => ?_⟩
    cases parked with
    | none =>
      exact (scopedStmts_blameless sound (by simpa using seen) fun _ _ declarable =>
        stmts_blameless declarable body body').bind fun _ _ => others.bind fun _ _ =>
          Compiled.blameless_pure _
    | some bound =>
      refine (boundClause_blameless sound (named bound.1 bound.2 rfl) fun _ _ declarable =>
        stmts_blameless declarable body body').bind fun _ _ => others.bind fun _ _ =>
          Compiled.blameless_pure _

theorem selectComms_blameless {scope : Scope} (sound : scope.Sound) (clauses : List CommClause)
    (foreseen : CommClause.foreseenAll clauses = true) : (selectComms scope clauses).Blameless := by
  match clauses with
  | [] =>
    rw [selectComms]
    exact Compiled.blameless_pure _
  | .mk none _ _ :: rest =>
    simp only [CommClause.foreseenAll, Bool.and_eq_true] at foreseen
    rw [selectComms]
    exact (selectComms_blameless sound rest foreseen.2).bind fun _ _ => Compiled.blameless_pure _
  | .mk (some node) _ _ :: rest =>
    simp only [CommClause.foreseenAll, Stmt.foreseenIn, Bool.and_eq_true] at foreseen
    rw [selectComms]
    exact (comm_blameless sound node foreseen.1.2.1).bind fun _ _ =>
      (selectComms_blameless sound rest foreseen.2).bind fun _ _ => Compiled.blameless_pure _

theorem comm_blameless {scope : Scope} (sound : scope.Sound) (node : Stmt)
    (foreseen : node.foreseen = true) : (comm scope node).Blameless := by
  match node with
  | .send channel value _ =>
    simp only [Stmt.foreseen, Bool.and_eq_true] at foreseen
    rw [comm]
    exact (expr_blameless sound channel foreseen.1).bind fun found _ => found.type_blameless.bind
      fun _ _ => (Operand.sendElem_blameless ..).bind fun _ _ =>
        (expr_blameless sound value foreseen.2).bind fun _ _ =>
          (Operand.convertTo_blameless ..).bind fun _ _ => Compiled.blameless_pure _
  | .expr (.unary op channel _) =>
    cases op with
    | recv =>
      simp only [Stmt.foreseen, Expr.foreseen] at foreseen
      rw [comm]
      exact (expr_blameless sound channel foreseen).bind fun found _ => found.type_blameless.bind
        fun _ _ => (Operand.recvElem_blameless ..).bind fun _ _ => Compiled.blameless_pure _
    | neg | not => exact comm_other rfl
  | .assign lhs op [.unary unary channel _] _ =>
    cases unary with
    | recv =>
      simp only [Stmt.foreseen, Expr.foreseenAll, Expr.foreseen, Bool.and_eq_true] at foreseen
      have channels := expr_blameless sound channel foreseen.2.1
      cases op with
      | compound op => simp [comm, Cause.isInternal, Cause.kind]
      | define =>
        simp only [comm, Compiled.fault_bind, Compiled.blameless_ite]
        refine ⟨fun _ => by simp [Cause.isInternal, Cause.kind], fun _ => ?_⟩
        exact channels.bind fun found _ => found.type_blameless.bind fun _ _ =>
          (Operand.recvElem_blameless ..).bind fun _ _ => (receiveNames_blameless ..).bind
            fun _ _ => Compiled.blameless_pure _
      | assign =>
        simp only [comm, Compiled.fault_bind, Compiled.blameless_ite]
        refine ⟨fun _ => by simp [Cause.isInternal, Cause.kind], fun _ => ?_⟩
        exact channels.bind fun found _ => found.type_blameless.bind fun _ _ =>
          (Operand.recvElem_blameless ..).bind fun _ _ =>
            (receivePlaces_blameless sound lhs foreseen.1).bind fun _ _ => Compiled.blameless_pure _
    | neg | not => exact comm_other rfl
  | .expr (.ident _) | .expr (.int _ _) | .expr (.float _ _) | .expr (.bool _ _)
  | .expr (.string _ _) | .expr (.binary _ _ _ _) | .expr (.call _ _ _ _) | .expr (.func _ _ _)
  | .expr (.index _ _ _) | .expr (.sliceLit _ _ _) | .expr (.mapLit _ _ _ _)
  | .expr (.typeAssert _ _ _) | .expr (.type _ _) | .assign _ _ [] _
  | .assign _ _ [.ident _] _ | .assign _ _ [.int _ _] _ | .assign _ _ [.float _ _] _
  | .assign _ _ [.bool _ _] _ | .assign _ _ [.string _ _] _ | .assign _ _ [.binary _ _ _ _] _
  | .assign _ _ [.call _ _ _ _] _ | .assign _ _ [.func _ _ _] _ | .assign _ _ [.index _ _ _] _
  | .assign _ _ [.sliceLit _ _ _] _ | .assign _ _ [.mapLit _ _ _ _] _
  | .assign _ _ [.typeAssert _ _ _] _ | .assign _ _ [.type _ _] _
  | .empty _ | .bad _ | .block _ | .branch _ _ _ | .caseClause _ | .commClause _ | .decl _
  | .defer _ _ | .forLoop _ _ _ _ _ | .go _ _ | .ifElse _ _ _ _ _ | .incDec _ _ _
  | .labeled _ _ _ | .range _ _ _ _ _ _ | .ret _ _ | .select _ _ | .switch _ _ _ _
  | .typeSwitch _ _ _ _ _ => exact comm_other rfl
  | .assign _ _ (_ :: _ :: _) _ =>
    refine comm_other ?_
    unfold isComm
    split
    · contradiction
    · contradiction
    · next same => simp at same
    · rfl

theorem receivePlaces_blameless {scope : Scope} {elem : Ty} {span : Span} (sound : scope.Sound)
    (nodes : List Expr) (foreseen : Expr.foreseenAll nodes = true) :
    (receivePlaces scope elem span nodes).Blameless := by
  match nodes with
  | [] =>
    rw [receivePlaces]
    exact Compiled.blameless_pure _
  | [target] =>
    simp only [Expr.foreseenAll, Bool.and_eq_true] at foreseen
    rw [receivePlaces]
    exact (place_blameless sound target foreseen.1).bind fun _ _ =>
      (checkPlace_blameless ..).bind fun _ _ => Compiled.blameless_pure _
  | target :: second :: _ =>
    simp only [Expr.foreseenAll, Bool.and_eq_true] at foreseen
    rw [receivePlaces]
    exact (place_blameless sound target foreseen.1).bind fun _ _ =>
      (checkPlace_blameless ..).bind fun _ _ =>
        (place_blameless sound second foreseen.2.1).bind fun _ _ =>
          (checkPlace_blameless ..).bind fun _ _ => Compiled.blameless_pure _

theorem selectBodies_blameless {scope before : Scope} {found : List (Option (Comm × Receive))}
    {parked : Option (Slot × Slot)} {here : Nat} (sound : scope.Sound)
    (clauses : List CommClause) (compiled : selectComms before clauses = .ok found)
    (parks : ∀ clause ∈ clauses, ∀ lhs op rhs span, clause.comm = some (.assign lhs op rhs span) →
      parked.isSome = true)
    (foreseen : CommClause.foreseenAll clauses = true) :
    (selectBodies scope parked (found.map (·.map (·.2))) here clauses).Blameless := by
  match clauses with
  | [] =>
    rw [selectBodies]
    exact Compiled.blameless_pure _
  | .mk none body _ :: rest =>
    simp only [CommClause.foreseenAll, CommClause.isForeseen, Bool.and_eq_true] at foreseen
    simp only [selectComms, Compiled.bind_eq_ok, Compiled.pure_eq_ok] at compiled
    obtain ⟨others, compiled, rfl⟩ := compiled
    simp only [selectBodies, List.map_cons, Option.map_none, List.head?_cons, Option.join_some,
      List.tail_cons]
    exact (scopedStmts_blameless sound foreseen.1.1 fun _ _ declarable =>
      stmts_blameless declarable body foreseen.1.2.2).bind fun _ _ =>
        (selectBodies_blameless sound rest compiled
          (fun clause mem => parks clause (.tail _ mem)) foreseen.2).bind fun _ _ =>
            Compiled.blameless_pure _
  | .mk (some node) body span :: rest =>
    simp only [CommClause.foreseenAll, Bool.and_eq_true] at foreseen
    simp only [selectComms, Compiled.bind_eq_ok, Compiled.pure_eq_ok] at compiled
    obtain ⟨⟨channel, receive⟩, communicates, others, compiled, rfl⟩ := compiled
    have bodies {here} := @selectBodies_blameless _ _ _ parked here sound rest compiled
      (fun clause mem => parks clause (List.Mem.tail _ mem)) foreseen.2
    have each {frame here} := fun declarable : Declarable scope frame =>
      @stmts_blameless scope frame here false declarable body foreseen.1.2.2
    have inside {here} (seen : Stmt.areForeseen body = true) :
        (scopedStmts scope here false span body).Blameless :=
      scopedStmts_blameless sound seen fun _ _ => each
    simp only [selectBodies, List.map_cons, Option.map_some, List.head?_cons, Option.join_some,
      List.tail_cons]
    cases receive with
    | define value flag elem =>
      obtain ⟨lhs, rhs, assignSpan, rfl, declares, named⟩ := comm_define communicates
      obtain ⟨slots, rfl⟩ := Option.isSome_iff_exists.mp (parks _ (.head _) _ _ _ _ rfl)
      have received : ((value.isSome || flag.isSome) || !body.any Stmt.binds) = true := by
        rw [declares]
        exact foreseen.1.1
      exact (receivedClause_blameless sound named received fun _ _ => each).bind fun _ _ =>
        bodies.bind fun _ _ => Compiled.blameless_pure _
    | discard =>
      have seen := comm_areForeseen communicates (by simp) foreseen.1.1
      exact (inside seen).bind fun _ _ => bodies.bind fun _ _ => Compiled.blameless_pure _
    | assign value flag =>
      have seen := comm_areForeseen communicates (by simp) foreseen.1.1
      cases parked with
      | none => exact (inside seen).bind fun _ _ => bodies.bind fun _ _ => Compiled.blameless_pure _
      | some slots =>
        exact (inside seen).bind fun _ _ => (Compiled.blameless_pure _).bind fun _ _ =>
          bodies.bind fun _ _ => Compiled.blameless_pure _

theorem decl_blameless {outer : Scope} {frame : Frame} {here : Nat}
    (declarable : Declarable outer frame) (declaration : Decl)
    (foreseen : declaration.foreseen = true) :
    (decl outer frame here declaration).Blameless := by
  match declaration with
  | .var specs _ =>
    simp only [Decl.foreseen] at foreseen
    rw [decl]
    exact varSpecs_blameless declarable specs foreseen
  | .const specs _ =>
    simp only [Decl.foreseen] at foreseen
    rw [decl]
    exact (constSpecs_blameless declarable specs foreseen).bind fun _ _ => Compiled.blameless_pure _
  | .type specs _ =>
    rw [decl]
    exact (typeSpecs_blameless ..).bind fun _ _ => Compiled.blameless_pure _
  | .func name head (.mk statements _) _ =>
    simp only [Decl.foreseen] at foreseen
    rw [decl]
    refine (Scope.resolveHead_blameless ..).bind fun _ _ =>
      (frame.declareVar_blameless _ _ _).bind fun found declared => ?_
    obtain ⟨slot, after⟩ := found
    have grown := declarable.after (Frame.declareVar_declares declared).1
    refine (function_blameless grown.sound fun _ inner =>
      stmts_blameless inner statements foreseen).bind fun _ _ => ?_
    cases slot <;> exact Compiled.blameless_pure _

theorem varSpecs_blameless {outer : Scope} {frame : Frame} {here : Nat}
    (declarable : Declarable outer frame) (specs : List ValueSpec)
    (foreseen : ValueSpec.foreseenAll specs = true) :
    (varSpecs outer frame here specs).Blameless := by
  match specs with
  | [] =>
    rw [varSpecs]
    exact Compiled.blameless_pure _
  | .mk names written values _ :: rest =>
    simp only [ValueSpec.foreseenAll, Bool.and_eq_true] at foreseen
    rw [varSpecs]
    refine (declaredType_blameless ..).bind fun _ _ =>
      (operands_blameless declarable.sound (fun _ _ => Compiled.blameless_pure _) values
        foreseen.1).bind fun _ _ => (initValues_blameless ..).bind fun _ _ =>
          (declareInit_blameless ..).bind fun first declared => ?_
    simp only [declareInit, Compiled.bind_eq_ok, Compiled.pure_eq_ok, Prod.exists] at declared
    obtain ⟨slots, after, each, rfl⟩ := declared
    obtain ⟨⟨named, declares, -⟩, -⟩ := Frame.declareVars_declares each
    exact (varSpecs_blameless (declarable.after declares) rest foreseen.2).bind fun _ _ =>
      Compiled.blameless_pure _

theorem constSpecs_blameless {outer : Scope} {frame : Frame} (declarable : Declarable outer frame)
    (specs : List ValueSpec) (foreseen : ValueSpec.foreseenAll specs = true) :
    (constSpecs outer frame specs).Blameless := by
  match specs with
  | [] =>
    rw [constSpecs]
    exact Compiled.blameless_pure _
  | .mk names written values _ :: rest =>
    simp only [ValueSpec.foreseenAll, Bool.and_eq_true] at foreseen
    rw [constSpecs]
    simp only [Compiled.fault_bind, Compiled.blameless_ite]
    refine ⟨fun _ => by simp [Cause.isInternal, Cause.kind], fun _ => ?_⟩
    refine (declaredType_blameless ..).bind fun _ _ =>
      (constValues_blameless declarable values foreseen.1).bind fun after declared => ?_
    have grown := declarable.after (constValues_declares values declarable declared)
    exact constSpecs_blameless grown rest foreseen.2

theorem constValues_blameless {outer : Scope} {frame : Frame} {declared : Option Ty}
    {names : List Ident} (declarable : Declarable outer frame) (nodes : List Expr)
    (foreseen : Expr.foreseenAll nodes = true) :
    (constValues outer frame declared names nodes).Blameless := by
  match nodes with
  | [] =>
    rw [constValues]
    exact Compiled.blameless_pure _
  | node :: rest =>
    simp only [Expr.foreseenAll, Bool.and_eq_true] at foreseen
    cases names with
    | nil =>
      rw [constValues]
      exact Compiled.blameless_pure _
    | cons name names =>
      rw [constValues]
      refine (expr_blameless declarable.sound node foreseen.1).bind fun operand compiled =>
        (constValue_blameless ..).bind fun found valued =>
          (frame.declareSymbol_blameless _ _ _).bind fun after symbol => ?_
      let nowhere : Ctx False := ⟨[], [], .nil⟩
      have isSound := @constValue_sound False nowhere declared name operand found.1 found.2
        (fun constant => expr_constant declarable.sound node compiled constant) valued
      have declares := Frame.declareSymbol_declares (.const found.1 found.2) isSound (by simp) symbol
      exact constValues_blameless (declarable.after declares) rest foreseen.2

end

end Compile

def SourceFile.foreseen (source : SourceFile) : Bool := source.all Decl.foreseen

namespace FileScope

variable {scope after : FileScope}

def Foreseen (scope : FileScope) : Prop :=
  ∀ func ∈ scope.funcs ++ scope.inits, Stmt.foreseenAll func.body.statements = true

theorem declareNatives_blameless (scope : FileScope) (natives : List (String × Signature)) :
    (scope.declareNatives natives).Blameless := by
  induction natives generalizing scope with
  | nil => exact Compiled.blameless_pure _
  | cons native natives ih => exact (Frame.declareVar_blameless ..).bind fun _ _ => ih _

theorem declareNatives_funcs {natives : List (String × Signature)}
    (compiled : scope.declareNatives natives = .ok after) :
    after.funcs = scope.funcs ∧ after.inits = scope.inits := by
  induction natives generalizing scope with
  | nil =>
    obtain rfl := Compiled.pure_eq_ok.mp compiled
    exact ⟨rfl, rfl⟩
  | cons native natives ih =>
    simp only [declareNatives, Compiled.bind_eq_ok, Prod.exists] at compiled
    obtain ⟨slot, frame, -, compiled⟩ := compiled
    have same := ih compiled
    exact same

theorem addFunc_blameless (scope : FileScope) (name : Ident) (head : FuncHead) (body : Block)
    (span : Span) : (scope.addFunc name head body span).Blameless := by
  unfold addFunc
  simp only [Compiled.blameless_ite]
  refine ⟨fun _ => ⟨fun _ => Compiled.blameless_pure _, fun _ => ?_⟩, fun _ => ?_⟩
  · simp [Cause.isInternal, Cause.kind]
  · exact (Scope.resolveHead_blameless ..).bind fun _ _ => (Frame.declareVar_blameless ..).bind
      fun _ _ => Compiled.blameless_pure _

theorem Foreseen.addFunc {name : Ident} {head : FuncHead} {body : Block} {span : Span}
    (foreseen : scope.Foreseen) (inside : Stmt.foreseenAll body.statements = true)
    (compiled : scope.addFunc name head body span = .ok after) : after.Foreseen := by
  have before (func : FileFunc) (mem : func ∈ scope.funcs ∨ func ∈ scope.inits) :=
    foreseen func (List.mem_append.mpr mem)
  unfold FileScope.addFunc at compiled
  split at compiled
  · split at compiled
    · obtain rfl := Compiled.pure_eq_ok.mp compiled
      intro func mem
      simp only [List.mem_append, List.mem_singleton] at mem
      rcases mem with old | old | rfl
      · exact before func (.inl old)
      · exact before func (.inr old)
      · exact inside
    · simp at compiled
  · simp only [Compiled.bind_eq_ok, Prod.exists, Compiled.pure_eq_ok] at compiled
    obtain ⟨signature, -, slot, frame, -, rfl⟩ := compiled
    intro func mem
    simp only [List.mem_append, List.mem_singleton] at mem
    rcases mem with (old | rfl) | old
    · exact before func (.inl old)
    · exact inside
    · exact before func (.inr old)

theorem declareAll_blameless {source : SourceFile} (sound : scope.Sound False)
    (foreseen : scope.Foreseen) (seen : source.foreseen = true) :
    (scope.declareAll source).Blameless ∧
      ∀ after, scope.declareAll source = .ok after → after.Foreseen := by
  induction source generalizing scope with
  | nil =>
    refine ⟨Compiled.blameless_pure _, fun after compiled => ?_⟩
    obtain rfl := Compiled.pure_eq_ok.mp compiled
    exact foreseen
  | cons declaration rest ih =>
    simp only [SourceFile.foreseen, List.all_cons, Bool.and_eq_true] at seen
    cases declaration with
    | type specs _ =>
      simp only [declareAll, pure_bind, Compiled.bind_eq_ok]
      refine ⟨(Compile.typeSpecs_blameless ..).bind fun frame declared => ?_, ?_⟩
      · exact (ih (sound.grow (Compile.typeSpecs_declares specs sound.declarable declared))
          foreseen seen.2).1
      · rintro after ⟨frame, declared, compiled⟩
        exact (ih (sound.grow (Compile.typeSpecs_declares specs sound.declarable declared))
          foreseen seen.2).2 after compiled
    | const specs _ =>
      simp only [declareAll, pure_bind, Compiled.bind_eq_ok]
      refine ⟨(Compile.constSpecs_blameless sound.declarable specs seen.1).bind
        fun frame declared => ?_, ?_⟩
      · exact (ih (sound.grow (Compile.constSpecs_declares specs sound.declarable declared))
          foreseen seen.2).1
      · rintro after ⟨frame, declared, compiled⟩
        exact (ih (sound.grow (Compile.constSpecs_declares specs sound.declarable declared))
          foreseen seen.2).2 after compiled
    | func name head body span =>
      simp only [declareAll, Compiled.bind_eq_ok]
      obtain ⟨statements, blockSpan⟩ := body
      have proper : ProperIf False (head :: Block.heads (.mk statements blockSpan)) := by
        simp [ProperIf]
      have inside : Stmt.foreseenAll (Block.mk statements blockSpan).statements = true := by
        simpa only [Decl.foreseen, Block.statements] using seen.1
      refine ⟨(addFunc_blameless ..).bind fun next added => ?_, ?_⟩
      · exact (ih (sound.addFunc proper added) (foreseen.addFunc inside added) seen.2).1
      · rintro after ⟨next, added, compiled⟩
        exact (ih (sound.addFunc proper added) (foreseen.addFunc inside added) seen.2).2 after
          compiled
    | var specs _ =>
      simp only [declareAll, pure_bind]
      exact ih sound foreseen seen.2

end FileScope

namespace Compile

theorem fileVars_blameless {source : SourceFile} (declarable : Declarable [] frame)
    (foreseen : source.foreseen = true) : (fileVars frame source).Blameless := by
  induction source generalizing frame with
  | nil => exact Compiled.blameless_pure _
  | cons declaration rest ih =>
    simp only [SourceFile.foreseen, List.all_cons, Bool.and_eq_true] at foreseen
    cases declaration with
    | var specs _ =>
      simp only [fileVars]
      refine (varSpecs_blameless declarable specs foreseen.1).bind fun first compiled => ?_
      obtain ⟨slots, declares, -⟩ :=
        @varSpecs_extends False specs (by simp [ProperIf]) _ _ _ first declarable compiled
      exact (ih (declarable.after declares) foreseen.2).bind fun _ _ => Compiled.blameless_pure _
    | const _ _ | type _ _ | func _ _ _ _ => simpa only [fileVars] using ih declarable foreseen.2

theorem fileFuncs_blameless {scope : Scope} {instr : Option Slot → Template → Option Instr}
    {funcs : List FileFunc} (sound : scope.Sound)
    (foreseen : ∀ func ∈ funcs, Stmt.foreseenAll func.body.statements = true) :
    (fileFuncs scope instr funcs).Blameless := by
  induction funcs with
  | nil => exact Compiled.blameless_pure _
  | cons func rest ih =>
    obtain ⟨slot, head, ⟨statements, blockSpan⟩, span⟩ := func
    have seen := foreseen _ (.head _)
    refine (function_blameless sound fun _ inner => stmts_blameless inner statements seen).bind
      fun _ _ => (ih fun func mem => foreseen func (.tail _ mem)).bind fun _ _ =>
        Compiled.blameless_pure _

end Compile

/-- A file whose scopes all foresee their slots never runs into a fault of the compiler itself. -/
theorem file_blameless (source : SourceFile) (natives : List (String × Signature))
    (foreseen : source.foreseen = true) :
    ∀ error, Compile.file source natives = .error error → error.isInternal = false := by
  have start : FileScope.Sound False {} :=
    ⟨⟨[], Declares.refl _⟩, by simp, by simp, by simp⟩
  suffices blameless : (Compile.file source natives).Blameless from blameless.external
  refine (FileScope.declareNatives_blameless ..).bind fun hosted declared => ?_
  obtain ⟨funcs, inits⟩ := FileScope.declareNatives_funcs declared
  have none : hosted.Foreseen := by simp [FileScope.Foreseen, funcs, inits]
  have sound := start.declareNatives declared
  obtain ⟨all, left⟩ := FileScope.declareAll_blameless sound none foreseen
  refine all.bind fun scope compiled => ?_
  have declarable := (sound.declareAll (by simp [ProperIf]) compiled).declarable
  refine (Compile.fileVars_blameless declarable foreseen).bind fun vars compiledVars => ?_
  obtain ⟨slots, declares, -⟩ :=
    @Compile.fileVars_declaring False _ vars _ 0 (by simp [ProperIf]) declarable compiledVars
  have inside := (declarable.after declares).sound
  exact (Compile.fileFuncs_blameless inside fun func mem =>
    left _ compiled func (List.mem_append_left _ mem)).bind fun _ _ =>
      (Compile.fileFuncs_blameless inside fun func mem =>
        left _ compiled func (List.mem_append_right _ mem)).bind fun _ _ =>
          Compiled.blameless_pure _

/-- A function whose block declares a variable behind a label, in front of other statements. -/
def labelledBlock (more : List Stmt) : SourceFile :=
  let define : Stmt := .assign [.ident ⟨"x", {}⟩] .define [.int 1 {}] {}
  [.func ⟨"main", {}⟩ {} (.mk [.block (.mk (.labeled ⟨"again", {}⟩ define {} :: more) {})] {}) {}]

theorem file_blameless_labelled :
    (labelledBlock [.assign [.ident ⟨"y", {}⟩] .define [.int 2 {}] {}]).foreseen = true ∧
      ∀ error, Compile.file (labelledBlock [.assign [.ident ⟨"y", {}⟩] .define [.int 2 {}] {}]) [] =
        .error error → error.isInternal = false :=
  ⟨by decide, file_blameless _ _ (by decide)⟩

/-- Behind a label the declaration is not seen, and the block has no environment for its variable. -/
theorem file_labelled_internal :
    (match Compile.file (labelledBlock []) [] with
      | .error error => error.isInternal
      | .ok _ => false) = true := by
  decide

end MiniGo
