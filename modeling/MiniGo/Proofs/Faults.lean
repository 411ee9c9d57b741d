import MiniGo.Proofs.Constants
/-!
Faults of a program. A computation of the compiler is blameless when the fault that it may stop with
is one of the program, not a broken expectation of the compiler itself. Here this is shown of
everything that works on operands, names and types.
-/

namespace MiniGo

/-- Stops, if at all, with a fault of the program. -/
structure Compiled.Blameless {α : Type} (compiled : Compiled α) : Prop where
  external : ∀ error, compiled = .error error → error.isInternal = false

namespace Compiled

variable {α β : Type}

@[simp] theorem blameless_pure (value : α) : (pure value : Compiled α).Blameless :=
  ⟨fun _ failed => nomatch failed⟩

@[simp] theorem blameless_fault (cause : Cause) (span : Span) :
    (fault cause span : Compiled α).Blameless ↔ cause.isInternal = false := by
  constructor
  · intro blameless
    exact blameless.external _ rfl
  · intro external
    refine ⟨fun error failed => ?_⟩
    cases failed
    exact external

theorem Blameless.bind {first : Compiled α} {next : α → Compiled β} (blameless : first.Blameless)
    (rest : ∀ value, first = .ok value → (next value).Blameless) : (first >>= next).Blameless := by
  refine ⟨fun error failed => ?_⟩
  cases first with
  | error _ =>
    cases failed
    exact blameless.external error rfl
  | ok value => exact (rest value rfl).external error failed

@[simp] theorem fault_bind (cause : Cause) (span : Span) (next : α → Compiled β) :
    ((fault cause span : Compiled α) >>= next) = fault cause span := rfl

@[simp] theorem fault_map (cause : Cause) (span : Span) (change : α → β) :
    change <$> (fault cause span : Compiled α) = fault cause span := rfl

@[simp] theorem blameless_ite {condition : Prop} [Decidable condition] {first second : Compiled α} :
    (if condition then first else second).Blameless ↔
      (condition → first.Blameless) ∧ (¬ condition → second.Blameless) := by
  split <;> simp_all

end Compiled

open Compiled (Blameless)

namespace Frame

variable (frame : Frame)

theorem declareSymbol_blameless (name : String) (symbol : Symbol) (span : Span) :
    (frame.declareSymbol name symbol span).Blameless := by
  unfold declareSymbol
  split
  · simp
  · split <;> simp [Cause.isInternal, Cause.kind]

theorem declareVar_blameless (name : String) (type : Ty) (span : Span) :
    (frame.declareVar name type span).Blameless := by
  unfold declareVar
  split
  · simp
  · split <;> simp [Cause.isInternal, Cause.kind]

theorem declareVars_blameless (names : List (Ident × Ty)) : (frame.declareVars names).Blameless := by
  induction names generalizing frame with
  | nil => simp [declareVars]
  | cons entry rest ih =>
    exact (frame.declareVar_blameless _ _ _).bind fun _ _ => (ih _).bind fun _ _ => by simp

theorem declareParams_blameless (params : List (Option Ident × Ty)) :
    (frame.declareParams params).Blameless := by
  induction params generalizing frame with
  | nil => simp [declareParams]
  | cons entry rest ih =>
    obtain ⟨_ | ident, type⟩ := entry
    · exact (ih _).bind fun _ _ => by simp
    · exact (frame.declareVar_blameless _ _ _).bind fun _ _ => (ih _).bind fun _ _ => by simp

theorem declareResults_blameless (results : List (Option Ident × Ty)) :
    (frame.declareResults results).Blameless := by
  induction results generalizing frame with
  | nil => simp [declareResults]
  | cons entry rest ih =>
    obtain ⟨name, type⟩ := entry
    have first : (frame.declareResult type name).Blameless := by
      cases name with
      | none => simp [declareResult]
      | some ident =>
        refine (frame.declareVar_blameless _ _ _).bind fun found _ => ?_
        obtain ⟨_ | slot, after⟩ := found <;> simp
    exact first.bind fun _ _ => (ih _).bind fun _ _ => by simp

end Frame

namespace Scope

variable (scope : Scope) (span : Span)

mutual

theorem resolve_blameless (written : TypeExpr) : (scope.resolve span written).Blameless := by
  match written with
  | .named name =>
    unfold Scope.resolve
    split <;> simp [Cause.isInternal, Cause.kind]
  | .slice elem =>
    rw [Scope.resolve]
    exact (resolve_blameless elem).bind fun _ _ => by simp
  | .map key value =>
    rw [Scope.resolve]
    refine (resolve_blameless key).bind fun _ _ => ?_
    split
    · simp [Cause.isInternal, Cause.kind]
    · exact (resolve_blameless value).bind fun _ _ => by simp
  | .chan direction elem =>
    rw [Scope.resolve]
    exact (resolve_blameless elem).bind fun _ _ => by simp
  | .func params results variadic =>
    rw [Scope.resolve]
    exact (resolveParams_blameless variadic params).bind fun _ _ =>
      (resolveFields_blameless results).bind fun _ _ => by simp

theorem resolveParams_blameless (variadic : Bool) (fields : List (Field TypeExpr)) :
    (scope.resolveParams span variadic fields).Blameless := by
  match fields with
  | [] => simp [Scope.resolveParams]
  | [⟨_, type⟩] =>
    rw [Scope.resolveParams]
    exact (resolve_blameless type).bind fun _ _ => by simp
  | ⟨_, type⟩ :: next :: rest =>
    rw [Scope.resolveParams]
    · exact (resolve_blameless type).bind fun _ _ =>
        (resolveParams_blameless variadic (next :: rest)).bind fun _ _ => by simp
    · simp

theorem resolveFields_blameless (fields : List (Field TypeExpr)) :
    (scope.resolveFields span fields).Blameless := by
  match fields with
  | [] => simp [Scope.resolveFields]
  | ⟨_, type⟩ :: rest =>
    rw [Scope.resolveFields]
    exact (resolve_blameless type).bind fun _ _ =>
      (resolveFields_blameless rest).bind fun _ _ => by simp

end

theorem resolveHead_blameless (head : FuncHead) : (scope.resolveHead span head).Blameless :=
  (scope.resolveParams_blameless span _ _).bind fun _ _ =>
    (scope.resolveFields_blameless span _).bind fun _ _ => by simp

theorem typeOperand_blameless (node : Expr) : (scope.typeOperand node).Blameless := by
  unfold Scope.typeOperand
  split
  · exact (scope.resolve_blameless _ _).bind fun _ _ => by simp
  · split <;> simp [Cause.isInternal, Cause.kind]
  · simp [Cause.isInternal, Cause.kind]

theorem callee_blameless (node : Expr) : (scope.callee node).Blameless := by
  unfold Scope.callee
  split
  · split <;> simp
  · exact (scope.resolve_blameless _ _).bind fun _ _ => by simp
  · simp

end Scope

namespace Operand

variable (operand left right : Operand) (op : BinaryOp) (target : Ty) (span : Span)

@[simp] theorem type_blameless : operand.type.Blameless := by
  unfold Operand.type
  split <;> simp [Cause.isInternal, Cause.kind]

@[simp] theorem convertTo_blameless : (operand.convertTo target).Blameless := by
  refine operand.type_blameless.bind fun type _ => ?_
  simp only [Compiled.blameless_ite, Compiled.blameless_pure, implies_true, true_and]
  intro _
  split <;> simp [Cause.isInternal, Cause.kind]

@[simp] theorem declaredAs_blameless (declared : Option Ty) :
    (operand.declaredAs declared).Blameless := by
  cases declared <;> simp [declaredAs]

theorem toCond_blameless {strict : Prop} {ctx : Ctx strict}
    (constant : operand.isConst = true → operand.Typed strict ctx) : operand.toCond.Blameless := by
  refine operand.type_blameless.bind fun type isType => ?_
  rw [type_eq_ok] at isType
  simp only [Compiled.fault_bind, Compiled.blameless_ite, Compiled.blameless_fault]
  refine ⟨fun _ => by simp [Cause.isInternal, Cause.kind], fun isBool => ?_⟩
  obtain rfl : type = .bool := by simpa using isBool
  split
  · simp
  · rename_i value notBool isConst
    have typed := constant (by simp [Operand.isConst, Operand.const?, isConst])
    simp only [Operand.Typed, isConst, isType, List.cons.injEq, and_true, exists_eq_left'] at typed
    cases value with
    | bool value => exact absurd rfl (notBool value)
    | _ => simp [Const.type, Ty.assignableTo, Ty.isNillable] at typed
  · simp

@[simp] theorem ofIdent_blameless (scope : Scope) (ident : Ident) :
    (ofIdent scope ident).Blameless := by
  unfold ofIdent
  split
  · simp [Cause.isInternal, Cause.kind]
  · split <;> simp [Cause.isInternal, Cause.kind]

@[simp] theorem unify_blameless : (unify op left right span).Blameless := by
  refine left.type_blameless.bind fun _ _ => right.type_blameless.bind fun _ _ => ?_
  simp only [Compiled.blameless_ite, Compiled.blameless_pure, Compiled.blameless_fault]
  refine ⟨fun _ => trivial, fun _ => ⟨fun _ => ?_, fun _ => ⟨fun _ => ?_, fun _ => ?_⟩⟩⟩
  · exact (right.convertTo_blameless _).bind fun _ _ => by simp
  · exact (left.convertTo_blameless _).bind fun _ _ => by simp
  · simp [Cause.isInternal, Cause.kind]

@[simp] theorem checkOperator_blameless (type other : Ty) :
    (checkOperator op type other span).Blameless := by
  simp [checkOperator, Cause.isInternal, Cause.kind]

@[simp] theorem binary_blameless : (left.binary op right span).Blameless := by
  refine (unify_blameless ..).bind fun _ _ => (type_blameless _).bind fun _ _ =>
    (type_blameless _).bind fun _ _ => (checkOperator_blameless ..).bind fun _ _ => ?_
  repeat' split
  all_goals simp [Cause.isInternal, Cause.kind]

@[simp] theorem checkLogical_blameless : (checkLogical op operand).Blameless := by
  refine operand.type_blameless.bind fun _ _ => ?_
  simp [Cause.isInternal, Cause.kind]

@[simp] theorem recvElem_blameless : (recvElem target span).Blameless := by
  unfold recvElem
  split <;> simp [Cause.isInternal, Cause.kind]

@[simp] theorem sendElem_blameless : (sendElem target span).Blameless := by
  unfold sendElem
  split <;> simp [Cause.isInternal, Cause.kind]

@[simp] theorem unary_blameless (op : UnaryOp) : (operand.unary op span).Blameless := by
  refine operand.type_blameless.bind fun _ _ => ?_
  simp only [Compiled.blameless_ite, Compiled.blameless_fault]
  refine ⟨fun _ => ?_, fun _ => ⟨fun _ => ?_, fun _ => ⟨fun _ => ?_, fun _ => ?_⟩⟩⟩
  · exact operand.type_blameless.bind fun _ _ => (recvElem_blameless ..).bind fun _ _ => by simp
  · simp [Cause.isInternal, Cause.kind]
  · simp [Cause.isInternal, Cause.kind]
  · split
    · split <;> simp [Cause.isInternal, Cause.kind]
    · simp

@[simp] theorem indexType_blameless : (indexType target span).Blameless := by
  unfold indexType
  split <;> simp [Cause.isInternal, Cause.kind]

@[simp] theorem element_blameless : (element target left right span).Blameless := by
  unfold element
  split <;> simp [Cause.isInternal, Cause.kind]

@[simp] theorem interfaceCode_blameless : (operand.interfaceCode span).Blameless := by
  refine operand.type_blameless.bind fun _ _ => ?_
  simp [Cause.isInternal, Cause.kind]

@[simp] theorem conversion_blameless : (conversion target operand span).Blameless := by
  refine operand.type_blameless.bind fun _ _ => ?_
  simp only [Compiled.blameless_ite, convertTo_blameless, implies_true, true_and]
  refine fun _ => ⟨fun _ => by simp [Cause.isInternal, Cause.kind], fun _ => ?_⟩
  split <;> simp

end Operand

namespace Invoke

variable (signature : Signature) (args : List Operand) (ellipsis : Bool) (span : Span)

@[simp] theorem convertAll_blameless (operands : List Operand) (types : List Ty) :
    (convertAll operands types).Blameless := by
  induction operands generalizing types with
  | nil => simp [convertAll]
  | cons operand operands ih =>
    cases types with
    | nil => simp [convertAll]
    | cons type types =>
      exact (operand.convertTo_blameless type).bind fun _ _ => (ih types).bind fun _ _ => by simp

@[simp] theorem checkAll_blameless (types targets : List Ty) :
    (checkAll span types targets).Blameless := by
  induction types generalizing targets with
  | nil => simp [checkAll]
  | cons type types ih =>
    cases targets with
    | nil => simp [checkAll]
    | cons target targets => simp [checkAll, ih, Cause.isInternal, Cause.kind]

@[simp] theorem separate_blameless (fixed : Nat) :
    (separate signature args ellipsis fixed span).Blameless := by
  unfold separate
  simp only [Compiled.fault_bind, Compiled.blameless_ite, Compiled.blameless_fault]
  refine ⟨fun _ => by simp [Cause.isInternal, Cause.kind], fun _ => ⟨fun _ => ?_, fun _ => ?_⟩⟩
  · simp [Cause.isInternal, Cause.kind]
  · exact (convertAll_blameless _ _).bind fun _ _ => by simp

@[simp] theorem arguments_blameless : (arguments signature args ellipsis span).Blameless := by
  have forwarded (types : List Ty) : (checkForwarded signature types span).Blameless := by
    unfold checkForwarded
    simp [Cause.isInternal, Cause.kind]
  unfold arguments
  dsimp only
  generalize (if ellipsis then signature.params.length else signature.fixed) = fixed
  split
  · simp only [Compiled.blameless_ite, separate_blameless, implies_true, and_true]
    exact fun _ => (forwarded _).bind fun _ _ => by simp
  · simp

@[simp] theorem function_blameless (callee : Operand) :
    (function callee signature args ellipsis span).Blameless :=
  (arguments_blameless ..).bind fun _ _ => by simp

@[simp] theorem signature_blameless (callee : Operand) : (Invoke.signature callee span).Blameless := by
  refine callee.type_blameless.bind fun _ _ => ?_
  split <;> simp [Cause.isInternal, Cause.kind]

end Invoke

namespace Builtin

variable (builtin : Builtin) (ellipsis : Bool) (operands : List Operand) (count : Nat) (span : Span)

@[simp] theorem checkArgument_blameless (first : Option Operand) (operand : Operand) :
    (builtin.checkArgument ellipsis count span first operand).Blameless := by
  unfold checkArgument
  split
  · exact operand.type_blameless.bind fun _ _ => (Operand.sendElem_blameless ..).bind fun _ _ => by simp
  · refine operand.type_blameless.bind fun _ _ => ?_
    split <;> simp [Cause.isInternal, Cause.kind]
  · refine (Operand.type_blameless _).bind fun _ _ => ?_
    split <;> simp
  · refine operand.type_blameless.bind fun _ _ => ?_
    split <;> simp [Cause.isInternal, Cause.kind]
  · refine (Operand.type_blameless _).bind fun _ _ => ?_
    split <;> simp
  · simp
  · simp
  · simp
  · simp
  · refine operand.type_blameless.bind fun _ _ => ?_
    split <;> simp [Cause.isInternal, Cause.kind]
  · refine operand.type_blameless.bind fun _ _ => ?_
    split <;> simp [Cause.isInternal, Cause.kind]

@[simp] theorem checkUse_blameless : (builtin.checkUse ellipsis count span).Blameless := by
  unfold checkUse
  simp only [Compiled.fault_bind, Compiled.blameless_ite]
  refine ⟨fun _ => by simp [Cause.isInternal, Cause.kind], fun _ => ?_⟩
  split <;> simp [Cause.isInternal, Cause.kind]

@[simp] theorem operandTypes_blameless : (operandTypes operands).Blameless := by
  induction operands with
  | nil => simp [operandTypes]
  | cons operand rest ih =>
    exact operand.type_blameless.bind fun _ _ => ih.bind fun _ _ => by simp

@[simp] theorem invoke_blameless : (builtin.invoke operands span).Blameless :=
  (operandTypes_blameless operands).bind fun _ _ => by simp

@[simp] theorem toOperand_blameless : (builtin.toOperand ellipsis operands span).Blameless := by
  unfold toOperand
  split
  · simp
  · simp
  · refine (Operand.type_blameless _).bind fun _ _ => ?_
    split <;> simp
  · exact (invoke_blameless ..).bind fun _ _ => by simp

@[simp] theorem made_blameless (type : Ty) : (made type operands span).Blameless := by
  unfold made
  split
  · split <;> simp [Cause.isInternal, Cause.kind]
  · simp
  · simp
  · simp [Cause.isInternal, Cause.kind]

@[simp] theorem madeType_blameless (scope : Scope) (written : Expr) :
    (madeType scope written count span).Blameless := by
  refine (scope.typeOperand_blameless written).bind fun _ _ => ?_
  split <;> simp [Cause.isInternal, Cause.kind]

end Builtin

namespace Rhs

variable (rhs : Rhs) (operands : List Operand) (targets : List (Option Ty)) (span : Span)

@[simp] theorem ofSingle_blameless (operand : Operand) (count : Nat) :
    (ofSingle operand count span).Blameless := by
  unfold ofSingle
  simp [Cause.isInternal, Cause.kind]

@[simp] theorem types_blameless : rhs.types.Blameless := by
  cases rhs <;> simp [Rhs.types]

theorem checkTargets_blameless (types : List Ty) : (checkTargets span types targets).Blameless := by
  induction types generalizing targets with
  | nil => simp [checkTargets]
  | cons type types ih =>
    cases targets with
    | nil => simp [checkTargets]
    | cons target targets =>
      cases target <;> simp [checkTargets, ih, Cause.isInternal, Cause.kind]

theorem convertTargets_blameless : (convertTargets operands targets).Blameless := by
  induction operands generalizing targets with
  | nil => simp [convertTargets]
  | cons operand operands ih =>
    cases targets with
    | nil => simp [convertTargets]
    | cons target targets =>
      cases target with
      | some target =>
        exact (operand.convertTo_blameless target).bind fun _ _ => (ih _).bind fun _ _ => by simp
      | none =>
        refine operand.type_blameless.bind fun _ _ => ?_
        simp only [Compiled.fault_bind, Compiled.blameless_ite]
        exact ⟨fun _ => by simp [Cause.isInternal, Cause.kind], fun _ => (ih _).bind fun _ _ => by simp⟩

@[simp] theorem toValues_blameless : (rhs.toValues targets span).Blameless := by
  cases rhs with
  | multi operand => exact (checkTargets_blameless ..).bind fun _ _ => by simp
  | each operands => exact (convertTargets_blameless ..).bind fun _ _ => by simp

end Rhs

theorem Definition.addAll_blameless (definition : Definition) (targets : List Expr) (types : List Ty) :
    (definition.addAll targets types).Blameless := by
  induction targets generalizing definition types with
  | nil => simp [Definition.addAll]
  | cons target targets ih =>
    cases types with
    | nil => simp [Definition.addAll]
    | cons type types =>
      have first : (definition.add target type).Blameless := by
        unfold Definition.add
        split
        · simp [Cause.isInternal, Cause.kind]
        · simp only [Compiled.blameless_ite]
          refine ⟨fun _ => by simp [Cause.isInternal, Cause.kind], fun _ => ⟨fun _ => by simp, fun _ =>
            ⟨fun _ => by simp [Cause.isInternal, Cause.kind], fun _ => ?_⟩⟩⟩
          split
          · simp
          · simp [Cause.isInternal, Cause.kind]
          · refine (Frame.declareVar_blameless ..).bind fun _ _ => ?_
            split <;> simp
      exact first.bind fun _ _ => ih _ _

section Assignments

variable (frame : Frame) (operands : List Operand) (declared : Option Ty) (span : Span)

theorem define_blameless (lhs : List Expr) (rhs : Rhs) : (define frame lhs rhs span).Blameless := by
  refine rhs.types_blameless.bind fun _ _ => (Definition.addAll_blameless ..).bind fun _ _ => ?_
  simp only [Compiled.fault_bind, Compiled.blameless_ite]
  exact ⟨fun _ => by simp [Cause.isInternal, Cause.kind], fun _ =>
    (Rhs.toValues_blameless ..).bind fun _ _ => by simp⟩

theorem assign_blameless (places : List Place) (rhs : Rhs) : (assign places rhs span).Blameless :=
  (rhs.toValues_blameless _ span).bind fun _ _ => by simp

theorem compoundType_blameless (op : BinaryOp) (place : Place) :
    (compoundType op place span).Blameless := by
  unfold compoundType
  split
  · simp [Cause.isInternal, Cause.kind]
  · exact (Operand.checkOperator_blameless ..).bind fun _ _ => by simp

theorem update_blameless (op : BinaryOp) (place : Place) (type : Ty) (operand : Operand) :
    (update op place type operand span).Blameless :=
  (operand.convertTo_blameless type).bind fun _ _ => by simp

theorem identPlace_blameless (scope : Scope) (ident : Ident) : (identPlace scope ident).Blameless := by
  unfold identPlace
  split
  · simp
  · split <;> simp [Cause.isInternal, Cause.kind]

theorem elementIndexType_blameless (container : Ty) : (elementIndexType container span).Blameless := by
  unfold elementIndexType
  split <;> simp [Cause.isInternal, Cause.kind]

theorem initSeparate_blameless (count : Nat) :
    (initSeparate declared count operands span).Blameless := by
  have each : (initEach declared operands).Blameless := by
    induction operands with
    | nil => simp [initEach]
    | cons operand rest ih =>
      refine (operand.declaredAs_blameless declared).bind fun _ _ =>
        (Operand.type_blameless _).bind fun _ _ => ?_
      simp only [Compiled.fault_bind, Compiled.blameless_ite]
      exact ⟨fun _ => by simp [Cause.isInternal, Cause.kind], fun _ => ih.bind fun _ _ => by simp⟩
  unfold initSeparate
  simp only [Compiled.fault_bind, Compiled.blameless_ite]
  exact ⟨fun _ => by simp [Cause.isInternal, Cause.kind], fun _ => each.bind fun _ _ => by simp⟩

theorem initValues_blameless (count : Nat) : (initValues declared count operands span).Blameless := by
  unfold initValues
  split
  · split <;> simp [Cause.isInternal, Cause.kind]
  · simp only [Compiled.blameless_ite, initSeparate_blameless, implies_true, and_true]
    intro _
    unfold initMulti
    simp only [Compiled.fault_bind, Compiled.blameless_ite]
    refine ⟨fun _ => by simp [Cause.isInternal, Cause.kind], fun _ => ?_⟩
    split
    · simp
    · exact (Invoke.checkAll_blameless ..).bind fun _ _ => by simp
  · exact initSeparate_blameless ..

theorem declareInit_blameless (names : List Ident) (types : List Ty) (values : Values) :
    (declareInit frame names types values span).Blameless :=
  (frame.declareVars_blameless _).bind fun _ _ => by simp

theorem returnValues_blameless (hops : Nat) (results : List Slot) :
    (returnValues hops results operands span).Blameless := by
  have separate : (returnSeparate results operands span).Blameless := by
    unfold returnSeparate
    simp only [Compiled.fault_bind, Compiled.blameless_ite]
    exact ⟨fun _ => by simp [Cause.isInternal, Cause.kind], fun _ =>
      (Invoke.convertAll_blameless ..).bind fun _ _ => by simp⟩
  refine Blameless.bind ?_ fun _ _ => by simp
  unfold returnAll
  split
  · simp only [Compiled.fault_bind, Compiled.blameless_ite]
    refine ⟨fun _ => ⟨fun _ => by simp [Cause.isInternal, Cause.kind], fun _ => ?_⟩, fun _ => separate⟩
    exact (Invoke.checkAll_blameless ..).bind fun _ _ => by simp
  · exact separate

end Assignments

end MiniGo
