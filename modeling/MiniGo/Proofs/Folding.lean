import MiniGo.Proofs.Applications
import MiniGo.Proofs.Faults
import MiniGo.Proofs.Operations
/-!
What the compiler computes ahead of time. The compiler rejects an operation on constants just where the
operation fails when it is run. The main statement compares compiled code with the reference.
-/

namespace MiniGo

open Reference

variable {scope : Scope} {span : Span} {node : Expr}

section Rejection

open Compile

def Compiled.Unfolded {α : Type} (compiled : Compiled α) : Prop :=
  ∀ error span, compiled ≠ .error ⟨.failedConstant error, span⟩

namespace Compiled.Unfolded

variable {α β : Type}

theorem ok {value : α} : Unfolded (.ok value) := fun _ _ => nofun

theorem fault {cause : Cause} (other : ∀ error, cause ≠ .failedConstant error) :
    (MiniGo.fault cause span : Compiled α).Unfolded := by
  intro error at_ failed
  cases failed
  exact other error rfl

theorem bind {first : Compiled α} {next : α → Compiled β} (unfolded : first.Unfolded)
    (rest : ∀ value, (next value).Unfolded) : (first >>= next).Unfolded := by
  intro error span failed
  rcases Except.bind_eq_error.mp failed with failed | ⟨value, -, failed⟩
  · exact unfolded error span failed
  · exact rest value error span failed

end Compiled.Unfolded

namespace Operand

variable {operand left right : Operand} {target : Ty} {op : BinaryOp}

theorem type_unfolded : operand.type.Unfolded := by
  unfold type
  split
  · exact .ok
  · exact .fault nofun
  · exact .fault nofun

theorem convertTo_unfolded : (operand.convertTo target).Unfolded := by
  refine .bind type_unfolded fun type => ?_
  split
  · exact .ok
  split
  · exact .ok
  split
  · exact .ok
  · exact .fault nofun

theorem unify_unfolded : (unify op left right span).Unfolded := by
  refine .bind type_unfolded fun leftType => .bind type_unfolded fun rightType => ?_
  split
  · exact .ok
  split
  · exact .bind convertTo_unfolded fun _ => .ok
  split
  · exact .bind convertTo_unfolded fun _ => .ok
  split
  · exact .ok
  · exact .fault nofun

theorem toCond_unfolded : operand.toCond.Unfolded := by
  refine .bind type_unfolded fun type => ?_
  split <;> split
  · exact .bind (.fault nofun) fun _ => .ok
  · exact .ok
  · exact .bind (.fault nofun) fun _ => .fault nofun
  · exact .fault nofun
  · exact .bind (.fault nofun) fun _ => .ok
  · exact .ok

theorem logical_unfolded : (left.logical op right span).Unfolded := by
  have checked {operand : Operand} : (checkLogical op operand).Unfolded := by
    refine .bind type_unfolded fun type => ?_
    split
    · exact .fault nofun
    · exact .ok
  refine .bind checked fun _ => .bind checked fun _ => .bind toCond_unfolded fun cond => ?_
  split
  · split
    · exact .ok
    · exact .ok
  · exact .ok

theorem conversion_unfolded : (conversion target operand span).Unfolded := by
  refine .bind type_unfolded fun type => ?_
  split
  · exact convertTo_unfolded
  split
  · exact .fault nofun
  split
  · exact .ok
  · exact .ok

theorem convertTo_const {result : Operand} (converted : operand.convertTo target = .ok result)
    (constant : operand.isConst = true) : result.isConst = true := by
  obtain ⟨source, -, ⟨-, rfl⟩ | ⟨-, -, value, -, rfl⟩⟩ := convertTo_eq_ok converted
  · exact constant
  · rfl

theorem unify_const {first second : Operand} (unified : unify op left right span = .ok (first, second))
    (leftConst : left.isConst = true) (rightConst : right.isConst = true) :
    first.isConst = true ∧ second.isConst = true := by
  simp only [unify, Compiled.bind_eq_ok] at unified
  obtain ⟨leftType, -, rightType, -, unified⟩ := unified
  split at unified
  · cases unified
    exact ⟨leftConst, rightConst⟩
  split at unified
  · simp only [Compiled.bind_eq_ok, Compiled.pure_eq_ok] at unified
    obtain ⟨converted, compiled, pairs⟩ := unified
    cases pairs
    exact ⟨leftConst, convertTo_const compiled rightConst⟩
  split at unified
  · simp only [Compiled.bind_eq_ok, Compiled.pure_eq_ok] at unified
    obtain ⟨converted, compiled, pairs⟩ := unified
    cases pairs
    exact ⟨convertTo_const compiled leftConst, rightConst⟩
  split at unified
  · cases unified
    exact ⟨leftConst, rightConst⟩
  · cases unified

theorem binary_const {result : Operand} (compiled : left.binary op right span = .ok result)
    (leftConst : left.isConst = true) (rightConst : right.isConst = true) : result.isConst = true := by
  simp only [binary, Compiled.bind_eq_ok] at compiled
  obtain ⟨⟨first, second⟩, unified, type, -, other, -, ⟨⟩, -, compiled⟩ := compiled
  obtain ⟨firstConst, secondConst⟩ := unify_const unified leftConst rightConst
  obtain ⟨a, isFirst⟩ := Option.isSome_iff_exists.mp firstConst
  obtain ⟨b, isSecond⟩ := Option.isSome_iff_exists.mp secondConst
  simp only [isFirst, isSecond] at compiled
  generalize (if op.isComparison = true then Ty.bool else type) = type at compiled
  split at compiled
  · exact Except.ok.inj compiled ▸ rfl
  · cases compiled

theorem binary_rejected {error : RuntimeError} {place : Span}
    (rejected : left.binary op right span = .error ⟨.failedConstant error, place⟩) :
    place = span ∧ ∃ first second a b, unify op left right span = .ok (first, second) ∧
      first.toCode = .const a ∧ second.toCode = .const b ∧ Const.binary op a b = .error error := by
  rcases Except.bind_eq_error.mp rejected with failed | ⟨⟨first, second⟩, unified, rejected⟩
  · exact absurd failed (unify_unfolded _ _)
  rcases Except.bind_eq_error.mp rejected with failed | ⟨type, -, rejected⟩
  · exact absurd failed (type_unfolded _ _)
  rcases Except.bind_eq_error.mp rejected with failed | ⟨other, -, rejected⟩
  · exact absurd failed (type_unfolded _ _)
  rcases Except.bind_eq_error.mp rejected with failed | ⟨⟨⟩, -, rejected⟩
  · unfold checkOperator at failed
    split at failed <;> cases failed
  generalize (if op.isComparison = true then Ty.bool else type) = type at rejected
  split at rejected
  · rename_i a b isFirst isSecond
    split at rejected
    · cases rejected
    · rename_i failed
      cases rejected
      exact ⟨rfl, first, second, a, b, unified, toCode_of_const? isFirst, toCode_of_const? isSecond,
        failed⟩
  · cases rejected

theorem unary_const {op : UnaryOp} {result : Operand} (plain : (op == .recv) = false)
    (compiled : operand.unary op span = .ok result) (constant : operand.isConst = true) :
    result.isConst = true := by
  simp only [unary, plain, Bool.false_eq_true, if_false, Compiled.bind_eq_ok] at compiled
  obtain ⟨type, -, compiled⟩ := compiled
  obtain ⟨value, isConst⟩ := Option.isSome_iff_exists.mp constant
  simp only [isConst] at compiled
  split at compiled
  · cases compiled
  split at compiled
  · cases compiled
  split at compiled
  · exact Except.ok.inj compiled ▸ rfl
  · cases compiled

theorem unary_rejected {op : UnaryOp} {error : RuntimeError} {place : Span}
    (plain : (op == .recv) = false)
    (rejected : operand.unary op span = .error ⟨.failedConstant error, place⟩) :
    place = span ∧ ∃ value, operand.toCode = .const value ∧ Const.unary op value = .error error := by
  rcases Except.bind_eq_error.mp rejected with failed | ⟨type, -, rejected⟩
  · exact absurd failed (type_unfolded _ _)
  simp only [plain, Bool.false_eq_true, if_false] at rejected
  split at rejected
  · cases rejected
  split at rejected
  · cases rejected
  split at rejected
  · rename_i value isConst
    split at rejected
    · cases rejected
    · rename_i failed
      cases rejected
      exact ⟨rfl, value, toCode_of_const? isConst, failed⟩
  · cases rejected

theorem toCond_const {cond : Cond} (compiled : operand.toCond = .ok cond)
    (constant : operand.isConst = true) : ∃ truth, cond = .const truth := by
  simp only [toCond, Compiled.bind_eq_ok] at compiled
  obtain ⟨type, -, compiled⟩ := compiled
  split at compiled
  · cases compiled
  obtain ⟨types, code, span⟩ := operand
  cases code with
  | const value =>
    cases value with
    | bool truth => exact ⟨truth, (Except.ok.inj compiled).symm⟩
    | _ => cases compiled
  | _ => cases constant

theorem logical_const {result : Operand} (compiled : left.logical op right span = .ok result)
    (leftConst : left.isConst = true) (rightConst : right.isConst = true) : result.isConst = true := by
  simp only [logical, Compiled.bind_eq_ok] at compiled
  obtain ⟨⟨⟩, -, ⟨⟩, -, cond, decided, compiled⟩ := compiled
  obtain ⟨truth, rfl⟩ := toCond_const decided leftConst
  dsimp only at compiled
  split at compiled
  · exact Except.ok.inj compiled ▸ rfl
  · exact Except.ok.inj compiled ▸ rightConst

theorem conversion_const {result : Operand} (compiled : conversion target operand span = .ok result)
    (constant : operand.isConst = true) : result.isConst = true := by
  simp only [conversion, Compiled.bind_eq_ok] at compiled
  obtain ⟨type, -, compiled⟩ := compiled
  obtain ⟨value, isConst⟩ := Option.isSome_iff_exists.mp constant
  split at compiled
  · exact convertTo_const compiled constant
  split at compiled
  · cases compiled
  simp only [isConst] at compiled
  exact Except.ok.inj compiled ▸ rfl

end Operand

/-- Operations on constants, which are computed when they are compiled. -/
inductive Expr.Folded (scope : Scope) : Expr → Prop
  | binary {op : BinaryOp} {left right : Expr} {span : Span} {first second : Operand} :
    expr scope left = .ok first → first.isConst = true →
    expr scope right = .ok second → second.isConst = true → Folded scope (.binary op left right span)
  | unary {op : UnaryOp} {inner : Expr} {span : Span} {given : Operand} :
    (op == .recv) = false → expr scope inner = .ok given → given.isConst = true →
    Folded scope (.unary op inner span)
  | conversion {callee arg : Expr} {ellipsis : Bool} {span : Span} {target : Ty} {given : Operand} :
    scope.callee callee = .ok (.conversion target) → expr scope arg = .ok given → given.isConst = true →
    Folded scope (.call callee [arg] ellipsis span)
  | length {callee arg : Expr} {span : Span} {given : Operand} {text : String} :
    scope.callee callee = .ok (.builtin .len) → expr scope arg = .ok given →
    given.const? = some (.str text) → Folded scope (.call callee [arg] false span)

/-- Compiling an expression stops at nothing but an operation on constants that fails. -/
def Compile.Allowed (scope : Scope) (node : Expr) : Prop :=
  ∀ cause span, expr scope node = .error ⟨cause, span⟩ → ∃ error, cause = .failedConstant error

namespace Expr.Folded

theorem length_eq {callee arg : Expr} {given : Operand}
    (isLen : scope.callee callee = .ok (.builtin .len)) (compiled : expr scope arg = .ok given) :
    expr scope (.call callee [arg] false span) = (do
      let operand ← Builtin.checkArgument .len false 1 span none given
      pure (Builtin.length operand span)) := by
  simp only [expr, isLen, operands, compiled]
  show (do
      let operand ← Builtin.checkArgument .len false 1 span none given
      pure [operand]) >>= (fun found => Builtin.toOperand .len false found span) = _
  cases Builtin.checkArgument .len false 1 span none given <;> rfl

theorem const {operand : Operand} (folded : node.Folded scope)
    (compiled : expr scope node = .ok operand) : operand.isConst = true := by
  cases folded with
  | binary compiledLeft leftConst compiledRight rightConst =>
    simp only [expr, compiledLeft, compiledRight] at compiled
    change (if _ then _ else _) = _ at compiled
    split at compiled
    · exact Operand.logical_const compiled leftConst rightConst
    · exact Operand.binary_const compiled leftConst rightConst
  | unary plain compiledInner constant =>
    simp only [expr, compiledInner] at compiled
    exact Operand.unary_const plain compiled constant
  | conversion isType compiledArg constant =>
    simp only [expr, isType, Compile.conversion, compiledArg] at compiled
    exact Operand.conversion_const compiled constant
  | length isLen compiledArg constant =>
    rw [length_eq isLen compiledArg, Compiled.bind_eq_ok] at compiled
    obtain ⟨operand, checked, compiled⟩ := compiled
    simp only [Builtin.checkArgument, Compiled.bind_eq_ok] at checked
    obtain ⟨type, -, checked⟩ := checked
    obtain rfl : _ = operand := by split at checked <;> simp at checked <;> exact checked
    simp only [Builtin.length, constant] at compiled
    exact Except.ok.inj compiled ▸ rfl

theorem rejected {error : RuntimeError} {place : Span} (folded : node.Folded scope)
    (compiled : expr scope node = .error ⟨.failedConstant error, place⟩) :
    place = node.span ∧ ∀ (call : Caller) (env : EnvRef),
      (values call scope env node).forget = Run.fail error := by
  cases folded with
  | binary compiledLeft leftConst compiledRight rightConst =>
    simp only [expr, compiledLeft, compiledRight] at compiled
    change (if _ then _ else _) = _ at compiled
    split at compiled
    · exact absurd compiled (Operand.logical_unfolded _ _)
    · rename_i plain
      obtain ⟨rfl, first, second, a, b, unified, isFirst, isSecond, failed⟩ :=
        Operand.binary_rejected compiled
      refine ⟨rfl, fun call env => ?_⟩
      rw [Meant.forget_binary (by simpa using plain) (meant _) (meant _) compiledLeft compiledRight
        unified,
        isFirst, isSecond, eval_binary_const, failed]
      rfl
  | unary plain compiledInner constant =>
    simp only [expr, compiledInner] at compiled
    obtain ⟨rfl, value, isConst, failed⟩ := Operand.unary_rejected plain compiled
    refine ⟨rfl, fun call env => ?_⟩
    rw [Meant.forget_unary plain (meant _) compiledInner, isConst, eval_unary_const, failed]
    rfl
  | conversion isType compiledArg constant =>
    simp only [expr, isType, Compile.conversion, compiledArg] at compiled
    exact absurd compiled (Operand.conversion_unfolded _ _)
  | length isLen compiledArg constant =>
    rw [length_eq isLen compiledArg] at compiled
    have checked {given : Operand} {place : Span} :
        (Builtin.checkArgument .len false 1 place none given).Unfolded := by
      refine .bind Operand.type_unfolded fun type => ?_
      split <;> first | exact .ok | exact .fault (by rintro _ ⟨⟩)
    exact absurd compiled (Compiled.Unfolded.bind checked (fun _ => .ok) _ _)

end Expr.Folded

end Rejection

theorem Operand.Gives.const {call : Caller} {env : EnvRef} {operand : Operand}
    {run : Run (List Value)} {value : Const} (gives : operand.Gives call env run)
    (isConst : operand.const? = some value) : run = pure [.const value] := by
  rw [← gives.values]
  obtain ⟨types, code, span⟩ := operand
  cases code with
  | const other =>
    obtain rfl := Option.some.inj isConst
    exact evalValues_each _
  | _ => cases isConst

/-- What is computed ahead of time cannot be told from what is computed as it is written: compiled code
has the values, the failures, the calls and the waits of the reference. A constant is this value in
every environment. An operation on constants is rejected just where it fails when it is run, and then it
fails so in every environment. -/
theorem folding_unseen (scope : Scope) (node : Expr) :
    (∀ operand, Compile.expr scope node = .ok operand →
      (∀ (call : Caller) (env : EnvRef),
        evalValues call env operand.toValues = (values call scope env node).forget ∧
        eval call env operand.toCode =
          (values call scope env node).forget >>= fun values => pure (values.headD .nil)) ∧
      ∀ value, operand.const? = some value → ∀ (call : Caller) (env : EnvRef) (world : World),
        eval call env operand.toCode world = .done (.const value) world ∧
        (values call scope env node).forget world = .done [.const value] world) ∧
    (node.Folded scope → Compile.Allowed scope node → ∀ error,
      (Compile.expr scope node = .error ⟨.failedConstant error, node.span⟩ ↔
        ∃ (call : Caller) (env : EnvRef) (world later : World),
          (values call scope env node).forget world = .fail error later) ∧
      (Compile.expr scope node = .error ⟨.failedConstant error, node.span⟩ →
        ∀ (call : Caller) (env : EnvRef) (world : World),
          (values call scope env node).forget world = .fail error world)) := by
  refine ⟨fun operand compiled => ⟨fun call env => ?_, fun value isConst call env world => ?_⟩,
    fun folded allowed error => ?_⟩
  · have gives : operand.Gives call env (values call scope env node).forget :=
      node.meant operand compiled
    exact ⟨gives.values, gives.toCode⟩
  · rw [Operand.toCode_of_const? isConst, (node.meant operand compiled).const isConst]
    exact ⟨rfl, rfl⟩
  · have fails (rejected : Compile.expr scope node = .error ⟨.failedConstant error, node.span⟩)
        (call : Caller) (env : EnvRef) (world : World) :
        (values call scope env node).forget world = .fail error world := by
      rw [(folded.rejected rejected).2 call env]
      rfl
    refine ⟨⟨fun rejected => ?_, fun ⟨call, env, world, later, failed⟩ => ?_⟩, fails⟩
    · exact ⟨fun _ _ => pure [], ⟨0⟩, {}, {}, fails rejected _ _ _⟩
    · match compiled : Compile.expr scope node with
      | .ok operand =>
        obtain ⟨value, isConst⟩ := Option.isSome_iff_exists.mp (folded.const compiled)
        rw [(node.meant operand compiled).const isConst] at failed
        cases failed
      | .error ⟨cause, place⟩ =>
        obtain ⟨other, rfl⟩ := allowed cause place compiled
        obtain ⟨rfl, same⟩ := folded.rejected compiled
        rw [same] at failed
        cases failed
        rfl

/-- `1 / 0` is rejected, and fails in every environment; `true || <-ch` is `true`, and receives
nothing. -/
theorem folding_unseen_constants :
    let ch : Slot := ⟨.object, 0, .chan .both .bool⟩
    let scope : Scope := [{ owned := true, symbols := [("ch", .var ch)] }]
    let quotient : Expr := .binary .div (.int 1 {}) (.int 0 {}) {}
    let decided : Expr := .binary .or (.bool true {}) (.unary .recv (.ident ⟨"ch", {}⟩) {}) {}
    Compile.expr scope quotient = .error ⟨.failedConstant .divisionByZero, {}⟩ ∧
      Compile.expr scope decided = .ok (.const (.bool true) .bool {}) ∧
      ∀ (call : Caller) (env : EnvRef) (world : World),
        (values call scope env quotient).forget world = .fail .divisionByZero world ∧
        (values call scope env decided).forget world = .done [.const (.bool true)] world := by
  intro ch scope quotient decided
  have division : Compile.expr scope quotient = .error ⟨.failedConstant .divisionByZero, {}⟩ := by rfl
  have truth : Compile.expr scope decided = .ok (.const (.bool true) .bool {}) := by rfl
  refine ⟨division, truth, fun call env world => ⟨?_, ?_⟩⟩
  · refine ((folding_unseen scope quotient).2 (.binary rfl rfl rfl rfl) ?_ .divisionByZero).2 division
      call env world
    intro cause span rejected
    rw [division] at rejected
    cases rejected
    exact ⟨_, rfl⟩
  · exact (((folding_unseen scope decided).1 _ truth).2 _ rfl call env world).2

end MiniGo
