import MiniGo.Proofs.Calls
import MiniGo.Proofs.Declarations
/-!
Types and constants take no slots. A constant is typed in every context, whatever scope it was
compiled in, as long as the symbols of that scope are sound.
-/

namespace MiniGo

variable {strict : Prop} {ctx : Ctx strict} {span : Span} {scope outer : Scope}
  {frame : Frame}

structure Declarable (outer : Scope) (frame : Frame) : Prop where
  level : ∃ level : Level, level.frame = frame
  outer : outer.Sound

namespace Declarable

theorem empty (sound : outer.Sound) (owned : Bool) : Declarable outer { owned } :=
  ⟨⟨.empty { owned } rfl rfl rfl, rfl⟩, sound⟩

theorem sound (declarable : Declarable outer frame) : Scope.Sound (frame :: outer) := by
  obtain ⟨level, rfl⟩ := declarable.level
  exact List.forall_mem_cons.mpr ⟨level.sound, declarable.outer⟩

theorem after {grown : Frame} {slots : List Slot} (declarable : Declarable outer frame)
    (declares : Declares frame grown slots) : Declarable outer grown := by
  obtain ⟨level, same⟩ := declarable.level
  obtain ⟨level', sameAfter, -⟩ := declares.level level same
  exact ⟨⟨level', sameAfter⟩, declarable.outer⟩

theorem reframed (declarable : Declarable outer frame) {changed : Frame}
    (owned : changed.owned = frame.owned) (symbols : changed.symbols = frame.symbols)
    (objects : changed.objects = frame.objects) (words : changed.words = frame.words) :
    Declarable outer changed := by
  obtain ⟨level, rfl⟩ := declarable.level
  obtain ⟨level', same, -⟩ := level.exists_reframed _ owned symbols objects words
  exact ⟨⟨level', same⟩, declarable.outer⟩

end Declarable

namespace Operand

variable {left right operand result : Operand} {target : Ty}

theorem convertTo_isConst (compiled : operand.convertTo target = .ok result) :
    result.isConst = operand.isConst := by
  simp only [Operand.convertTo, Compiled.bind_eq_ok] at compiled
  obtain ⟨type, -, compiled⟩ := compiled
  split at compiled
  · simp only [Compiled.pure_eq_ok] at compiled
    rw [compiled]
  · split at compiled
    · rename_i number code _
      simp only [Compiled.pure_eq_ok] at compiled
      subst compiled
      simp [isConst, const?, const, code]
    · split at compiled <;> simp at compiled
      subst compiled
      rfl

theorem unify_isConst {op : BinaryOp} {results : Operand × Operand}
    (compiled : unify op left right span = .ok results) :
    results.1.isConst = left.isConst ∧ results.2.isConst = right.isConst := by
  simp only [unify, Compiled.bind_eq_ok] at compiled
  obtain ⟨leftType, -, rightType, -, compiled⟩ := compiled
  split at compiled
  · simp only [Compiled.pure_eq_ok] at compiled
    subst compiled
    exact ⟨rfl, rfl⟩
  · split at compiled
    · simp only [Compiled.bind_eq_ok, Compiled.pure_eq_ok] at compiled
      obtain ⟨converted, conversion, rfl⟩ := compiled
      exact ⟨rfl, convertTo_isConst conversion⟩
    · split at compiled
      · simp only [Compiled.bind_eq_ok, Compiled.pure_eq_ok] at compiled
        obtain ⟨converted, conversion, rfl⟩ := compiled
        exact ⟨convertTo_isConst conversion, rfl⟩
      · split at compiled <;> simp at compiled
        subst compiled
        exact ⟨rfl, rfl⟩

theorem binary_isConst {op : BinaryOp} (compiled : left.binary op right span = .ok result)
    (constant : result.isConst = true) : left.isConst = true ∧ right.isConst = true := by
  simp only [Operand.binary, Compiled.bind_eq_ok] at compiled
  obtain ⟨results, unified, type, -, other, -, -, -, compiled⟩ := compiled
  obtain ⟨sameLeft, sameRight⟩ := unify_isConst unified
  rw [← sameLeft, ← sameRight]
  split at compiled
  · rename_i first second firstIs secondIs
    simp [isConst, firstIs, secondIs]
  · simp only [Compiled.pure_eq_ok] at compiled
    subst compiled
    simp [isConst, const?, single] at constant

theorem unary_isConst {op : UnaryOp} (compiled : operand.unary op span = .ok result)
    (constant : result.isConst = true) : operand.isConst = true := by
  simp only [Operand.unary, Operand.receive, Compiled.bind_eq_ok] at compiled
  obtain ⟨type, -, compiled⟩ := compiled
  split at compiled
  · simp only [Compiled.bind_eq_ok, Compiled.pure_eq_ok] at compiled
    obtain ⟨_, -, _, -, rfl⟩ := compiled
    simp [isConst, const?, single] at constant
  · split at compiled
    · simp at compiled
    · split at compiled
      · simp at compiled
      · split at compiled
        · rename_i value valueIs
          simp [isConst, valueIs]
        · simp only [Compiled.pure_eq_ok] at compiled
          subst compiled
          simp [isConst, const?, single] at constant

theorem conversion_isConst (compiled : conversion target operand span = .ok result)
    (constant : result.isConst = true) : operand.isConst = true := by
  simp only [conversion, Compiled.bind_eq_ok] at compiled
  obtain ⟨source, -, compiled⟩ := compiled
  split at compiled
  · exact convertTo_isConst compiled ▸ constant
  · split at compiled
    · simp at compiled
    · split at compiled
      · rename_i value valueIs
        simp [isConst, valueIs]
      · simp only [Compiled.pure_eq_ok] at compiled
        subst compiled
        simp [isConst, const?, single] at constant

theorem logical_constant {op : BinaryOp} (compiled : left.logical op right span = .ok result)
    (constant : result.isConst = true)
    (typed : right.isConst = true → right.Typed strict ctx) : result.Typed strict ctx := by
  simp only [Operand.logical, Compiled.bind_eq_ok] at compiled
  obtain ⟨-, -, -, -, cond, -, compiled⟩ := compiled
  split at compiled
  · split at compiled <;> simp only [Compiled.pure_eq_ok] at compiled <;> subst compiled
    · exact typed_const rfl
    · exact typed constant
  · simp only [Compiled.pure_eq_ok] at compiled
    subst compiled
    simp [isConst, const?, single] at constant

end Operand

theorem Builtin.toOperand_constant {builtin : Builtin} {ellipsis : Bool} {operands : List Operand}
    {result : Operand} (compiled : builtin.toOperand ellipsis operands span = .ok result)
    (constant : result.isConst = true) : result.Typed strict ctx := by
  unfold Builtin.toOperand at compiled
  split at compiled
  · rename_i operand _
    simp only [Compiled.pure_eq_ok] at compiled
    subst compiled
    unfold Builtin.length at constant ⊢
    split
    · exact Operand.typed_const rfl
    · rename_i other
      split at constant
      · rename_i text known
        exact absurd known (other text)
      · simp [Operand.isConst, Operand.const?, Operand.single] at constant
  · simp only [Compiled.pure_eq_ok] at compiled
    subst compiled
    simp [Operand.isConst, Operand.const?, Operand.single] at constant
  · simp only [Builtin.appended, Compiled.bind_eq_ok] at compiled
    obtain ⟨type, -, compiled⟩ := compiled
    split at compiled <;> simp only [Compiled.pure_eq_ok] at compiled <;> subst compiled <;>
      simp [Operand.isConst, Operand.const?, Operand.single] at constant
  · simp only [Compiled.bind_eq_ok, Compiled.pure_eq_ok] at compiled
    obtain ⟨invoke, -, rfl⟩ := compiled
    unfold Invoke.toOperand at constant
    split at constant <;>
      simp [Operand.isConst, Operand.const?, Operand.single, Operand.multi] at constant

theorem Builtin.made_isConst {type : Ty} {sizes : List Operand} {result : Operand}
    (compiled : made type sizes span = .ok result) : result.isConst = false := by
  unfold Builtin.made at compiled
  split at compiled
  · split at compiled <;> simp at compiled
    exact compiled ▸ rfl
  · simp only [Compiled.pure_eq_ok] at compiled
    exact compiled ▸ rfl
  · simp only [Compiled.pure_eq_ok] at compiled
    exact compiled ▸ rfl
  · simp at compiled

theorem Invoke.toOperand_isConst (invoke : Invoke) : invoke.toOperand.isConst = false := by
  unfold Invoke.toOperand
  split <;> rfl

namespace Compile

theorem expr_constant (sound : scope.Sound) {operand : Operand} (node : Expr)
    (compiled : expr scope node = .ok operand) (constant : operand.isConst = true) :
    operand.Typed strict ctx := by
  match node with
  | .ident ident =>
    simp only [expr, Operand.ofIdent] at compiled
    split at compiled
    · simp at compiled
    · split at compiled <;> simp at compiled <;> subst compiled
      · simp [Operand.isConst, Operand.const?, Operand.single] at constant
      · rename_i found
        exact Operand.typed_const (sound.lookup found)
  | .int value _ =>
    simp only [expr, Compiled.pure_eq_ok] at compiled
    exact compiled ▸ Operand.typed_const rfl
  | .float value _ =>
    simp only [expr, Compiled.pure_eq_ok] at compiled
    exact compiled ▸ Operand.typed_const rfl
  | .bool value _ =>
    simp only [expr, Compiled.pure_eq_ok] at compiled
    exact compiled ▸ Operand.typed_const rfl
  | .string value _ =>
    simp only [expr, Compiled.pure_eq_ok] at compiled
    exact compiled ▸ Operand.typed_const rfl
  | .binary op left right _ =>
    simp only [expr, Compiled.bind_eq_ok] at compiled
    obtain ⟨first, compiledFirst, second, compiledSecond, compiled⟩ := compiled
    split at compiled
    · exact Operand.logical_constant compiled constant (expr_constant sound right compiledSecond)
    · rename_i plain
      obtain ⟨firstConst, secondConst⟩ := Operand.binary_isConst compiled constant
      exact (expr_constant sound left compiledFirst firstConst).binary (by simpa using plain)
        (expr_constant sound right compiledSecond secondConst) compiled
  | .unary op inner _ =>
    simp only [expr, Compiled.bind_eq_ok] at compiled
    obtain ⟨given, compiledGiven, compiled⟩ := compiled
    exact (expr_constant sound inner compiledGiven
      (Operand.unary_isConst compiled constant)).unary compiled
  | .call callee args ellipsis _ =>
    simp only [expr, Compiled.bind_eq_ok] at compiled
    obtain ⟨kind, -, compiled⟩ := compiled
    cases kind with
    | conversion target =>
      rcases args with _ | ⟨arg, _ | ⟨_, _⟩⟩
      · simp [Compile.conversion] at compiled
      · simp only [Compile.conversion, Compiled.bind_eq_ok] at compiled
        obtain ⟨given, compiledGiven, compiled⟩ := compiled
        exact (expr_constant sound arg compiledGiven
          (Operand.conversion_isConst compiled constant)).conversion compiled
      · simp [Compile.conversion] at compiled
    | builtin builtin =>
      simp only [Compiled.bind_eq_ok] at compiled
      obtain ⟨-, -, compiled⟩ := compiled
      split at compiled
      · cases args with
        | nil =>
          simp only [make] at compiled
          exact Builtin.toOperand_constant compiled constant
        | cons written sizes =>
          simp only [make, Compiled.bind_eq_ok] at compiled
          obtain ⟨type, -, given, -, compiled⟩ := compiled
          simp [Builtin.made_isConst compiled] at constant
      · simp only [Compiled.bind_eq_ok] at compiled
        obtain ⟨given, -, compiled⟩ := compiled
        exact Builtin.toOperand_constant compiled constant
    | function =>
      simp only [Compiled.bind_eq_ok, Compiled.pure_eq_ok] at compiled
      obtain ⟨_, -, _, -, _, -, invoke, -, rfl⟩ := compiled
      simp [invoke.toOperand_isConst] at constant
  | .func head body _ =>
    simp only [expr, Compiled.bind_eq_ok, Compiled.pure_eq_ok] at compiled
    obtain ⟨template, -, rfl⟩ := compiled
    simp [Operand.isConst, Operand.const?, Operand.single] at constant
  | .index base index _ =>
    simp only [expr, Operand.element, Compiled.bind_eq_ok] at compiled
    obtain ⟨_, -, container, -, _, -, _, -, _, -, compiled⟩ := compiled
    split at compiled <;> simp at compiled <;> subst compiled <;>
      simp [Operand.isConst, Operand.const?, Operand.single] at constant
  | .sliceLit elem elems _ =>
    simp only [expr, Compiled.bind_eq_ok, Compiled.pure_eq_ok] at compiled
    obtain ⟨_, -, _, -, rfl⟩ := compiled
    simp [Operand.isConst, Operand.const?, Operand.single] at constant
  | .mapLit key value entries _ =>
    simp only [expr, Compiled.bind_eq_ok] at compiled
    obtain ⟨type, -, compiled⟩ := compiled
    split at compiled
    · simp at compiled
    · simp only [Compiled.bind_eq_ok, Compiled.pure_eq_ok] at compiled
      obtain ⟨_, -, _, -, rfl⟩ := compiled
      simp [Operand.isConst, Operand.const?, Operand.single] at constant
  | .typeAssert inner written _ =>
    simp only [expr, Compiled.bind_eq_ok, Compiled.pure_eq_ok] at compiled
    obtain ⟨_, -, _, -, _, -, rfl⟩ := compiled
    simp [Operand.isConst, Operand.const?, Operand.single] at constant
  | .type written _ =>
    simp [expr] at compiled

theorem constValue_sound {declared : Option Ty} {name : Ident} {operand : Operand} {value : Const}
    {type : Ty} (typed : operand.isConst = true → operand.Typed strict ctx)
    (compiled : constValue declared name operand = .ok (value, type)) :
    value.type.assignableTo type = true := by
  simp only [constValue, Compiled.bind_eq_ok] at compiled
  obtain ⟨converted, conversion, type', typeIs, compiled⟩ := compiled
  split at compiled
  · rename_i found known
    simp only [Compiled.pure_eq_ok, Prod.mk.injEq] at compiled
    obtain ⟨rfl, rfl⟩ := compiled
    have convertedTyped : converted.Typed strict ctx := by
      cases declared with
      | none =>
        simp only [Operand.declaredAs, Compiled.pure_eq_ok] at conversion
        subst conversion
        exact typed (by simp [Operand.isConst, known])
      | some target =>
        have constant := Operand.convertTo_isConst conversion
        have operandConst : operand.isConst = true := constant ▸ by simp [Operand.isConst, known]
        exact ((typed operandConst).convertTo conversion).1
    exact convertedTyped.const_fits known (Operand.type_eq_ok.mp typeIs)
  · simp at compiled

theorem constValues_declares {declared : Option Ty} {names : List Ident} {after : Frame}
    (nodes : List Expr) (declarable : Declarable outer frame)
    (compiled : constValues outer frame declared names nodes = .ok after) :
    Declares frame after [] := by
  induction nodes generalizing frame names with
  | nil =>
    simp only [constValues, Compiled.pure_eq_ok] at compiled
    exact compiled ▸ .refl frame
  | cons node nodes ih =>
    cases names with
    | nil =>
      simp only [constValues, Compiled.pure_eq_ok] at compiled
      exact compiled ▸ .refl frame
    | cons name names =>
      simp only [constValues, Compiled.bind_eq_ok] at compiled
      obtain ⟨operand, compiledNode, ⟨value, type⟩, constant, mid, declared, compiled⟩ := compiled
      have fits := @Compile.constValue_sound False ⟨[], [], .nil⟩ _ _ _ _ _
        (expr_constant declarable.sound node compiledNode) constant
      have first := Frame.declareSymbol_declares (.const value type) fits (by simp)
        declared
      exact first.trans (ih (declarable.after first) compiled)

theorem constSpecs_declares {after : Frame} (specs : List ValueSpec)
    (declarable : Declarable outer frame)
    (compiled : constSpecs outer frame specs = .ok after) : Declares frame after [] := by
  induction specs generalizing frame with
  | nil =>
    simp only [constSpecs, Compiled.pure_eq_ok] at compiled
    exact compiled ▸ .refl frame
  | cons spec specs ih =>
    obtain ⟨names, written, values, span⟩ := spec
    simp only [constSpecs] at compiled
    split at compiled
    · simp at compiled
    · simp only [Compiled.bind_eq_ok] at compiled
      obtain ⟨declared, -, mid, compiledFirst, compiled⟩ := compiled
      have first := constValues_declares values declarable compiledFirst
      exact first.trans (ih (declarable.after first) compiled)

theorem typeSpecs_declares {after : Frame} (specs : List TypeSpec)
    (declarable : Declarable outer frame)
    (compiled : typeSpecs outer frame specs = .ok after) : Declares frame after [] := by
  induction specs generalizing frame with
  | nil =>
    simp only [typeSpecs, Compiled.pure_eq_ok] at compiled
    exact compiled ▸ .refl frame
  | cons spec specs ih =>
    simp only [typeSpecs, Compiled.bind_eq_ok] at compiled
    obtain ⟨type, resolved, mid, declared, compiled⟩ := compiled
    have first := Frame.declareSymbol_declares (.type type)
      (declarable.sound.resolve_keyed resolved) (by simp) declared
    exact first.trans (ih (declarable.after first) compiled)

end Compile

end MiniGo
