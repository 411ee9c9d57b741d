import MiniGo.Proofs.Flow
/-!
Compiled expressions are typed: every operation on operands keeps the code of an operand and the
types it claims together.
-/

namespace MiniGo

namespace Const

theorem eq_bool {value : Const} (fits : value.type.assignableTo .bool = true) :
    ∃ truth, value = .bool truth := by
  cases value <;> simp_all [type, Ty.assignableTo, Ty.isNillable]

theorem eq_int {value : Const} (fits : value.type.assignableTo .int = true) :
    ∃ number, value = .int number := by
  cases value <;> simp_all [type, Ty.assignableTo, Ty.isNillable]

theorem eq_float {value : Const} (fits : value.type.assignableTo .float = true) :
    ∃ number, value = .float number := by
  cases value <;> simp_all [type, Ty.assignableTo, Ty.isNillable]

theorem eq_str {value : Const} (fits : value.type.assignableTo .string = true) :
    ∃ text, value = .str text := by
  cases value <;> simp_all [type, Ty.assignableTo, Ty.isNillable]

theorem binary_takes {op : BinaryOp} {leftType rightType result : Ty} {left right : Const}
    (takes : op.Takes leftType rightType result)
    (leftFits : left.type.assignableTo leftType = true)
    (rightFits : right.type.assignableTo rightType = true) :
    (∃ value, binary op left right = .ok value ∧ value.type = result) ∨
      binary op left right = .error .divisionByZero := by
  cases takes with
  | equality equality =>
    left
    cases op <;> simp [BinaryOp.isEquality] at equality
    all_goals
      cases left <;> cases right <;>
        simp [binary, intOp, floatOp, strOp, boolOp, pure, Except.pure, type]
  | same equality logical allowed =>
    cases op <;> simp [BinaryOp.isEquality, BinaryOp.isLogical] at equality logical
    all_goals
      cases leftType <;> simp [Operand.allows, Ty.isNumeric] at allowed
      all_goals first
        | obtain ⟨first, rfl⟩ := eq_int leftFits
          obtain ⟨second, rfl⟩ := eq_int rightFits
          by_cases zero : second = 0 <;>
            simp [binary, intOp, zero, pure, Except.pure, throw, throwThe, MonadExceptOf.throw,
              type, BinaryOp.isComparison]
        | obtain ⟨first, rfl⟩ := eq_float leftFits
          obtain ⟨second, rfl⟩ := eq_float rightFits
          simp [binary, floatOp, pure, Except.pure, type, BinaryOp.isComparison]
        | obtain ⟨first, rfl⟩ := eq_str leftFits
          obtain ⟨second, rfl⟩ := eq_str rightFits
          simp [binary, strOp, pure, Except.pure, type, BinaryOp.isComparison]

theorem unary_takes {op : UnaryOp} {operandType : Ty} {operand : Const}
    (takes : op.Takes operandType) (fits : operand.type.assignableTo operandType = true) :
    ∃ value, unary op operand = .ok value ∧ value.type = operandType := by
  cases takes with
  | neg numeric =>
    cases operandType <;> simp [Ty.isNumeric] at numeric
    · obtain ⟨number, rfl⟩ := eq_int fits
      exact ⟨_, rfl, rfl⟩
    · obtain ⟨number, rfl⟩ := eq_float fits
      exact ⟨_, rfl, rfl⟩
  | not =>
    obtain ⟨truth, rfl⟩ := eq_bool fits
    exact ⟨_, rfl, rfl⟩

theorem convert_type {source target : Ty} {operand : Const} (converts : source.Converts target)
    (fits : operand.type.assignableTo source = true) : (operand.convert target).type = target := by
  cases converts with
  | number numeric other =>
    cases source <;> simp [Ty.isNumeric] at numeric
    · obtain ⟨number, rfl⟩ := eq_int fits
      cases target <;> simp_all [Ty.isNumeric, convert, type]
    · obtain ⟨number, rfl⟩ := eq_float fits
      cases target <;> simp_all [Ty.isNumeric, convert, type]
  | codePoint =>
    obtain ⟨number, rfl⟩ := eq_int fits
    rfl

theorem zero_fits (target : Ty) : (zero target).type.assignableTo target = true := by
  cases target <;> simp [zero, type, Ty.assignableTo, Ty.isNillable]

end Const

abbrev AllAssignable (sources targets : List Ty) : Prop :=
  List.Forall₂ (fun source target : Ty => source.assignableTo target = true) sources targets

theorem AllAssignable.refl (types : List Ty) : AllAssignable types types := by
  induction types with
  | nil => exact .nil
  | cons type types ih => exact .cons type.assignableTo_refl ih

theorem AllAssignable.trans {first second third : List Ty} (left : AllAssignable first second)
    (right : AllAssignable second third) : AllAssignable first third := by
  induction left generalizing third with
  | nil => exact right
  | cons head _ ih =>
    cases right with
    | cons head' tail' => exact .cons (Ty.assignableTo_trans head head') (ih tail')

variable {strict : Prop} {ctx : Ctx strict}

theorem CodeFits.assign {code : Code} {source target : Ty} (fits : CodeFits strict ctx code source)
    (assignable : source.assignableTo target = true) : CodeFits strict ctx code target := by
  cases fits with
  | of typed fits => exact .of typed (Ty.assignableTo_trans fits assignable)

theorem CodeTyped.fits {code : Code} {type : Ty} (typed : CodeTyped strict ctx code type) :
    CodeFits strict ctx code type := .of typed type.assignableTo_refl

theorem CodeFits.const {value : Const} {type : Ty} (fits : value.type.assignableTo type = true) :
    CodeFits strict ctx (.const value) type := .of .const fits

namespace Operand

/-- The code of an operand gives values of the types that the operand claims. -/
def Typed (strict : Prop) (ctx : Ctx strict) (operand : Operand) : Prop :=
  match operand.code with
  | .const value => ∃ type, operand.types = [type] ∧ value.type.assignableTo type = true
  | .single code => ∃ type, operand.types = [type] ∧ CodeFits strict ctx code type
  | .multi values => ∃ sources, ValuesTyped strict ctx values sources ∧
      AllAssignable sources operand.types

variable {operand left right : Operand} {type target : Ty} {span : Span}

theorem type_eq_ok : operand.type = .ok type ↔ operand.types = [type] := by
  unfold Operand.type
  split
  · rename_i same
    simp [same]
  · rename_i same
    simp [same]
  · rename_i many first second
    simp only [fault_eq_ok, false_iff]
    intro same
    exact first type same

theorem typed_const {value : Const} (fits : value.type.assignableTo type = true) :
    (const value type span).Typed strict ctx := ⟨type, rfl, fits⟩

theorem typed_single {code : Code} (fits : CodeFits strict ctx code type) :
    (single type code span).Typed strict ctx := ⟨type, rfl, fits⟩

theorem typed_multi {types : List Ty} {values : Values}
    (typed : ValuesTyped strict ctx values types) : (multi types values span).Typed strict ctx :=
  ⟨types, typed, .refl types⟩

theorem Typed.const_fits {value : Const} (typed : operand.Typed strict ctx)
    (constant : operand.const? = some value) (single : operand.types = [type]) :
    value.type.assignableTo type = true := by
  unfold const? at constant
  split at constant
  · rename_i value' same
    simp only [Option.some.injEq] at constant
    subst constant
    simp only [Typed, same, single, List.cons.injEq, and_true] at typed
    obtain ⟨type', rfl, fits⟩ := typed
    exact fits
  · simp at constant

theorem Typed.toCode (typed : operand.Typed strict ctx) (single : operand.types = [type]) :
    CodeFits strict ctx operand.toCode type := by
  unfold Typed at typed
  unfold Operand.toCode
  cases same : operand.code <;> simp only [same] at typed ⊢
  · obtain ⟨type', types, fits⟩ := typed
    obtain rfl : type' = type := by simpa [types] using single
    exact .const fits
  · obtain ⟨type', types, fits⟩ := typed
    obtain rfl : type' = type := by simpa [types] using single
    exact fits
  · obtain ⟨sources, values, assignable⟩ := typed
    rw [single] at assignable
    cases assignable with
    | cons head tail =>
      cases tail
      exact .of (.first values) head

theorem Typed.toValues (typed : operand.Typed strict ctx) :
    ∃ sources, ValuesTyped strict ctx operand.toValues sources ∧
      AllAssignable sources operand.types := by
  unfold Typed at typed
  unfold Operand.toValues
  cases same : operand.code <;> simp only [same] at typed ⊢
  · obtain ⟨type, types, fits⟩ := typed
    exact ⟨[type], .each (.cons (.const fits) .nil), types ▸ .refl _⟩
  · obtain ⟨type, types, fits⟩ := typed
    exact ⟨[type], .each (.cons fits .nil), types ▸ .refl _⟩
  · exact typed

theorem Typed.retype (typed : operand.Typed strict ctx) (single : operand.types = [type])
    (assignable : type.assignableTo target = true) :
    ({ operand with types := [target] } : Operand).Typed strict ctx := by
  unfold Typed at typed ⊢
  split at typed <;> rename_i same <;> simp only [same]
  · obtain ⟨type', types, fits⟩ := typed
    obtain rfl : type' = type := by simpa [types] using single
    exact ⟨target, rfl, Ty.assignableTo_trans fits assignable⟩
  · obtain ⟨type', types, fits⟩ := typed
    obtain rfl : type' = type := by simpa [types] using single
    exact ⟨target, rfl, fits.assign assignable⟩
  · obtain ⟨sources, values, fits⟩ := typed
    rw [single] at fits
    exact ⟨sources, values, fits.trans (.cons assignable .nil)⟩

theorem Typed.convertTo {result : Operand} (typed : operand.Typed strict ctx)
    (converted : operand.convertTo target = .ok result) :
    result.Typed strict ctx ∧ result.types = [target] := by
  simp only [Operand.convertTo, Compiled.bind_eq_ok, type_eq_ok] at converted
  obtain ⟨type, single, converted⟩ := converted
  split at converted
  · rename_i same
    simp only [Compiled.pure_eq_ok] at converted
    obtain rfl := converted
    exact ⟨typed, by simpa [eq_of_beq same] using single⟩
  · split at converted
    · simp only [Compiled.pure_eq_ok] at converted
      subst converted
      exact ⟨typed_const (by simp [Const.type, Ty.assignableTo]), rfl⟩
    · split at converted
      · rename_i assignable
        simp only [Compiled.pure_eq_ok] at converted
        subst converted
        exact ⟨typed.retype single assignable, rfl⟩
      · simp at converted

theorem Typed.convertTo_code {result : Operand} (typed : operand.Typed strict ctx)
    (converted : operand.convertTo target = .ok result) :
    CodeFits strict ctx result.toCode target :=
  (typed.convertTo converted).1.toCode (typed.convertTo converted).2

theorem typed_ofIdent {ident : Ident} {result : Operand}
    (compiled : ofIdent ctx.scope ident = .ok result) : result.Typed strict ctx := by
  unfold ofIdent at compiled
  split at compiled
  · simp at compiled
  · split at compiled <;> simp only [Compiled.pure_eq_ok, fault_eq_ok] at compiled
    · rename_i hops slot found
      subst compiled
      exact typed_single (CodeTyped.load found).fits
    · rename_i hops value type found
      subst compiled
      exact typed_const (ctx.sound.lookup found)

theorem Typed.toCond {cond : Cond} (typed : operand.Typed strict ctx)
    (compiled : operand.toCond = .ok cond) (code : Code) (same : cond = .code code) :
    CodeFits strict ctx code .bool := by
  subst same
  simp only [Operand.toCond, Compiled.bind_eq_ok, type_eq_ok] at compiled
  obtain ⟨type, single, compiled⟩ := compiled
  split at compiled
  · simp at compiled
  · rename_i boolean
    have boolean : type = .bool := by simpa using boolean
    subst boolean
    split at compiled <;> simp at compiled
    subst compiled
    exact typed.toCode single

/-- Two operands after `unify`: they keep their code typed, and agree in their type unless they are
compared. -/
theorem Typed.unify {op : BinaryOp} {results : Operand × Operand}
    (leftTyped : left.Typed strict ctx) (rightTyped : right.Typed strict ctx)
    (unified : Operand.unify op left right span = .ok results) :
    results.1.Typed strict ctx ∧ results.2.Typed strict ctx ∧
      (op.isEquality = false → results.1.types = results.2.types) := by
  simp only [Operand.unify, Compiled.bind_eq_ok, type_eq_ok] at unified
  obtain ⟨leftType, leftSingle, rightType, rightSingle, unified⟩ := unified
  split at unified
  · rename_i same
    simp only [Compiled.pure_eq_ok] at unified
    subst unified
    exact ⟨leftTyped, rightTyped, fun _ => by rw [leftSingle, rightSingle, eq_of_beq same]⟩
  split at unified
  · rename_i float
    simp only [Bool.and_eq_true, beq_iff_eq] at float
    simp only [Compiled.bind_eq_ok, Compiled.pure_eq_ok] at unified
    obtain ⟨converted, compiled, rfl⟩ := unified
    have result := rightTyped.convertTo compiled
    exact ⟨leftTyped, result.1, fun _ => by rw [leftSingle, result.2, float.1.1]⟩
  split at unified
  · rename_i float
    simp only [Bool.and_eq_true, beq_iff_eq] at float
    simp only [Compiled.bind_eq_ok, Compiled.pure_eq_ok] at unified
    obtain ⟨converted, compiled, rfl⟩ := unified
    have result := leftTyped.convertTo compiled
    exact ⟨result.1, rightTyped, fun _ => by rw [rightSingle, result.2, float.1.1]⟩
  split at unified
  · rename_i equality
    simp only [Bool.and_eq_true] at equality
    simp only [Compiled.pure_eq_ok] at unified
    subst unified
    exact ⟨leftTyped, rightTyped, fun other => by simp [equality.1] at other⟩
  · simp at unified

theorem takes_of_allows {op : BinaryOp} {leftType rightType : Ty} (logical : op.isLogical = false)
    (allowed : allows op leftType rightType = true)
    (same : op.isEquality = false → leftType = rightType) :
    op.Takes leftType rightType (if op.isComparison then .bool else leftType) := by
  by_cases equality : op.isEquality = true
  · have comparison : op.isComparison = true := by
      cases op <;> simp_all [BinaryOp.isEquality, BinaryOp.isComparison]
    rw [if_pos comparison]
    exact .equality equality
  · have equality : op.isEquality = false := by simpa using equality
    obtain rfl := same equality
    exact .same equality logical allowed

theorem Typed.binary {op : BinaryOp} {result : Operand} (logical : op.isLogical = false)
    (leftTyped : left.Typed strict ctx) (rightTyped : right.Typed strict ctx)
    (compiled : left.binary op right span = .ok result) : result.Typed strict ctx := by
  simp only [Operand.binary, Compiled.bind_eq_ok] at compiled
  obtain ⟨⟨left, right⟩, unified, type, single, other, single', ⟨⟩, checked, compiled⟩ := compiled
  obtain ⟨leftTyped, rightTyped, agree⟩ := leftTyped.unify rightTyped unified
  simp only [type_eq_ok] at single single'
  have allowed : allows op type other = true := by
    unfold checkOperator at checked
    split at checked
    · assumption
    · simp at checked
  have takes := takes_of_allows logical allowed fun equality => by
    simpa [single, single'] using agree equality
  split at compiled
  · rename_i first second firstSome secondSome
    have found := Const.binary_takes takes (leftTyped.const_fits firstSome single)
      (rightTyped.const_fits secondSome single')
    split at compiled <;> simp only [Compiled.pure_eq_ok, fault_eq_ok] at compiled
    rename_i value computed
    rcases found with ⟨value', same, valueType⟩ | failed
    · obtain rfl : value = value' := by simpa [computed] using same
      subst compiled
      exact typed_const (by rw [valueType]; exact Ty.assignableTo_refl _)
    · simp [computed] at failed
  · simp only [Compiled.pure_eq_ok] at compiled
    subst compiled
    exact typed_single
      (CodeTyped.binary (leftTyped.toCode single) (rightTyped.toCode single') takes).fits

theorem Typed.logical {op : BinaryOp} {result : Operand} (leftTyped : left.Typed strict ctx)
    (rightTyped : right.Typed strict ctx) (compiled : left.logical op right span = .ok result) :
    result.Typed strict ctx := by
  simp only [Operand.logical, Compiled.bind_eq_ok] at compiled
  obtain ⟨⟨⟩, -, ⟨⟩, checked, cond, tested, compiled⟩ := compiled
  split at compiled
  · split at compiled <;> simp only [Compiled.pure_eq_ok] at compiled <;> subst compiled
    · exact typed_const (by simp [Const.type, Ty.assignableTo])
    · exact rightTyped
  · rename_i code
    simp only [Compiled.pure_eq_ok] at compiled
    subst compiled
    simp only [checkLogical, Compiled.bind_eq_ok, type_eq_ok] at checked
    obtain ⟨type, single, checked⟩ := checked
    have boolean : type = .bool := by
      by_contra other
      simp [other] at checked
    subst boolean
    exact typed_single
      (CodeTyped.logical (leftTyped.toCond tested _ rfl) (rightTyped.toCode single)).fits

theorem recvElem_eq_ok {elem : Ty} (compiled : recvElem type span = .ok elem) :
    ∃ direction, type = .chan direction elem := by
  unfold recvElem at compiled
  split at compiled
  · split at compiled <;> simp at compiled
    subst compiled
    exact ⟨_, rfl⟩
  · simp at compiled

theorem sendElem_eq_ok {elem : Ty} (compiled : sendElem type span = .ok elem) :
    ∃ direction, type = .chan direction elem := by
  unfold sendElem at compiled
  split at compiled
  · split at compiled <;> simp at compiled
    subst compiled
    exact ⟨_, rfl⟩
  · simp at compiled

theorem Typed.receive {result : Operand} (typed : operand.Typed strict ctx)
    (compiled : operand.receive span = .ok result) : result.Typed strict ctx := by
  simp only [Operand.receive, Compiled.bind_eq_ok, Compiled.pure_eq_ok, type_eq_ok] at compiled
  obtain ⟨type, single, elem, found, rfl⟩ := compiled
  obtain ⟨direction, rfl⟩ := recvElem_eq_ok found
  exact typed_single (CodeTyped.receive (typed.toCode single)).fits

theorem Typed.unary {op : UnaryOp} {result : Operand} (typed : operand.Typed strict ctx)
    (compiled : operand.unary op span = .ok result) : result.Typed strict ctx := by
  simp only [Operand.unary, Compiled.bind_eq_ok, type_eq_ok] at compiled
  obtain ⟨type, single, compiled⟩ := compiled
  split at compiled
  · exact typed.receive compiled
  split at compiled
  · simp at compiled
  split at compiled
  · simp at compiled
  rename_i notRecv notNeg notNot
  have takes : op.Takes type := by
    cases op with
    | neg => exact .neg (by simpa using notNeg)
    | not =>
      obtain rfl : type = .bool := by simpa using notNot
      exact .not
    | recv => simp at notRecv
  split at compiled
  · rename_i value constant
    obtain ⟨value', computed, valueType⟩ :=
      Const.unary_takes takes (typed.const_fits constant single)
    simp only [computed, Compiled.pure_eq_ok] at compiled
    subst compiled
    exact typed_const (by rw [valueType]; exact Ty.assignableTo_refl _)
  · simp only [Compiled.pure_eq_ok] at compiled
    subst compiled
    exact typed_single (CodeTyped.unary (typed.toCode single) takes).fits

theorem Typed.element {container indexType : Ty} {base index result : Operand}
    (baseTyped : base.Typed strict ctx) (baseSingle : base.types = [container])
    (indexed : Operand.indexType container span = .ok indexType)
    (indexFits : CodeFits strict ctx index.toCode indexType)
    (compiled : Operand.element container base index span = .ok result) :
    result.Typed strict ctx := by
  unfold Operand.element at compiled
  have baseFits := baseTyped.toCode baseSingle
  split at compiled <;> simp only [Compiled.pure_eq_ok, fault_eq_ok] at compiled <;> subst compiled
  · simp only [Operand.indexType, Compiled.pure_eq_ok] at indexed
    subst indexed
    exact typed_single (CodeTyped.sliceIndex baseFits indexFits).fits
  · simp only [Operand.indexType, Compiled.pure_eq_ok] at indexed
    subst indexed
    exact typed_single (CodeTyped.stringIndex baseFits indexFits).fits
  · simp only [Operand.indexType, Compiled.pure_eq_ok] at indexed
    subst indexed
    exact typed_single (CodeTyped.mapIndex baseFits indexFits).fits

theorem Typed.interfaceCode {code : Code} (typed : operand.Typed strict ctx)
    (compiled : operand.interfaceCode span = .ok code) : CodeFits strict ctx code .any := by
  simp only [Operand.interfaceCode, Compiled.bind_eq_ok, type_eq_ok] at compiled
  obtain ⟨type, single, compiled⟩ := compiled
  split at compiled
  · simp at compiled
  · simp only [Compiled.pure_eq_ok] at compiled
    subst compiled
    exact (typed.toCode single).assign type.assignableTo_any

theorem Typed.conversion {result : Operand} (typed : operand.Typed strict ctx)
    (compiled : Operand.conversion target operand span = .ok result) :
    result.Typed strict ctx := by
  simp only [Operand.conversion, Compiled.bind_eq_ok, type_eq_ok] at compiled
  obtain ⟨source, single, compiled⟩ := compiled
  split at compiled
  · exact (typed.convertTo compiled).1
  split at compiled
  · simp at compiled
  rename_i convertible
  have converts : source.Converts target := by
    simp only [Bool.not_eq_true', Bool.not_eq_false, Bool.or_eq_true, Bool.and_eq_true,
      beq_iff_eq] at convertible
    rcases convertible with ⟨numeric, other⟩ | ⟨rfl, rfl⟩
    · exact .number numeric other
    · exact .codePoint
  split at compiled <;> simp only [Compiled.pure_eq_ok] at compiled <;> subst compiled
  · rename_i value constant
    refine typed_const ?_
    rw [Const.convert_type converts (typed.const_fits constant single)]
    exact Ty.assignableTo_refl _
  · exact typed_single (CodeTyped.convert (typed.toCode single) converts).fits

end Operand

end MiniGo
