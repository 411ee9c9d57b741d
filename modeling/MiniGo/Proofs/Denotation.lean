import MiniGo.Proofs.Calls
import MiniGo.Proofs.Reference
/-!
Compiled code does what the reference does, one form of expression after the other. An operator or a
conversion of constants becomes a constant, and an integer constant next to a float becomes a float;
nothing of this can be seen when the code runs.
-/

namespace MiniGo

open Reference

variable {call : Caller} {scope : Scope} {env : EnvRef} {span : Span} {node : Expr}

theorem evalValues_each (code : Code) :
    evalValues call env (.each [code]) = one (eval call env code) := by
  simp only [evalValues, evalAll, one, pure_bind]

/-- The code of an operand does what a computation does. An operand of one type has code for one
value. -/
structure Operand.Gives (call : Caller) (env : EnvRef) (operand : Operand)
    (run : Run (List Value)) : Prop where
  values : evalValues call env operand.toValues = run
  single : ∀ values, operand.code = .multi values → operand.types.length ≠ 1

namespace Operand

variable {operand : Operand} {run : Run (List Value)} {type target : Ty} {code : Code}

theorem gives_single (same : run = one (eval call env code)) :
    (single type code span).Gives call env run :=
  ⟨(evalValues_each code).trans same.symm, fun _ other => nomatch other⟩

theorem gives_const {value : Const} (same : run = pure [.const value]) :
    (const value type span).Gives call env run := by
  refine ⟨?_, fun _ other => nomatch other⟩
  rw [same]
  exact evalValues_each _

theorem Gives.toCode (gives : operand.Gives call env run) :
    eval call env operand.toCode = run >>= fun values => pure (values.headD .nil) := by
  obtain ⟨types, code, span⟩ := operand
  rw [← gives.values]
  cases code with
  | const value => exact (evalValues_each _).symm ▸ rfl
  | single code =>
    show eval call env code = evalValues call env (.each [code]) >>= _
    simp only [evalValues_each, one, bind_assoc, pure_bind, List.headD_cons, bind_pure]
  | multi values => simp only [Operand.toCode, Operand.toValues, eval]

theorem evalValues_toValues (single : ∀ values, operand.code ≠ .multi values) :
    evalValues call env operand.toValues = one (eval call env operand.toCode) := by
  obtain ⟨types, code, span⟩ := operand
  cases code with
  | const value => exact evalValues_each _
  | single code => exact evalValues_each _
  | multi values => exact absurd rfl (single values)

theorem Gives.not_multi (gives : operand.Gives call env run) (alone : operand.types = [type])
    (values : Values) : operand.code ≠ .multi values :=
  fun isMulti => gives.single values isMulti (by rw [alone, List.length_singleton])

theorem Gives.one (gives : operand.Gives call env run) (alone : operand.types = [type]) :
    run = one (eval call env operand.toCode) :=
  gives.values.symm.trans (evalValues_toValues (gives.not_multi alone))

theorem static_type (alone : operand.types = [type]) : operand.static.type = type := by
  simp only [Static.type, static, alone, List.headD_cons]

theorem toCode_of_const? {value : Const} (constant : operand.const? = some value) :
    operand.toCode = .const value := by
  unfold const? at constant
  split at constant
  · obtain rfl := Option.some.inj constant
    simp only [toCode, *]
  · cases constant

theorem eq_float_of_assignable {source : Ty} (assignable : source.assignableTo .float = true) :
    source = .float := by
  cases source <;> simp_all [Ty.assignableTo, Ty.isNillable]

/-- An operand that is stored where a type is declared stays as it is, but an integer constant may
become a float. -/
theorem convertTo_eq_ok {result : Operand} (converted : operand.convertTo target = .ok result) :
    ∃ source, operand.types = [source] ∧
      ((source = target ∨ source.assignableTo target = true ∧ target ≠ .float) ∧
          result = { operand with types := [target] } ∨
        source ≠ .float ∧ target = .float ∧ ∃ value, operand.code = .const (.int value) ∧
          result = const (.float (.ofInt value)) .float operand.span) := by
  simp only [convertTo, Compiled.bind_eq_ok, type_eq_ok] at converted
  obtain ⟨source, alone, converted⟩ := converted
  refine ⟨source, alone, ?_⟩
  split at converted
  · rename_i same
    obtain rfl := Except.ok.inj converted
    obtain rfl : source = target := by simpa using same
    exact .inl ⟨.inl rfl, by rw [← alone]⟩
  · rename_i differs
    have differs : source ≠ target := by simpa using differs
    split at converted
    · rename_i value isInt _
      exact .inr ⟨differs, rfl, value, isInt, (Except.ok.inj converted).symm⟩
    · split at converted
      · rename_i assignable
        refine .inl ⟨.inr ⟨assignable, ?_⟩, (Except.ok.inj converted).symm⟩
        rintro rfl
        exact differs (eq_float_of_assignable assignable)
      · cases converted

theorem toCond_eq_ok {cond : Cond} (compiled : operand.toCond = .ok cond) :
    (∃ truth, operand.toCode = .const (.bool truth) ∧ cond = .const truth) ∨
      cond = .code operand.toCode := by
  simp only [toCond, Compiled.bind_eq_ok, type_eq_ok] at compiled
  obtain ⟨type, -, compiled⟩ := compiled
  split at compiled
  · cases compiled
  split at compiled
  · rename_i truth isTruth
    exact .inl ⟨truth, by simp only [toCode, isTruth], (Except.ok.inj compiled).symm⟩
  · cases compiled
  · exact .inr (Except.ok.inj compiled).symm

theorem interfaceCode_eq {subject : Code} (isSubject : operand.interfaceCode span = .ok subject) :
    subject = operand.toCode := by
  simp only [interfaceCode, Compiled.bind_eq_ok] at isSubject
  obtain ⟨type, -, isSubject⟩ := isSubject
  split at isSubject
  · cases isSubject
  · exact (Except.ok.inj isSubject).symm

theorem convertTo_types {result : Operand} (converted : operand.convertTo target = .ok result) :
    result.types = [target] := by
  obtain ⟨source, -, ⟨-, rfl⟩ | ⟨-, rfl, value, -, rfl⟩⟩ := convertTo_eq_ok converted <;> rfl

theorem convertTo_toCode {result : Operand} (converted : operand.convertTo target = .ok result) :
    eval call env result.toCode = operand.static.adjust target <$> eval call env operand.toCode := by
  obtain ⟨source, alone, ⟨assigned, rfl⟩ | ⟨differs, rfl, value, isInt, rfl⟩⟩ :=
    convertTo_eq_ok converted
  · have keeps : operand.static.adjust target = id := by
      funext value
      have known := static_type alone
      rcases assigned with rfl | ⟨-, other⟩
      · simp [Static.adjust, known]
      · simp [Static.adjust, other]
    rw [keeps, id_map]
    rfl
  · have known : operand.static.type ≠ .float := static_type alone ▸ differs
    have constant : operand.static.constant = true := by simp [static, isConst, const?, isInt]
    have code : operand.toCode = .const (.int value) := by simp only [toCode, isInt]
    have changed : operand.static.adjust .float (.int value) = .float (.ofInt value) := by
      simp [Static.adjust, constant, known, Value.convert, Const.convert]
    rw [code]
    simp only [eval, map_pure, changed]
    rfl

end Operand

namespace Static

variable {static other : Static}

theorem beside_id (apart : static.constant = true → static.type = .int → other.type ≠ .float) :
    static.beside other = id := by
  funext value
  simp only [beside, Bool.and_eq_true, beq_iff_eq, id]
  exact if_neg fun ⟨⟨constant, isInt⟩, isFloat⟩ => apart constant isInt isFloat

theorem adjust_id {target : Ty} (other : target ≠ .float) : static.adjust target = id := by
  funext value
  simp [adjust, other]

theorem beside_eq_adjust (isInt : static.type = .int) (isFloat : other.type = .float) :
    static.beside other = static.adjust .float := by
  funext value
  simp [beside, adjust, isInt, isFloat]

end Static

namespace Operand

variable {operand : Operand} {run : Run (List Value)} {type target : Ty} {code : Code}

theorem Gives.convertTo {result : Operand} (gives : operand.Gives call env run)
    (converted : operand.convertTo target = .ok result) :
    result.Gives call env (Reference.one (operand.static.adjust target <$> eval call env
      operand.toCode)) := by
  have single : ∀ values, result.code ≠ .multi values := by
    obtain ⟨source, alone, ⟨-, rfl⟩ | ⟨-, -, value, -, rfl⟩⟩ := convertTo_eq_ok converted
    · exact gives.not_multi alone
    · exact fun values other => nomatch other
  exact ⟨by rw [evalValues_toValues single, convertTo_toCode converted],
    fun values isMulti => absurd isMulti (single values)⟩

/-- The operands of an operator stay as they are, but an integer constant next to a float becomes
one. -/
theorem unify_toCode {op : BinaryOp} {left right first second : Operand}
    (unified : unify op left right span = .ok (first, second)) :
    eval call env first.toCode = left.static.beside right.static <$> eval call env left.toCode ∧
      eval call env second.toCode =
        right.static.beside left.static <$> eval call env right.toCode := by
  simp only [unify, Compiled.bind_eq_ok, type_eq_ok] at unified
  obtain ⟨leftType, leftAlone, rightType, rightAlone, unified⟩ := unified
  have leftKnown := static_type leftAlone
  have rightKnown := static_type rightAlone
  have keep {operand : Operand} {static other : Static} (same : static.beside other = id) :
      eval call env operand.toCode = static.beside other <$> eval call env operand.toCode := by
    rw [same, id_map]
  split at unified
  · rename_i same
    cases unified
    obtain rfl : leftType = rightType := by simpa using same
    refine ⟨keep (Static.beside_id ?_), keep (Static.beside_id ?_)⟩
    · simp +contextual [leftKnown, rightKnown]
    · simp +contextual [leftKnown, rightKnown]
  split at unified
  · rename_i float
    simp only [Bool.and_eq_true, beq_iff_eq] at float
    obtain ⟨⟨rfl, -⟩, rfl⟩ := float
    simp only [Compiled.bind_eq_ok, Compiled.pure_eq_ok] at unified
    obtain ⟨converted, compiled, pairs⟩ := unified
    cases pairs
    refine ⟨keep (Static.beside_id (by simp [leftKnown])), ?_⟩
    rw [Static.beside_eq_adjust rightKnown leftKnown, convertTo_toCode compiled]
  split at unified
  · rename_i float
    simp only [Bool.and_eq_true, beq_iff_eq] at float
    obtain ⟨⟨rfl, -⟩, rfl⟩ := float
    simp only [Compiled.bind_eq_ok, Compiled.pure_eq_ok] at unified
    obtain ⟨converted, compiled, pairs⟩ := unified
    cases pairs
    refine ⟨?_, keep (Static.beside_id (by simp [rightKnown]))⟩
    rw [Static.beside_eq_adjust leftKnown rightKnown, convertTo_toCode compiled]
  split at unified
  · rename_i notRight notLeft _
    simp only [Bool.and_eq_true, beq_iff_eq, not_and] at notRight notLeft
    cases unified
    refine ⟨keep (Static.beside_id ?_), keep (Static.beside_id ?_)⟩
    · rw [leftKnown, rightKnown]
      exact fun constant isInt isFloat => notLeft ⟨isFloat, constant⟩ isInt
    · rw [leftKnown, rightKnown]
      exact fun constant isInt isFloat => notRight ⟨isFloat, constant⟩ isInt
  · cases unified

end Operand

def Expr.Meant (call : Caller) (scope : Scope) (env : EnvRef) (node : Expr) : Prop :=
  ∀ operand, Compile.expr scope node = .ok operand →
    operand.Gives call env (values call scope env node).forget

namespace Expr.Meant

open Compile

variable {operand : Operand} {type : Ty}

theorem static (compiled : expr scope node = .ok operand) :
    Compile.static scope node = operand.static := by
  simp only [Compile.static, compiled]

theorem forget_value (meant : node.Meant call scope env) (compiled : expr scope node = .ok operand) :
    (Noted.value node (values call scope env node)).forget = eval call env operand.toCode := by
  rw [Noted.forget_value, (meant operand compiled).toCode]

theorem ident {ident : Ident} : (Expr.ident ident).Meant call scope env := by
  intro operand compiled
  simp only [expr, Operand.ofIdent] at compiled
  split at compiled
  · cases compiled
  split at compiled <;> try cases compiled
  · rename_i hops slot found
    refine Operand.gives_single ?_
    simp only [values, found, Noted.forget_lift, eval]
  · rename_i hops value type found
    refine Operand.gives_const ?_
    simp only [values, found, Noted.forget_pure]

/-- The reference evaluates both operands of an operator, an integer constant next to a float as a
float. -/
theorem forget_binary {op : BinaryOp} {left right : Expr} {first second first' second' : Operand}
    (plain : op.isLogical = false) (leftMeant : left.Meant call scope env)
    (rightMeant : right.Meant call scope env) (compiledLeft : expr scope left = .ok first)
    (compiledRight : expr scope right = .ok second)
    (unified : Operand.unify op first second span = .ok (first', second')) :
    (values call scope env (.binary op left right span)).forget =
      one (eval call env (.binary op first'.toCode second'.toCode)) := by
  obtain ⟨firstCode, secondCode⟩ := @Operand.unify_toCode call env _ _ _ _ _ _ unified
  simp only [values, plain, Bool.false_eq_true, if_false, Noted.forget_bind, Noted.forget_lift,
    leftMeant.forget_value compiledLeft, rightMeant.forget_value compiledRight,
    static compiledLeft, static compiledRight, eval, firstCode, secondCode, map_eq_pure_bind,
    bind_assoc, pure_bind, one]

theorem binary {op : BinaryOp} {left right : Expr} (plain : op.isLogical = false)
    (leftMeant : left.Meant call scope env) (rightMeant : right.Meant call scope env) :
    (Expr.binary op left right span).Meant call scope env := by
  intro operand compiled
  simp only [expr, plain, Bool.false_eq_true, if_false, Compiled.bind_eq_ok] at compiled
  obtain ⟨first, compiledLeft, second, compiledRight, compiled⟩ := compiled
  simp only [Operand.binary, Compiled.bind_eq_ok] at compiled
  obtain ⟨⟨first', second'⟩, unified, type, -, other, -, ⟨⟩, -, compiled⟩ := compiled
  have reference := forget_binary plain leftMeant rightMeant compiledLeft compiledRight unified
  split at compiled
  · rename_i left right isLeft isRight
    rw [Operand.toCode_of_const? isLeft, Operand.toCode_of_const? isRight, eval_binary_const]
      at reference
    split at compiled
    · rename_i value computed
      obtain rfl := Except.ok.inj compiled
      refine Operand.gives_const ?_
      rw [reference, computed]
      rfl
    · cases compiled
  · obtain rfl := Except.ok.inj compiled
    exact Operand.gives_single reference

theorem logical {op : BinaryOp} {left right : Expr} (logical : op.isLogical = true)
    (leftMeant : left.Meant call scope env) (rightMeant : right.Meant call scope env) :
    (Expr.binary op left right span).Meant call scope env := by
  intro operand compiled
  simp only [expr, logical, if_true, Compiled.bind_eq_ok] at compiled
  obtain ⟨first, compiledLeft, second, compiledRight, compiled⟩ := compiled
  have rightGives := rightMeant second compiledRight
  have reference : (values call scope env (.binary op left right span)).forget = (do
      let first ← eval call env first.toCode
      let truth ← Run.asBool first
      if truth == (op == .or) then pure [.bool truth]
      else one (eval call env second.toCode)) := by
    simp only [values, logical, if_true, Noted.forget_bind, leftMeant.forget_value compiledLeft,
      Noted.forget_lift, apply_ite Noted.forget, Noted.forget_pure,
      rightMeant.forget_value compiledRight, one]
  simp only [Operand.logical, Operand.checkLogical, Compiled.bind_eq_ok, Operand.type_eq_ok] at compiled
  obtain ⟨⟨⟩, -, ⟨⟩, ⟨rightType, alone, checked⟩, cond, decided, compiled⟩ := compiled
  have boolean : second.types = [.bool] := by
    split at checked
    · cases checked
    · rename_i same
      rw [alone]
      simpa using same
  rcases Operand.toCond_eq_ok decided with ⟨truth, code, rfl⟩ | rfl
  · rw [code] at reference
    simp only [eval, pure_bind] at reference
    have known : Run.asBool (.const (.bool truth)) = pure truth := rfl
    rw [known, pure_bind] at reference
    dsimp only at compiled
    split at compiled <;> rename_i stops <;> obtain rfl := Except.ok.inj compiled
    · refine Operand.gives_const ?_
      rw [reference, if_pos stops, eq_of_beq stops]
    · rw [reference, if_neg stops, ← rightGives.one boolean]
      exact rightGives
  · obtain rfl := Except.ok.inj compiled
    refine Operand.gives_single ?_
    rw [reference]
    simp only [eval, one, bind_assoc]
    refine bind_congr fun value => bind_congr fun truth => ?_
    by_cases stops : (truth == (op == .or)) = true
    · rw [if_pos stops, if_pos stops, pure_bind, eq_of_beq stops]
    · rw [if_neg stops, if_neg stops]

theorem forget_unary {op : UnaryOp} {inner : Expr} {given : Operand} (plain : (op == .recv) = false)
    (meant : inner.Meant call scope env) (compiled : expr scope inner = .ok given) :
    (values call scope env (.unary op inner span)).forget =
      one (eval call env (.unary op given.toCode)) := by
  simp only [values, plain, Bool.false_eq_true, if_false, Noted.forget_bind,
    meant.forget_value compiled, Noted.forget_lift, eval, one, bind_assoc]

theorem unary {op : UnaryOp} {inner : Expr} (meant : inner.Meant call scope env) :
    (Expr.unary op inner span).Meant call scope env := by
  intro operand compiled
  simp only [expr, Compiled.bind_eq_ok] at compiled
  obtain ⟨given, compiledInner, compiled⟩ := compiled
  simp only [Operand.unary, Compiled.bind_eq_ok] at compiled
  obtain ⟨type, -, compiled⟩ := compiled
  split at compiled
  · rename_i receives
    simp only [Operand.receive, Compiled.bind_eq_ok, Compiled.pure_eq_ok] at compiled
    obtain ⟨-, -, elem, -, rfl⟩ := compiled
    refine Operand.gives_single ?_
    simp only [values, receives, if_true, Noted.forget_bind, meant.forget_value compiledInner,
      Noted.forget_lift, Noted.forget_pure, eval, one, bind_assoc, pure_bind]
  · rename_i plain
    have reference := @forget_unary call scope env span _ _ _ (by simpa using plain) meant compiledInner
    split at compiled
    · cases compiled
    split at compiled
    · cases compiled
    split at compiled
    · rename_i value isConst
      rw [Operand.toCode_of_const? isConst, eval_unary_const] at reference
      split at compiled
      · rename_i result computed
        obtain rfl := Except.ok.inj compiled
        refine Operand.gives_const ?_
        rw [reference, computed]
        rfl
      · cases compiled
    · obtain rfl := Except.ok.inj compiled
      exact Operand.gives_single reference

theorem index {base index : Expr} (baseMeant : base.Meant call scope env)
    (indexMeant : index.Meant call scope env) :
    (Expr.index base index span).Meant call scope env := by
  intro operand compiled
  simp only [expr, Compiled.bind_eq_ok, Operand.type_eq_ok] at compiled
  obtain ⟨given, compiledBase, container, alone, type, isType, raw, compiledIndex, position,
    converted, compiled⟩ := compiled
  have known : (Compile.static scope base).type = container := by
    rw [static compiledBase, Operand.static_type alone]
  have positionCode := @Operand.convertTo_toCode call env _ _ _ converted
  unfold Operand.element at compiled
  split at compiled
  · obtain rfl := Except.ok.inj isType
    obtain rfl := Except.ok.inj compiled
    refine Operand.gives_single ?_
    rw [Static.adjust_id (by simp), id_map] at positionCode
    simp only [values, known, Noted.forget_bind, indexMeant.forget_value compiledIndex,
      Noted.forget_lift, baseMeant.forget_value compiledBase, eval, one, bind_assoc, positionCode]
  · obtain rfl := Except.ok.inj isType
    obtain rfl := Except.ok.inj compiled
    refine Operand.gives_single ?_
    rw [Static.adjust_id (by simp), id_map] at positionCode
    simp only [values, known, Noted.forget_bind, indexMeant.forget_value compiledIndex,
      Noted.forget_lift, baseMeant.forget_value compiledBase, eval, one, bind_assoc, positionCode]
  · obtain rfl := Except.ok.inj isType
    obtain rfl := Except.ok.inj compiled
    refine Operand.gives_single ?_
    simp only [values, known, Noted.forget_bind, indexMeant.forget_value compiledIndex,
      Noted.forget_lift, baseMeant.forget_value compiledBase, Noted.forget_pure, eval, one,
      bind_assoc, pure_bind, positionCode, map_eq_pure_bind, static compiledIndex]
  · cases compiled

theorem typeAssert {inner : Expr} {written : TypeExpr} (meant : inner.Meant call scope env) :
    (Expr.typeAssert inner written span).Meant call scope env := by
  intro operand compiled
  simp only [expr, Compiled.bind_eq_ok, Compiled.pure_eq_ok] at compiled
  obtain ⟨given, compiledInner, subject, isSubject, target, resolved, rfl⟩ := compiled
  have code := Operand.interfaceCode_eq isSubject
  refine Operand.gives_single ?_
  simp only [values, Noted.forget_bind, meant.forget_value compiledInner, Noted.forget_lift, resolved,
    meaning, pure_bind, apply_ite Noted.forget, Noted.forget_pure, eval, one, bind_assoc, code]
  refine bind_congr fun value => ?_
  split
  · rw [pure_bind]
  · rfl

theorem func {head : FuncHead} {body : Block} : (Expr.func head body span).Meant call scope env := by
  intro operand compiled
  simp only [expr, Compiled.bind_eq_ok, Compiled.pure_eq_ok] at compiled
  obtain ⟨template, compiled, rfl⟩ := compiled
  refine Operand.gives_single ?_
  simp only [forget_values_func compiled, eval]

end Expr.Meant

namespace Compile

variable {check : Option Operand → Operand → Compiled Operand} {first : Option Operand}
  {nodes : List Expr} {found : List Operand} {goal : Operand → Operand → Prop}

theorem operands_forall₂ (keeps : Option Operand → Prop) (holds : keeps first)
    (stays : ∀ first operand, keeps first → keeps (first.or (some operand)))
    (checks : ∀ first raw operand, keeps first → check first raw = .ok operand → goal raw operand)
    (compiled : operands scope check first nodes = .ok found) :
    List.Forall₂ (fun node operand => ∃ raw, expr scope node = .ok raw ∧ goal raw operand)
      nodes found := by
  induction nodes generalizing first found with
  | nil =>
    simp only [operands, Compiled.pure_eq_ok] at compiled
    exact compiled ▸ .nil
  | cons node rest ih =>
    simp only [operands, Compiled.bind_eq_ok, Compiled.pure_eq_ok] at compiled
    obtain ⟨raw, compiledNode, operand, checked, others, compiledRest, rfl⟩ := compiled
    exact .cons ⟨raw, compiledNode, checks _ _ _ holds checked⟩ (ih (stays _ _ holds) compiledRest)

/-- Codes of operands, each as a value of the type at its place. -/
inductive Fit (scope : Scope) : List Ty → List Expr → List Code → Prop
  | nil {targets : List Ty} : Fit scope targets [] []
  | cons {node : Expr} {raw operand : Operand} {target : Ty} {nodes : List Expr} {targets : List Ty}
      {codes : List Code} : expr scope node = .ok raw → raw.convertTo target = .ok operand →
    Fit scope targets nodes codes →
    Fit scope (target :: targets) (node :: nodes) (operand.toCode :: codes)

theorem Fit.of_forall₂ {target : Expr → Ty} (compiled : List.Forall₂ (fun node operand =>
      ∃ raw, expr scope node = .ok raw ∧ raw.convertTo (target node) = .ok operand) nodes found) :
    Fit scope (nodes.map target) nodes (found.map Operand.toCode) := by
  induction compiled with
  | nil => exact .nil
  | cons head _ ih =>
    obtain ⟨raw, compiledNode, converted⟩ := head
    exact .cons compiledNode converted ih

theorem Fit.length_eq {targets : List Ty} {codes : List Code} (fit : Fit scope targets nodes codes) :
    nodes.length = codes.length := by
  induction fit with
  | nil => rfl
  | cons _ _ _ ih => simpa using ih

theorem Fit.forget {targets : List Ty} {codes : List Code} (fit : Fit scope targets nodes codes)
    (meant : ∀ node ∈ nodes, node.Meant call scope env) :
    (arguments call scope env targets nodes).forget = evalAll call env codes := by
  induction fit with
  | nil => simp only [arguments, Noted.forget_pure, evalAll]
  | cons compiled converted _ ih =>
    obtain ⟨first, rest⟩ := List.forall_mem_cons.mp meant
    simp only [arguments, Noted.forget_bind, first.forget_value compiled, List.tail_cons, ih rest,
      Noted.forget_pure, evalAll, Operand.convertTo_toCode converted, List.headD_cons,
      Expr.Meant.static compiled, map_eq_pure_bind, bind_assoc, pure_bind]

end Compile

namespace Expr.Meant

open Compile

variable {operand : Operand} {type : Ty}

theorem sliceLit {elem : TypeExpr} {elems : List Expr}
    (meant : ∀ node ∈ elems, node.Meant call scope env) :
    (Expr.sliceLit elem elems span).Meant call scope env := by
  intro operand compiled
  simp only [expr, Compiled.bind_eq_ok, Compiled.pure_eq_ok] at compiled
  obtain ⟨elem', resolved, items, compiledItems, rfl⟩ := compiled
  have converted : List.Forall₂ (fun node operand => ∃ raw, expr scope node = .ok raw ∧
      raw.convertTo elem' = .ok operand) elems items :=
    operands_forall₂ (fun _ => True) trivial (fun _ _ _ => trivial) (fun _ _ _ _ checked => checked)
      compiledItems
  have fit := @Fit.of_forall₂ scope elems items (fun _ => elem') converted
  refine Operand.gives_single ?_
  simp only [values, resolved, meaning, Noted.forget_bind, Noted.forget_lift, pure_bind,
    fit.forget meant, eval, one, bind_assoc]

theorem entries {key elem : Ty} {ref : MapRef} {contents : List (Expr × Expr)}
    {codes : List (Code × Code)} (meant : ∀ entry ∈ contents,
      entry.1.Meant call scope env ∧ entry.2.Meant call scope env)
    (compiled : mapEntries scope key elem contents = .ok codes) :
    (Reference.entries call scope env key elem ref contents).forget =
      evalEntries call env ref codes := by
  induction contents generalizing codes with
  | nil =>
    simp only [mapEntries, Compiled.pure_eq_ok] at compiled
    simp only [Reference.entries, Noted.forget_pure, ← compiled, evalEntries]
  | cons entry rest ih =>
    obtain ⟨keyNode, valueNode⟩ := entry
    obtain ⟨⟨keyMeant, valueMeant⟩, others⟩ := List.forall_mem_cons.mp meant
    simp only [mapEntries, Compiled.bind_eq_ok, Compiled.pure_eq_ok] at compiled
    obtain ⟨rawKey, compiledKey, keyOperand, convertedKey, rawValue, compiledValue, valueOperand,
      convertedValue, more, compiledRest, rfl⟩ := compiled
    simp only [Reference.entries, Noted.forget_bind, Noted.forget_lift, evalEntries,
      keyMeant.forget_value compiledKey, valueMeant.forget_value compiledValue, ih others compiledRest,
      Operand.convertTo_toCode convertedKey, Operand.convertTo_toCode convertedValue,
      static compiledKey, static compiledValue, map_eq_pure_bind, bind_assoc, pure_bind]

theorem mapLit {key elem : TypeExpr} {contents : List (Expr × Expr)}
    (meant : ∀ entry ∈ contents, entry.1.Meant call scope env ∧ entry.2.Meant call scope env) :
    (Expr.mapLit key elem contents span).Meant call scope env := by
  intro operand compiled
  simp only [expr, Compiled.bind_eq_ok] at compiled
  obtain ⟨keyType, resolvedKey, compiled⟩ := compiled
  split at compiled
  · cases compiled
  simp only [Compiled.bind_eq_ok, Compiled.pure_eq_ok] at compiled
  obtain ⟨elemType, resolvedElem, codes, compiledEntries, rfl⟩ := compiled
  refine Operand.gives_single ?_
  simp only [values, resolvedKey, resolvedElem, meaning, Noted.forget_bind, Noted.forget_lift,
    Noted.forget_pure, pure_bind, entries meant compiledEntries, eval, one, bind_assoc]

theorem conversion {callee : Expr} {args : List Expr} {ellipsis : Bool} {target : Ty}
    (isType : scope.callee callee = .ok (.conversion target))
    (meant : ∀ node ∈ args, node.Meant call scope env) :
    (Expr.call callee args ellipsis span).Meant call scope env := by
  intro operand compiled
  simp only [expr, isType, Compiled.bind_eq_ok] at compiled
  obtain ⟨_, ⟨⟩, compiled⟩ := compiled
  rcases args with _ | ⟨arg, _ | ⟨_, _⟩⟩
  · simp [Compile.conversion] at compiled
  · have argMeant := meant arg (.head _)
    simp only [Compile.conversion, Compiled.bind_eq_ok] at compiled
    obtain ⟨given, compiledArg, compiled⟩ := compiled
    simp only [Operand.conversion, Compiled.bind_eq_ok, Operand.type_eq_ok] at compiled
    obtain ⟨source, alone, compiled⟩ := compiled
    have known := Operand.static_type alone
    have reference : (values call scope env (.call callee [arg] ellipsis span)).forget =
        one ((fun value => if source.assignableTo target then given.static.adjust target value
          else value.convert target) <$> eval call env given.toCode) := by
      simp only [values, isType, converted, Noted.forget_bind, argMeant.forget_value compiledArg,
        static compiledArg, known, apply_ite Noted.forget, Noted.forget_pure, one, bind_assoc,
        pure_bind, map_eq_pure_bind]
      refine bind_congr fun value => ?_
      split <;> rfl
    split at compiled
    · rename_i assignable
      simp only [if_pos assignable] at reference
      rw [reference]
      exact (argMeant given compiledArg).convertTo compiled
    · rename_i differs
      simp only [if_neg differs] at reference
      split at compiled
      · cases compiled
      split at compiled
      · rename_i value isConst
        obtain rfl := Except.ok.inj compiled
        refine Operand.gives_const ?_
        rw [reference, Operand.toCode_of_const? isConst]
        simp only [eval, map_pure, one, pure_bind, Value.convert]
      · obtain rfl := Except.ok.inj compiled
        refine Operand.gives_single ?_
        simp only [reference, eval, map_eq_pure_bind]
  · simp [Compile.conversion] at compiled

theorem make {callee : Expr} {args : List Expr} {ellipsis : Bool}
    (isMake : scope.callee callee = .ok (.builtin .make))
    (meant : ∀ node ∈ args, node.Meant call scope env) :
    (Expr.call callee args ellipsis span).Meant call scope env := by
  intro operand compiled
  simp only [expr, isMake, Compiled.bind_eq_ok] at compiled
  obtain ⟨_, ⟨⟩, compiled⟩ := compiled
  simp only [Compiled.bind_eq_ok, beq_self_eq_true, if_true] at compiled
  obtain ⟨⟨⟩, used, compiled⟩ := compiled
  cases args with
  | nil => cases ellipsis <;> simp [Builtin.checkUse, Builtin.arity?] at used
  | cons written sizes =>
    simp only [Compile.make, Compiled.bind_eq_ok] at compiled
    obtain ⟨type, isType, found, compiledSizes, compiled⟩ := compiled
    have reference : (values call scope env (.call callee (written :: sizes) ellipsis span)).forget =
        (made call scope env type (written :: sizes)).forget := by
      simp only [values, isMake, List.headD_cons, List.tail_cons, isType, meaning, Noted.forget_bind,
        Noted.forget_lift, pure_bind]
    rw [reference]
    cases sizes with
    | nil =>
      obtain rfl : [] = found := by simpa [operands] using compiledSizes
      cases type <;> simp only [Builtin.made, fault_eq_ok, Compiled.pure_eq_ok, List.head?_nil,
        Option.map_none] at compiled
      all_goals
        subst compiled
        refine Operand.gives_single ?_
        simp only [made, Noted.forget_lift, eval]
    | cons size rest =>
      have sizeMeant := meant size (by simp)
      simp only [operands, Compiled.bind_eq_ok, Compiled.pure_eq_ok, Builtin.checkArgument]
        at compiledSizes
      obtain ⟨raw, compiledSize, length, converted, others, -, rfl⟩ := compiledSizes
      have lengthCode := @Operand.convertTo_toCode call env _ _ _ converted
      rw [Static.adjust_id (by simp), id_map] at lengthCode
      cases type <;> simp only [Builtin.made, fault_eq_ok, Compiled.pure_eq_ok, List.head?_cons,
        Option.map_some] at compiled
      all_goals
        subst compiled
        refine Operand.gives_single ?_
        simp only [made, Noted.forget_bind, sizeMeant.forget_value compiledSize, Noted.forget_lift,
          eval, one, bind_assoc, lengthCode]

end Expr.Meant

end MiniGo
