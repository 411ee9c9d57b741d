import MiniGo.Proofs.Denotation
/-!
Calls do what the reference does: their arguments are evaluated in order and become values of the types
that the function takes. With this, every expression that compiles does so.
-/

namespace MiniGo

open Reference

variable {call : Caller} {scope : Scope} {env : EnvRef} {span : Span} {node : Expr}

namespace Builtin

variable {builtin : Builtin} {ellipsis : Bool} {count : Nat}

theorem target_target {type : Ty} :
    builtin.target ellipsis (some (builtin.target ellipsis none type)) =
      builtin.target ellipsis (some type) := by
  cases builtin <;> rfl

theorem delete_base {given base : Operand}
    (passed : checkArgument .delete ellipsis count span none given = .ok base) :
    ∃ key elem, base.types = [.map key elem] := by
  simp only [checkArgument, Compiled.bind_eq_ok, Operand.type_eq_ok] at passed
  obtain ⟨type, alone, passed⟩ := passed
  split at passed <;> simp at passed
  exact ⟨_, _, passed ▸ alone⟩

theorem checkArgument_converts {first : Option Operand} {raw operand : Operand}
    (plain : builtin ≠ .make) (checked : ∀ base ∈ first, ∃ given,
      builtin.checkArgument ellipsis count span none given = .ok base)
    (passed : builtin.checkArgument ellipsis count span first raw = .ok operand) :
    ∃ type, raw.types = [type] ∧
      raw.convertTo (builtin.target ellipsis (first.map (·.static.type)) type) = .ok operand := by
  have keep {type : Ty} (alone : raw.types = [type]) (same : raw = operand) :
      raw.convertTo type = .ok operand := by
    simp only [Operand.convertTo, Operand.type, alone]
    exact (if_pos (beq_self_eq_true type)).trans (congrArg Except.ok same)
  have converts {type : Ty} (converted : raw.convertTo type = .ok operand) :
      ∃ source, raw.types = [source] ∧ raw.convertTo type = .ok operand := by
    obtain ⟨source, alone, -⟩ := Operand.convertTo_eq_ok converted
    exact ⟨source, alone, converted⟩
  cases builtin with
  | make => exact absurd rfl plain
  | panic | print | println => exact converts passed
  | close =>
    simp only [checkArgument, Compiled.bind_eq_ok, Compiled.pure_eq_ok, Operand.type_eq_ok] at passed
    obtain ⟨type, alone, -, -, same⟩ := passed
    exact ⟨type, alone, keep alone same⟩
  | len | cap =>
    simp only [checkArgument, Compiled.bind_eq_ok, Operand.type_eq_ok] at passed
    obtain ⟨type, alone, passed⟩ := passed
    split at passed <;> simp at passed <;> exact ⟨_, alone, keep alone passed⟩
  | delete =>
    cases first with
    | none =>
      simp only [checkArgument, Compiled.bind_eq_ok, Operand.type_eq_ok] at passed
      obtain ⟨type, alone, passed⟩ := passed
      split at passed <;> simp at passed
      exact ⟨_, alone, keep alone passed⟩
    | some base =>
      obtain ⟨given, base'⟩ := checked base rfl
      obtain ⟨key, elem, known⟩ := delete_base base'
      simp only [checkArgument, Compiled.bind_eq_ok, Operand.type_eq_ok, known] at passed
      obtain ⟨_, ⟨⟩, passed⟩ := passed
      simp only [Option.map_some, Operand.static_type known]
      exact converts passed
  | append =>
    cases first with
    | none =>
      simp only [checkArgument, Compiled.bind_eq_ok, Operand.type_eq_ok] at passed
      obtain ⟨type, alone, passed⟩ := passed
      split at passed
      · split at passed <;> simp at passed
        exact ⟨_, alone, keep alone passed⟩
      · simp at passed
    | some base =>
      obtain ⟨given, base'⟩ := checked base rfl
      obtain ⟨elem, known⟩ := append_base base'
      simp only [checkArgument, Compiled.bind_eq_ok, Operand.type_eq_ok, known] at passed
      obtain ⟨_, ⟨⟩, passed⟩ := passed
      simp only [Option.map_some, Operand.static_type known]
      exact converts passed

theorem operands_fit {args : List Expr} {found : List Operand} (plain : builtin ≠ .make)
    (compiled : Compile.operands scope (builtin.checkArgument ellipsis count span) none args =
      .ok found) :
    Compile.Fit scope (builtin.targets ellipsis (args.map fun arg => (Compile.static scope arg).type))
        args (found.map Operand.toCode) ∧
      List.Forall₂ (fun type operand => operand.types = [type])
        (builtin.targets ellipsis (args.map fun arg => (Compile.static scope arg).type)) found := by
  cases args with
  | nil =>
    simp only [Compile.operands, Compiled.pure_eq_ok] at compiled
    exact compiled ▸ ⟨.nil, .nil⟩
  | cons node rest =>
    simp only [Compile.operands, Compiled.bind_eq_ok, Compiled.pure_eq_ok, Option.none_or] at compiled
    obtain ⟨raw, compiledNode, base, checked, others, compiledRest, rfl⟩ := compiled
    obtain ⟨type, alone, converted⟩ := checkArgument_converts plain (by simp) checked
    have known : (Compile.static scope node).type = type := by
      rw [Expr.Meant.static compiledNode, Operand.static_type alone]
    rw [Option.map_none] at converted
    have baseTypes := Operand.convertTo_types converted
    have raws : List.Forall₂ (fun node operand => ∃ given, Compile.expr scope node = .ok given ∧
        ∃ type, given.types = [type] ∧
          given.convertTo (builtin.target ellipsis (some base.static.type) type) = .ok operand)
        rest others := by
      refine Compile.operands_forall₂ (· = some base) rfl (fun _ _ same => by simp [same]) ?_ compiledRest
      rintro _ given operand rfl passed
      exact checkArgument_converts plain (by simpa using ⟨raw, checked⟩) passed
    have each : List.Forall₂ (fun node operand => ∃ given, Compile.expr scope node = .ok given ∧
        given.convertTo (builtin.target ellipsis (some type) (Compile.static scope node).type) =
          .ok operand) rest others := by
      refine raws.imp ?_
      rintro node operand ⟨given, compiledNode, other, alone, converted⟩
      rw [Expr.Meant.static compiledNode, Operand.static_type alone]
      rw [Operand.static_type baseTypes, target_target] at converted
      exact ⟨given, compiledNode, converted⟩
    simp only [List.map_cons, targets, known, List.map_map]
    refine ⟨.cons compiledNode converted (.of_forall₂ each), .cons baseTypes ?_⟩
    refine List.forall₂_map_left_iff.mpr (each.imp ?_)
    rintro node operand ⟨given, -, converted⟩
    exact Operand.convertTo_types converted

theorem operandTypes_eq {types params : List Ty} {found : List Operand}
    (known : List.Forall₂ (fun type operand => operand.types = [type]) types found)
    (compiled : operandTypes found = .ok params) : params = types := by
  induction known generalizing params with
  | nil =>
    simp only [operandTypes, Compiled.pure_eq_ok] at compiled
    exact compiled.symm
  | cons alone _ ih =>
    simp only [operandTypes, Compiled.bind_eq_ok, Compiled.pure_eq_ok, Operand.type_eq_ok, alone]
      at compiled
    obtain ⟨_, ⟨⟩, rest, compiledRest, rfl⟩ := compiled
    rw [ih compiledRest]

theorem length_gives {operand : Operand} :
    (length operand span).Gives call env (one (eval call env (.length operand.toCode))) := by
  unfold length
  split
  · rename_i text isText
    refine Operand.gives_const ?_
    rw [Operand.toCode_of_const? isText]
    rfl
  · exact Operand.gives_single rfl

theorem spread_alone {args : List Expr} {found : List Operand}
    (compiled : Compile.operands scope (checkArgument .append true args.length span) none args =
      .ok found) (some : args ≠ []) : args.length = 2 := by
  cases args with
  | nil => exact absurd rfl some
  | cons node rest =>
    simp only [Compile.operands, Compiled.bind_eq_ok] at compiled
    obtain ⟨raw, -, base, checked, -⟩ := compiled
    simp only [checkArgument, Compiled.bind_eq_ok] at checked
    obtain ⟨type, -, checked⟩ := checked
    split at checked
    · split at checked <;> simp_all
    · simp at checked

theorem appended_gives {types : List Ty} {base operand : Operand} {extra : List Operand}
    (known : List.Forall₂ (fun type operand => operand.types = [type]) types (base :: extra))
    (spread : ellipsis = true → extra.length = 1)
    (compiled : appended ellipsis base extra span = .ok operand) :
    operand.Gives call env (evalAll call env ((base :: extra).map Operand.toCode) >>=
      Reference.builtin call env .append ellipsis types) := by
  cases known with
  | cons alone _ =>
    rename_i type types _
    simp only [appended, Compiled.bind_eq_ok, Operand.type_eq_ok, alone] at compiled
    obtain ⟨_, ⟨⟩, compiled⟩ := compiled
    cases ellipsis with
    | true =>
      obtain ⟨slice, rfl⟩ := List.length_eq_one_iff.mp (spread rfl)
      obtain rfl := Except.ok.inj compiled
      refine Operand.gives_single ?_
      simp only [List.map_cons, List.map_nil, evalAll, Reference.builtin, bind_assoc, pure_bind, if_true,
        List.headD_cons, eval, evalValues, one]
    | false =>
      obtain rfl := Except.ok.inj compiled
      refine Operand.gives_single ?_
      simp only [List.map_cons, evalAll, Reference.builtin, bind_assoc, pure_bind, Bool.false_eq_true,
        if_false, List.headD_cons, eval, evalValues, one]

theorem toOperand_gives {types : List Ty} {found : List Operand} {operand : Operand}
    (used : builtin.checkUse ellipsis found.length span = .ok ())
    (known : List.Forall₂ (fun type operand => operand.types = [type]) types found)
    (spread : builtin = .append → ellipsis = true → found.length = 2)
    (compiled : builtin.toOperand ellipsis found span = .ok operand) :
    operand.Gives call env (evalAll call env (found.map Operand.toCode) >>=
      Reference.builtin call env builtin ellipsis types) := by
  unfold toOperand at compiled
  split at compiled
  · rename_i argument rest
    obtain rfl : rest = [] := by simpa using checkUse_count used rfl
    obtain rfl := Except.ok.inj compiled
    simpa only [List.map_cons, List.map_nil, evalAll, bind_assoc, pure_bind, Reference.builtin,
      eval, one] using
      @length_gives call env _ argument
  · rename_i argument rest
    obtain rfl : rest = [] := by simpa using checkUse_count used rfl
    obtain rfl := Except.ok.inj compiled
    refine Operand.gives_single ?_
    simp only [List.map_cons, List.map_nil, evalAll, bind_assoc, pure_bind, Reference.builtin, eval, one]
  · exact appended_gives known (by simpa using spread rfl) compiled
  · rename_i notLen notCap notAppend
    simp only [Compiled.bind_eq_ok, Compiled.pure_eq_ok, invoke] at compiled
    obtain ⟨_, ⟨params, paramTypes, rfl⟩, rfl⟩ := compiled
    obtain rfl := operandTypes_eq known paramTypes
    have plain : builtin ≠ .len ∧ builtin ≠ .cap ∧ builtin ≠ .append := by
      cases found with
      | nil =>
        refine ⟨?_, ?_, ?_⟩ <;> rintro rfl
        · cases checkUse_count used rfl
        · cases checkUse_count used rfl
        · simp [checkUse, arity?] at used
      | cons first rest =>
        exact ⟨fun same => notLen first rest same rfl, fun same => notCap first rest same rfl,
          fun same => notAppend first rest same rfl⟩
    have reference : ∀ args, Reference.builtin call env builtin ellipsis params args = (do
        let thread ← Run.read (·.threadOf env)
        call thread ⟨.func ⟨⟨params, [], false⟩, .builtin builtin⟩, args, false⟩) := by
      cases builtin <;> first | exact fun _ => rfl | simp at plain
    refine ⟨?_, fun values _ => by simp [Invoke.toOperand, Operand.multi]⟩
    simp only [Invoke.toOperand, Operand.multi, Operand.toValues, evalValues, eval, pure_bind,
      funext reference]

end Builtin

namespace Compile

open Invoke

theorem Fit.of_convertAll {nodes : List Expr} {found : List Operand} {targets : List Ty}
    {codes : List Code} (compiled : List.Forall₂ (fun node operand => expr scope node = .ok operand)
      nodes found) (length : targets.length = found.length)
    (converted : convertAll found targets = .ok codes) : Fit scope targets nodes codes := by
  induction compiled generalizing targets codes with
  | nil =>
    obtain rfl : targets = [] := by simpa using length
    simp only [convertAll, Compiled.pure_eq_ok] at converted
    exact converted ▸ .nil
  | cons first _ ih =>
    obtain ⟨target, targets, rfl⟩ := List.exists_cons_of_length_eq_add_one length
    simp only [convertAll, Compiled.bind_eq_ok, Compiled.pure_eq_ok] at converted
    obtain ⟨operand, compiledFirst, others, compiledRest, rfl⟩ := converted
    exact .cons first compiledFirst (ih (by simpa using length) compiledRest)

theorem operands_unchecked {nodes : List Expr} {found : List Operand} {first : Option Operand}
    (compiled : operands scope (fun _ => pure) first nodes = .ok found) :
    List.Forall₂ (fun node operand => expr scope node = .ok operand) nodes found := by
  have raws : List.Forall₂ (fun node operand => ∃ raw, expr scope node = .ok raw ∧ raw = operand)
      nodes found :=
    operands_forall₂ (fun _ => True) trivial (fun _ _ _ => trivial)
      (fun _ raw operand _ checked => Except.ok.inj checked) compiled
  refine raws.imp ?_
  rintro node operand ⟨_, compiled, rfl⟩
  exact compiled

theorem separate_eq_ok {signature : Signature} {found : List Operand} {ellipsis : Bool} {fixed : Nat}
    {values : Values} (separated : separate signature found ellipsis fixed span = .ok values) :
    fixed ≤ found.length ∧ ∃ codes, values = .each codes ∧
      convertAll found (argumentTypes signature fixed found.length) = .ok codes := by
  unfold separate at separated
  dsimp only at separated
  split at separated
  · simp at separated
  by_cases fits : if signature.variadic && !ellipsis then fixed ≤ found.length
    else found.length = fixed
  case neg =>
    rw [if_pos fits] at separated
    simp at separated
  rw [if_neg (not_not.mpr fits)] at separated
  simp only [Compiled.bind_eq_ok, Compiled.pure_eq_ok] at separated
  obtain ⟨codes, converted, rfl⟩ := separated
  refine ⟨?_, codes, rfl, converted⟩
  split at fits <;> omega

theorem separate_forget {signature : Signature} {args : List Expr} {found : List Operand}
    {ellipsis : Bool} {values : Values} (meant : ∀ node ∈ args, node.Meant call scope env)
    (compiled : List.Forall₂ (fun node operand => expr scope node = .ok operand) args found)
    (separated : separate signature found ellipsis
      (if ellipsis then signature.params.length else signature.fixed) span = .ok values) :
    (Reference.arguments call scope env (signature.targets ellipsis args.length) args).forget =
      evalValues call env values := by
  obtain ⟨enough, codes, rfl, converted⟩ := separate_eq_ok separated
  have inside : (if ellipsis then signature.params.length else signature.fixed) ≤
      signature.params.length := by
    split
    · exact Nat.le_refl _
    · exact fixed_le signature
  have length := argumentTypes_length inside enough
  rw [Signature.targets, compiled.length_eq]
  exact (Fit.of_convertAll compiled length converted).forget meant

theorem arguments_forget {signature : Signature} {args : List Expr} {found : List Operand}
    {ellipsis : Bool} {codes : Values} (meant : ∀ node ∈ args, node.Meant call scope env)
    (compiled : List.Forall₂ (fun node operand => expr scope node = .ok operand) args found)
    (checked : Invoke.arguments signature found ellipsis span = .ok codes) :
    (if forwards scope ellipsis args then forwarded call scope env args
      else Reference.arguments call scope env (signature.targets ellipsis args.length) args).forget =
      evalValues call env codes := by
  unfold Invoke.arguments at checked
  dsimp only at checked
  split at checked
  · rename_i single
    obtain ⟨node, rest, compiledNode, none, rfl⟩ := List.forall₂_cons_right_iff.mp compiled
    cases none
    have same : forwards scope ellipsis [node] = (decide (1 < single.arity) && !ellipsis) := by
      simp only [forwards, Expr.Meant.static compiledNode]
      exact Bool.and_comm _ _
    split at checked
    · rename_i several
      simp only [Compiled.bind_eq_ok, Compiled.pure_eq_ok] at checked
      obtain ⟨⟨⟩, -, rfl⟩ := checked
      rw [if_pos (by simpa only [same] using several)]
      simp only [forwarded, Noted.forget_operand]
      exact (meant node (.head _) _ compiledNode).values.symm
    · rename_i notSeveral
      rw [if_neg (by simpa only [same] using notSeveral)]
      exact separate_forget meant compiled checked
  · rename_i many
    have separate : ¬ forwards scope ellipsis args := by
      unfold forwards
      split
      · cases compiled with
        | cons first rest =>
          cases rest
          exact absurd rfl (many _)
      · exact Bool.false_ne_true
    rw [if_neg separate]
    exact separate_forget meant compiled checked

end Compile

theorem Invoke.toOperand_gives {invoke : Invoke} :
    invoke.toOperand.Gives call env (Reference.results invoke.results <$>
      evalValues call env (.call invoke.call.callee invoke.call.args invoke.call.spread)) := by
  unfold Invoke.toOperand
  dsimp only
  split
  · rename_i type isOne
    refine Operand.gives_single ?_
    simp only [isOne, Reference.results, eval, one, bind_assoc, pure_bind, map_eq_pure_bind]
  · rename_i notOne
    have all : Reference.results invoke.results = id := by
      funext values
      unfold Reference.results
      split
      · rename_i type isOne
        exact absurd isOne (notOne type)
      · rfl
    rw [all, id_map]
    refine ⟨rfl, fun _ _ one => ?_⟩
    obtain ⟨type, isOne⟩ := List.length_eq_one_iff.mp one
    exact notOne type isOne

namespace Expr.Meant

open Compile

variable {callee : Expr} {args : List Expr} {ellipsis : Bool}

theorem builtin {function : Builtin} (isBuiltin : scope.callee callee = .ok (.builtin function))
    (plain : function ≠ .make) (meant : ∀ node ∈ args, node.Meant call scope env) :
    (Expr.call callee args ellipsis span).Meant call scope env := by
  intro operand compiled
  simp only [expr, isBuiltin, Compiled.bind_eq_ok] at compiled
  obtain ⟨_, ⟨⟩, compiled⟩ := compiled
  simp only [Compiled.bind_eq_ok, beq_eq_false_iff_ne.mpr plain, Bool.false_eq_true, if_false]
    at compiled
  obtain ⟨⟨⟩, used, found, compiledArgs, compiled⟩ := compiled
  obtain ⟨fit, known⟩ := Builtin.operands_fit plain compiledArgs
  have count : found.length = args.length := by
    rw [← List.length_map Operand.toCode]
    exact fit.length_eq.symm
  have gives := @Builtin.toOperand_gives call env span _ _ _ _ _ (count ▸ used) known
    (fun isAppend spread => by
      subst isAppend spread
      rw [count]
      refine Builtin.spread_alone compiledArgs ?_
      rintro rfl
      simp [Builtin.checkUse, Builtin.arity?] at used) compiled
  have reference : (values call scope env (.call callee args ellipsis span)).forget =
      evalAll call env (found.map Operand.toCode) >>= Reference.builtin call env function ellipsis
        (function.targets ellipsis (args.map fun arg => (Compile.static scope arg).type)) := by
    cases function with
    | make => exact absurd rfl plain
    | _ => simp only [values, isBuiltin, Noted.forget_bind, Noted.forget_lift, fit.forget meant]
  exact reference ▸ gives

theorem function (isFunction : scope.callee callee = .ok .function)
    (calleeMeant : callee.Meant call scope env) (meant : ∀ node ∈ args, node.Meant call scope env) :
    (Expr.call callee args ellipsis span).Meant call scope env := by
  intro operand compiled
  simp only [expr, isFunction, Compiled.bind_eq_ok] at compiled
  obtain ⟨_, ⟨⟩, compiled⟩ := compiled
  simp only [Compiled.bind_eq_ok, Compiled.pure_eq_ok] at compiled
  obtain ⟨target, compiledCallee, signature, isSignature, found, compiledArgs, invoke, compiled, rfl⟩ :=
    compiled
  have known : (Compile.static scope callee).type = signature.toTy := by
    rw [static compiledCallee, Operand.static_type (Invoke.signature_eq_ok isSignature)]
  simp only [Invoke.function, Compiled.bind_eq_ok, Compiled.pure_eq_ok] at compiled
  obtain ⟨codes, checked, rfl⟩ := compiled
  have given := arguments_forget meant (operands_unchecked compiledArgs) checked
  have reference : (values call scope env (.call callee args ellipsis span)).forget =
      Reference.results signature.results <$>
        evalValues call env (.call target.toCode codes ellipsis) := by
    simp only [values, isFunction, known, Signature.toTy, Noted.forget_bind, Noted.forget_lift,
      Noted.forget_pure, calleeMeant.forget_value compiledCallee, given, evalValues, map_eq_pure_bind,
      bind_assoc]
  rw [reference]
  exact Invoke.toOperand_gives

end Expr.Meant

mutual

theorem Expr.meant : ∀ node : Expr, node.Meant call scope env
  | .ident _ => .ident
  | .int _ _ | .float _ _ | .bool _ _ | .string _ _ => by
    intro operand compiled
    simp only [Compile.expr, Compiled.pure_eq_ok] at compiled
    subst compiled
    refine Operand.gives_const ?_
    simp only [values, Noted.forget_pure]
  | .binary op left right _ =>
    match logical : op.isLogical with
    | true => .logical logical left.meant right.meant
    | false => .binary logical left.meant right.meant
  | .unary _ operand _ => .unary operand.meant
  | .call callee args _ _ => by
    have meant := Expr.all_meant args
    intro operand compiled
    match isCallee : scope.callee callee with
    | .error _ => simp [Compile.expr, isCallee, Compiled.bind_eq_ok] at compiled
    | .ok (.conversion _) => exact Expr.Meant.conversion isCallee meant operand compiled
    | .ok .function => exact Expr.Meant.function isCallee callee.meant meant operand compiled
    | .ok (.builtin function) =>
      by_cases isMake : function = .make
      · exact Expr.Meant.make (isMake ▸ isCallee) meant operand compiled
      · exact Expr.Meant.builtin isCallee isMake meant operand compiled
  | .func _ _ _ => .func
  | .index base position _ => .index base.meant position.meant
  | .sliceLit _ elems _ => .sliceLit (Expr.all_meant elems)
  | .mapLit _ _ contents _ => .mapLit (Expr.entries_meant contents)
  | .typeAssert operand _ _ => .typeAssert operand.meant
  | .type _ _ => by
    intro operand compiled
    simp [Compile.expr, Compiled.bind_eq_ok] at compiled

theorem Expr.all_meant : ∀ nodes : List Expr, ∀ node ∈ nodes, node.Meant call scope env
  | [] => List.forall_mem_nil _
  | first :: rest => List.forall_mem_cons.mpr ⟨first.meant, Expr.all_meant rest⟩

theorem Expr.entries_meant : ∀ contents : List (Expr × Expr), ∀ entry ∈ contents,
    entry.1.Meant call scope env ∧ entry.2.Meant call scope env
  | [] => List.forall_mem_nil _
  | (key, value) :: rest =>
    List.forall_mem_cons.mpr ⟨⟨key.meant, value.meant⟩, Expr.entries_meant rest⟩

end

namespace Compile

theorem commaOk_meant {operand : Operand} (compiled : commaOk scope node = .ok (some operand)) :
    evalValues call env operand.toValues = (pair call scope env node).forget := by
  unfold commaOk at compiled
  split at compiled
  · rename_i base position span
    simp only [Compiled.bind_eq_ok, Operand.type_eq_ok] at compiled
    obtain ⟨given, compiledBase, container, alone, compiled⟩ := compiled
    split at compiled
    · rename_i key elem
      simp only [Compiled.bind_eq_ok, Compiled.pure_eq_ok] at compiled
      obtain ⟨raw, compiledIndex, index, converted, same⟩ := compiled
      obtain rfl := Option.some.inj same
      have known : (Compile.static scope base).type = .map key elem := by
        rw [Expr.Meant.static compiledBase, Operand.static_type alone]
      simp only [pair, known, Noted.forget_bind, Noted.forget_lift,
        position.meant.forget_value compiledIndex, base.meant.forget_value compiledBase,
        Expr.Meant.static compiledIndex, Operand.toValues, Operand.multi, evalValues,
        Operand.convertTo_toCode converted, map_eq_pure_bind, bind_assoc, pure_bind]
      refine bind_congr fun _ => bind_congr fun _ => bind_congr fun found => ?_
      cases found <;> rfl
    · cases compiled
  · rename_i channel span
    simp only [Compiled.bind_eq_ok, Compiled.pure_eq_ok] at compiled
    obtain ⟨given, compiledInner, type, -, elem, -, same⟩ := compiled
    obtain rfl := Option.some.inj same
    simp only [pair, Noted.forget_bind, Noted.forget_lift, Noted.forget_pure,
      channel.meant.forget_value compiledInner, Operand.toValues, Operand.multi, evalValues]
  · rename_i inner written span
    simp only [Compiled.bind_eq_ok, Compiled.pure_eq_ok] at compiled
    obtain ⟨given, compiledInner, subject, isSubject, target, resolved, same⟩ := compiled
    obtain rfl := Option.some.inj same
    simp only [pair, Noted.forget_bind, Noted.forget_lift, inner.meant.forget_value compiledInner,
      resolved, meaning, pure_bind, apply_ite Noted.forget, Noted.forget_pure, Operand.toValues,
      Operand.multi, evalValues, Operand.interfaceCode_eq isSubject]
  · cases compiled

theorem place_meant {target : Place} (compiled : place scope node = .ok target) :
    Location.ofPlace call env target = (location call scope env node).forget := by
  unfold place at compiled
  split at compiled
  · rename_i ident
    simp only [location, compiled]
    unfold identPlace at compiled
    split at compiled
    · obtain rfl := Except.ok.inj compiled
      rfl
    split at compiled
    · obtain rfl := Except.ok.inj compiled
      simp only [Noted.forget_lift, Location.ofPlace]
    · cases compiled
    · cases compiled
  · rename_i base position span
    simp only [Compiled.bind_eq_ok, Compiled.pure_eq_ok, Operand.type_eq_ok] at compiled
    obtain ⟨given, compiledBase, container, alone, type, isType, raw, compiledIndex, index,
      converted, rfl⟩ := compiled
    have known : (Compile.static scope base).type = container := by
      rw [Expr.Meant.static compiledBase, Operand.static_type alone]
    simp only [location, known, isType, meaning, Noted.forget_bind, Noted.forget_lift, pure_bind,
      base.meant.forget_value compiledBase, position.meant.forget_value compiledIndex,
      Expr.Meant.static compiledIndex, Location.ofPlace, Operand.convertTo_toCode converted,
      map_eq_pure_bind, bind_assoc]
  · cases compiled

end Compile

end MiniGo
