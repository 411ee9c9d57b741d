import MiniGo.Proofs.Operands
/-!
Calls of functions and of built-in functions are typed once their operands are.
-/

namespace MiniGo

variable {strict : Prop} {ctx : Ctx strict} {span : Span}

theorem Scope.Sound.resolve_keyed {scope : Scope} (sound : scope.Sound) {written : TypeExpr}
    {type : Ty} (resolved : scope.resolve span written = .ok type) : type.Keyed := by
  cases written with
  | named name =>
    simp only [Scope.resolve] at resolved
    split at resolved <;> simp at resolved
    rename_i hops type found
    subst resolved
    exact sound.lookup found
  | slice elem =>
    simp only [Scope.resolve, Compiled.bind_eq_ok, Compiled.pure_eq_ok] at resolved
    obtain ⟨elem, -, rfl⟩ := resolved
    trivial
  | map key value =>
    simp only [Scope.resolve, Compiled.bind_eq_ok] at resolved
    obtain ⟨key, -, resolved⟩ := resolved
    split at resolved
    · simp at resolved
    · rename_i keyed
      simp only [Compiled.bind_eq_ok, Compiled.pure_eq_ok] at resolved
      obtain ⟨value, -, rfl⟩ := resolved
      simpa [Ty.Keyed] using keyed
  | chan direction elem =>
    simp only [Scope.resolve, Compiled.bind_eq_ok, Compiled.pure_eq_ok] at resolved
    obtain ⟨elem, -, rfl⟩ := resolved
    trivial
  | func params results variadic =>
    simp only [Scope.resolve, Compiled.bind_eq_ok, Compiled.pure_eq_ok] at resolved
    obtain ⟨params, -, results, -, rfl⟩ := resolved
    trivial

theorem Scope.Sound.typeOperand_keyed {scope : Scope} (sound : scope.Sound) {node : Expr}
    {type : Ty} (resolved : scope.typeOperand node = .ok (some type)) : type.Keyed := by
  unfold Scope.typeOperand at resolved
  split at resolved
  · simp only [Compiled.bind_eq_ok, Compiled.pure_eq_ok, Option.some.injEq] at resolved
    obtain ⟨type, resolved, rfl⟩ := resolved
    exact sound.resolve_keyed resolved
  · split at resolved <;> simp at resolved
    rename_i hops type found
    subst resolved
    exact sound.lookup found
  · simp at resolved

namespace Invoke

theorem convertAll_fits {operands : List Operand} {types : List Ty} {codes : List Code}
    (typed : ∀ operand ∈ operands, operand.Typed strict ctx)
    (length : operands.length = types.length)
    (compiled : convertAll operands types = .ok codes) : CodesFit strict ctx codes types := by
  induction operands generalizing types codes with
  | nil =>
    obtain rfl : types = [] := by simpa using length.symm
    simp only [convertAll, Compiled.pure_eq_ok] at compiled
    exact compiled ▸ .nil
  | cons operand operands ih =>
    cases types with
    | nil => simp at length
    | cons type types =>
      simp only [convertAll, Compiled.bind_eq_ok, Compiled.pure_eq_ok] at compiled
      obtain ⟨converted, compiledFirst, rest, compiledRest, rfl⟩ := compiled
      have first := typed operand (by simp)
      exact .cons (first.convertTo_code compiledFirst)
        (ih (fun other member => typed other (by simp [member])) (by simpa using length)
          compiledRest)

theorem checkAll_assignable {types targets : List Ty} (length : types.length = targets.length)
    (checked : checkAll span types targets = .ok ()) : AllAssignable types targets := by
  induction types generalizing targets with
  | nil =>
    obtain rfl : targets = [] := by simpa using length.symm
    exact .nil
  | cons type types ih =>
    cases targets with
    | nil => simp at length
    | cons target targets =>
      simp only [checkAll] at checked
      split at checked
      · exact .cons ‹_› (ih (by simpa using length) checked)
      · simp at checked

theorem argumentTypes_length {signature : Signature} {fixed count : Nat}
    (inside : fixed ≤ signature.params.length) (enough : fixed ≤ count) :
    (argumentTypes signature fixed count).length = count := by
  simp [argumentTypes]
  omega

theorem fixed_le (signature : Signature) : signature.fixed ≤ signature.params.length := by
  unfold Signature.fixed
  split <;> omega

def Passes (strict : Prop) (ctx : Ctx strict) (signature : Signature) (spread : Bool)
    (values : Values) : Prop :=
  ∃ sources targets, ValuesTyped strict ctx values sources ∧ AllAssignable sources targets ∧
    signature.Accepts spread targets

theorem separate_pass {signature : Signature} {args : List Operand} {ellipsis : Bool}
    {fixed : Nat} {values : Values} (typed : ∀ operand ∈ args, operand.Typed strict ctx)
    (given : fixed = if ellipsis then signature.params.length else signature.fixed)
    (compiled : separate signature args ellipsis fixed span = .ok values) :
    Passes strict ctx signature ellipsis values := by
  unfold separate at compiled
  dsimp only at compiled
  split at compiled
  · simp at compiled
  by_cases fits : if signature.variadic && !ellipsis then fixed ≤ args.length else args.length = fixed
  case neg =>
    rw [if_pos fits] at compiled
    simp at compiled
  rw [if_neg (not_not.mpr fits)] at compiled
  simp only [Compiled.bind_eq_ok, Compiled.pure_eq_ok] at compiled
  obtain ⟨codes, converted, rfl⟩ := compiled
  have inside : fixed ≤ signature.params.length := by
    subst given
    split
    · exact Nat.le_refl _
    · exact fixed_le signature
  have enough : fixed ≤ args.length := by
    split at fits <;> omega
  have length := argumentTypes_length inside enough
  refine ⟨_, _, .each (convertAll_fits typed length.symm converted), .refl _, ?_⟩
  cases ellipsis with
  | true =>
    simp only [Bool.not_true, Bool.and_false, Bool.false_eq_true, if_false, if_true] at fits given
    simp [Signature.Accepts, argumentTypes, fits, given]
  | false =>
    simp only [Bool.not_false, Bool.and_true, Bool.false_eq_true, if_false] at fits given
    simp only [Signature.Accepts, Bool.false_eq_true, if_false, length, ← given]
    exact ⟨trivial, fits⟩

theorem forwarded_pass {signature : Signature} {single : Operand}
    (typed : single.Typed strict ctx)
    (checked : checkForwarded signature single.types span = .ok ()) :
    Passes strict ctx signature false single.toValues := by
  obtain ⟨sources, values, assignable⟩ := typed.toValues
  unfold checkForwarded at checked
  dsimp only at checked
  by_cases fits : if signature.variadic then signature.fixed ≤ single.types.length
    else single.types.length = signature.fixed
  case neg =>
    rw [if_neg fits] at checked
    simp at checked
  rw [if_pos fits] at checked
  have enough : signature.fixed ≤ single.types.length := by
    split at fits <;> omega
  have length := argumentTypes_length (fixed_le signature) enough
  refine ⟨sources, _, values, assignable.trans (checkAll_assignable length.symm checked), ?_⟩
  simp only [Signature.Accepts, Bool.false_eq_true, if_false, length]
  exact ⟨trivial, fits⟩

theorem arguments_pass {signature : Signature} {args : List Operand} {ellipsis : Bool}
    {values : Values} (typed : ∀ operand ∈ args, operand.Typed strict ctx)
    (compiled : arguments signature args ellipsis span = .ok values) :
    Passes strict ctx signature ellipsis values := by
  unfold arguments at compiled
  dsimp only at compiled
  split at compiled
  · rename_i single
    split at compiled
    · rename_i forwarded
      simp only [Bool.and_eq_true, Bool.not_eq_true'] at forwarded
      simp only [Compiled.bind_eq_ok, Compiled.pure_eq_ok] at compiled
      obtain ⟨⟨⟩, checked, rfl⟩ := compiled
      rw [forwarded.2]
      exact forwarded_pass (typed single (by simp)) checked
    · exact separate_pass typed rfl compiled
  · exact separate_pass typed rfl compiled

theorem function_typed {callee : Operand} {signature : Signature} {args : List Operand}
    {ellipsis : Bool} {invoke : Invoke} (calleeTyped : callee.Typed strict ctx)
    (single : callee.types = [signature.toTy])
    (typed : ∀ operand ∈ args, operand.Typed strict ctx)
    (compiled : function callee signature args ellipsis span = .ok invoke) :
    CallTyped strict ctx invoke.call invoke.results := by
  simp only [function, Compiled.bind_eq_ok, Compiled.pure_eq_ok] at compiled
  obtain ⟨values, compiled, rfl⟩ := compiled
  obtain ⟨sources, targets, values, assignable, accepts⟩ := arguments_pass typed compiled
  exact .mk (calleeTyped.toCode single) values assignable accepts

theorem signature_eq_ok {callee : Operand} {found : Signature}
    (compiled : signature callee span = .ok found) : callee.types = [found.toTy] := by
  simp only [signature, Compiled.bind_eq_ok, Operand.type_eq_ok] at compiled
  obtain ⟨type, single, compiled⟩ := compiled
  split at compiled <;> simp at compiled
  subst compiled
  exact single

theorem toOperand_typed {invoke : Invoke}
    (typed : CallTyped strict ctx invoke.call invoke.results) :
    invoke.toOperand.Typed strict ctx := by
  have values := @ValuesTyped.call _ _ invoke.call.callee _ _ _ typed
  unfold toOperand
  dsimp only
  split
  · rename_i type same
    rw [same] at values
    exact Operand.typed_single (CodeTyped.first values).fits
  · exact Operand.typed_multi values

end Invoke

/-- Operands that have passed a check one after the other, with the first one at hand. -/
def CheckedBy (strict : Prop) (ctx : Ctx strict)
    (check : Option Operand → Operand → Compiled Operand) : Option Operand → List Operand → Prop
  | _, [] => True
  | first, operand :: rest =>
    (∃ given : Operand, given.Typed strict ctx ∧ check first given = .ok operand) ∧
      CheckedBy strict ctx check (first.or (some operand)) rest

theorem CheckedBy.all {check : Option Operand → Operand → Compiled Operand}
    {property : Operand → Prop} {first : Option Operand} {operands : List Operand}
    (checked : CheckedBy strict ctx check first operands)
    (each : ∀ first given result, Operand.Typed strict ctx given → check first given = .ok result →
      property result) : ∀ operand ∈ operands, property operand := by
  induction operands generalizing first with
  | nil => simp
  | cons operand rest ih =>
    obtain ⟨⟨given, typed, passed⟩, others⟩ := checked
    intro other member
    rcases List.mem_cons.mp member with rfl | member
    · exact each first given other typed passed
    · exact ih others other member

theorem CheckedBy.unchecked {first : Option Operand} {operands : List Operand}
    (checked : CheckedBy strict ctx (fun _ => pure) first operands) :
    ∀ operand ∈ operands, operand.Typed strict ctx := by
  refine checked.all fun _ given result typed passed => ?_
  simp only [Compiled.pure_eq_ok] at passed
  exact passed ▸ typed

theorem CheckedBy.converted {target : Ty} {first : Option Operand} {operands : List Operand}
    (checked : CheckedBy strict ctx (fun _ operand => operand.convertTo target) first operands) :
    CodesFit strict ctx (operands.map Operand.toCode)
      (List.replicate (operands.map Operand.toCode).length target) := by
  have each := checked.all fun _ given result typed passed => typed.convertTo_code passed
  clear checked
  induction operands with
  | nil => exact .nil
  | cons operand rest ih =>
    exact .cons (each operand (by simp)) (ih fun other member => each other (by simp [member]))

namespace Builtin

variable {builtin : Builtin} {ellipsis : Bool} {count : Nat}

theorem checkArgument_typed {first : Option Operand} {given result : Operand}
    (typed : given.Typed strict ctx)
    (passed : builtin.checkArgument ellipsis count span first given = .ok result) :
    result.Typed strict ctx := by
  unfold checkArgument at passed
  split at passed
  · simp only [Compiled.bind_eq_ok, Compiled.pure_eq_ok] at passed
    obtain ⟨type, single, elem, -, rfl⟩ := passed
    exact typed
  · simp only [Compiled.bind_eq_ok] at passed
    obtain ⟨type, single, passed⟩ := passed
    split at passed <;> simp at passed
    exact passed ▸ typed
  · simp only [Compiled.bind_eq_ok] at passed
    obtain ⟨type, single, passed⟩ := passed
    split at passed
    · exact (typed.convertTo passed).1
    · simp only [Compiled.pure_eq_ok] at passed
      exact passed ▸ typed
  · simp only [Compiled.bind_eq_ok] at passed
    obtain ⟨type, single, passed⟩ := passed
    split at passed
    · split at passed <;> simp at passed
      exact passed ▸ typed
    · simp at passed
  · simp only [Compiled.bind_eq_ok] at passed
    obtain ⟨type, single, passed⟩ := passed
    split at passed
    · exact (typed.convertTo passed).1
    · simp only [Compiled.pure_eq_ok] at passed
      exact passed ▸ typed
  · exact (typed.convertTo passed).1
  · exact (typed.convertTo passed).1
  · exact (typed.convertTo passed).1
  · exact (typed.convertTo passed).1
  · simp only [Compiled.bind_eq_ok] at passed
    obtain ⟨type, single, passed⟩ := passed
    split at passed <;> simp at passed <;> exact passed ▸ typed
  · simp only [Compiled.bind_eq_ok] at passed
    obtain ⟨type, single, passed⟩ := passed
    split at passed <;> simp at passed <;> exact passed ▸ typed

theorem len_measured {given result : Operand} {first : Option Operand}
    (passed : checkArgument .len ellipsis count span first given = .ok result) :
    ∃ type, result.types = [type] ∧ type.isMeasured = true := by
  simp only [checkArgument, Compiled.bind_eq_ok, Operand.type_eq_ok] at passed
  obtain ⟨type, single, passed⟩ := passed
  split at passed <;> simp at passed <;> exact passed ▸ ⟨_, single, rfl⟩

theorem cap_measured {given result : Operand} {first : Option Operand}
    (passed : checkArgument .cap ellipsis count span first given = .ok result) :
    ∃ type, result.types = [type] ∧ type.isMeasured = true := by
  simp only [checkArgument, Compiled.bind_eq_ok, Operand.type_eq_ok] at passed
  obtain ⟨type, single, passed⟩ := passed
  split at passed <;> simp at passed <;> exact passed ▸ ⟨_, single, rfl⟩

theorem append_base {given result : Operand}
    (passed : checkArgument .append ellipsis count span none given = .ok result) :
    ∃ elem, result.types = [.slice elem] := by
  simp only [checkArgument, Compiled.bind_eq_ok, Operand.type_eq_ok] at passed
  obtain ⟨type, single, passed⟩ := passed
  split at passed
  · split at passed <;> simp at passed
    exact passed ▸ ⟨_, single⟩
  · simp at passed

theorem append_extra {base given result : Operand} {elem : Ty} (typed : given.Typed strict ctx)
    (baseIs : base.types = [.slice elem])
    (passed : checkArgument .append ellipsis count span (some base) given = .ok result) :
    CodeFits strict ctx result.toCode (if ellipsis then .slice elem else elem) := by
  simp only [checkArgument, Compiled.bind_eq_ok, Operand.type_eq_ok, baseIs, List.cons.injEq,
    and_true] at passed
  obtain ⟨type, rfl, passed⟩ := passed
  exact typed.convertTo_code passed

theorem delete_takes {operands : List Operand} {params : List Ty}
    (checked : CheckedBy strict ctx (checkArgument .delete ellipsis count span) none operands)
    (two : operands.length = 2) (types : operandTypes operands = .ok params) :
    Builtin.Takes .delete params := by
  match operands, two with
  | [base, key], _ =>
    obtain ⟨⟨givenBase, -, baseIs⟩, ⟨givenKey, keyTyped, keyIs⟩, -⟩ := checked
    simp only [checkArgument, Compiled.bind_eq_ok, Operand.type_eq_ok] at baseIs
    obtain ⟨type, single, baseIs⟩ := baseIs
    split at baseIs <;> simp at baseIs
    rename_i keyType value
    subst baseIs
    simp only [Option.or_some, checkArgument, Compiled.bind_eq_ok, Operand.type_eq_ok,
      Option.getD_none, single, List.cons.injEq, and_true] at keyIs
    obtain ⟨type, rfl, converted⟩ := keyIs
    have keySingle := (keyTyped.convertTo converted).2
    simp only [operandTypes, Compiled.bind_eq_ok, Compiled.pure_eq_ok, Operand.type_eq_ok, single,
      keySingle, List.cons.injEq, and_true] at types
    obtain ⟨type, rfl, rest, ⟨other, rfl, rest', rfl, rfl⟩, rfl⟩ := types
    exact ⟨_, _, rfl⟩

theorem operandTypes_fit {operands : List Operand} {types : List Ty}
    (typed : ∀ operand ∈ operands, operand.Typed strict ctx)
    (compiled : operandTypes operands = .ok types) :
    CodesFit strict ctx (operands.map Operand.toCode) types := by
  induction operands generalizing types with
  | nil =>
    simp only [operandTypes, Compiled.pure_eq_ok] at compiled
    exact compiled ▸ .nil
  | cons operand rest ih =>
    simp only [operandTypes, Compiled.bind_eq_ok, Compiled.pure_eq_ok, Operand.type_eq_ok]
      at compiled
    obtain ⟨type, single, types, compiled, rfl⟩ := compiled
    exact .cons ((typed operand (by simp)).toCode single)
      (ih (fun other member => typed other (by simp [member])) compiled)

theorem invoke_typed {operands : List Operand} {invoke : Invoke}
    (typed : ∀ operand ∈ operands, operand.Typed strict ctx)
    (takes : ∀ params, operandTypes operands = .ok params → builtin.Takes params)
    (compiled : builtin.invoke operands span = .ok invoke) :
    CallTyped strict ctx invoke.call invoke.results := by
  simp only [Builtin.invoke, Compiled.bind_eq_ok, Compiled.pure_eq_ok] at compiled
  obtain ⟨params, types, rfl⟩ := compiled
  refine @CallTyped.mk _ _ _ _ _ ⟨params, [], false⟩ _ _ (CodeTyped.builtin (takes params types)).fits
    (.each (operandTypes_fit typed types)) (AllAssignable.refl params) ?_
  simp [Signature.Accepts, Signature.fixed, Invoke.argumentTypes]

theorem length_typed {operand : Operand} {type : Ty} (typed : operand.Typed strict ctx)
    (single : operand.types = [type]) (measured : type.isMeasured = true) :
    (length operand span).Typed strict ctx := by
  unfold length
  split
  · exact Operand.typed_const (by simp [Const.type, Ty.assignableTo])
  · exact Operand.typed_single (CodeTyped.length (typed.toCode single) measured).fits

theorem appended_typed {base result : Operand} {extra : List Operand} {elem : Ty}
    (typed : base.Typed strict ctx) (single : base.types = [.slice elem])
    (fits : ∀ operand ∈ extra,
      CodeFits strict ctx operand.toCode (if ellipsis then .slice elem else elem))
    (spread : ellipsis = true → extra ≠ [])
    (compiled : appended ellipsis base extra span = .ok result) : result.Typed strict ctx := by
  simp only [appended, Compiled.bind_eq_ok, Operand.type_eq_ok, single, List.cons.injEq,
    and_true] at compiled
  obtain ⟨type, rfl, compiled⟩ := compiled
  have base := typed.toCode single
  split at compiled <;> simp only [Compiled.pure_eq_ok] at compiled <;> subst compiled
  · rename_i slice rest
    have slice := fits slice (by simp)
    simp only [if_true] at slice
    exact Operand.typed_single (CodeTyped.append base (.elements slice)).fits
  · rename_i other
    have plain : ellipsis = false := by
      cases ellipsis with
      | false => rfl
      | true =>
        cases extra with
        | nil => exact absurd rfl (spread rfl)
        | cons head tail => exact absurd rfl (other head tail rfl)
    subst plain
    refine Operand.typed_single (CodeTyped.append base (.each ?_)).fits
    clear other spread
    induction extra with
    | nil => exact .nil
    | cons head tail ih =>
      exact .cons (by simpa using fits head (by simp))
        (ih fun operand member => fits operand (by simp [member]))

theorem checkUse_count (used : builtin.checkUse ellipsis count span = .ok ()) {wanted : Nat}
    (arity : builtin.arity? = some wanted) : count = wanted := by
  unfold checkUse at used
  dsimp only at used
  split at used
  · simp at used
  · simp only [arity] at used
    by_contra differs
    simp [differs] at used

theorem toOperand_typed {operands : List Operand} {result : Operand}
    (checked : CheckedBy strict ctx (builtin.checkArgument ellipsis count span) none operands)
    (length : operands.length = count) (used : builtin.checkUse ellipsis count span = .ok ())
    (compiled : builtin.toOperand ellipsis operands span = .ok result) :
    result.Typed strict ctx := by
  have typed := checked.all fun _ given result typed passed => checkArgument_typed typed passed
  unfold toOperand at compiled
  split at compiled
  · rename_i operand rest
    obtain ⟨⟨given, givenTyped, passed⟩, -⟩ := checked
    obtain ⟨type, single, measured⟩ := len_measured passed
    simp only [Compiled.pure_eq_ok] at compiled
    exact compiled ▸ length_typed (typed operand (by simp)) single measured
  · rename_i operand rest
    obtain ⟨⟨given, givenTyped, passed⟩, -⟩ := checked
    obtain ⟨type, single, measured⟩ := cap_measured passed
    simp only [Compiled.pure_eq_ok] at compiled
    have fits := (typed operand (by simp)).toCode single
    exact compiled ▸ Operand.typed_single (CodeTyped.capacity fits measured).fits
  · rename_i base extra
    obtain ⟨⟨given, givenTyped, passed⟩, others⟩ := checked
    obtain ⟨elem, single⟩ := append_base passed
    simp only [Option.none_or] at others
    have fits : ∀ operand ∈ extra,
        CodeFits strict ctx operand.toCode (if ellipsis then .slice elem else elem) := by
      clear compiled length typed
      induction extra with
      | nil => simp
      | cons head tail ih =>
        obtain ⟨⟨givenHead, headTyped, headPassed⟩, tailChecked⟩ := others
        intro operand member
        rcases List.mem_cons.mp member with rfl | member
        · exact append_extra headTyped single headPassed
        · exact ih tailChecked operand member
    refine appended_typed (typed base (by simp)) single fits ?_ compiled
    rintro rfl rfl
    simp only [checkArgument, Compiled.bind_eq_ok] at passed
    obtain ⟨type, -, passed⟩ := passed
    split at passed
    · simp [← length] at passed
    · simp at passed
  · simp only [Compiled.bind_eq_ok, Compiled.pure_eq_ok] at compiled
    obtain ⟨invoke, invoked, rfl⟩ := compiled
    refine Invoke.toOperand_typed (invoke_typed typed ?_ invoked)
    intro params types
    cases builtin with
    | delete => exact delete_takes checked (length.trans (checkUse_count used rfl)) types
    | _ => trivial

theorem made_typed {type : Ty} {sizes : List Operand} {result : Operand} (keyed : type.Keyed)
    (fits : ∀ size ∈ sizes, CodeFits strict ctx size.toCode .int)
    (compiled : made type sizes span = .ok result) : result.Typed strict ctx := by
  unfold made at compiled
  split at compiled
  · split at compiled <;> simp at compiled
    subst compiled
    exact Operand.typed_single (CodeTyped.makeSlice (fits _ (by simp))).fits
  · simp only [Compiled.pure_eq_ok] at compiled
    subst compiled
    exact Operand.typed_single (CodeTyped.makeMap keyed).fits
  · rename_i direction elem
    have assignable : (Ty.chan .both elem).assignableTo (.chan direction elem) = true := by
      simp [Ty.assignableTo]
    simp only [Compiled.pure_eq_ok] at compiled
    subst compiled
    cases sizes with
    | nil => exact Operand.typed_single (.of .makeChan assignable)
    | cons size rest =>
      exact Operand.typed_single (.of (.makeChanSized (fits size (by simp))) assignable)
  · simp at compiled

theorem madeType_keyed {written : Expr} {type : Ty}
    (compiled : madeType ctx.scope written count span = .ok type) : type.Keyed := by
  simp only [madeType, Compiled.bind_eq_ok] at compiled
  obtain ⟨found, resolved, compiled⟩ := compiled
  split at compiled
  · simp at compiled
  · split at compiled <;> simp at compiled
    exact compiled ▸ ctx.sound.typeOperand_keyed resolved

end Builtin

end MiniGo
