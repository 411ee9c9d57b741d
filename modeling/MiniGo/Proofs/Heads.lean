import MiniGo.Proofs.Compounds
/-!
The function heads written in a syntax tree. A variadic function without parameters can be written,
but its head is not a proper one: there is no parameter to collect the arguments in.
-/

namespace MiniGo

mutual

def Expr.heads : Expr → List FuncHead
  | .ident _ | .int _ _ | .float _ _ | .bool _ _ | .string _ _ | .type _ _ => []
  | .binary _ left right _ => left.heads ++ right.heads
  | .unary _ operand _ => operand.heads
  | .call callee args _ _ => callee.heads ++ Expr.headsOf args
  | .func head body _ => head :: body.heads
  | .index base index _ => base.heads ++ index.heads
  | .sliceLit _ elems _ => Expr.headsOf elems
  | .mapLit _ _ entries _ => Expr.headsOfEntries entries
  | .typeAssert operand _ _ => operand.heads

def Expr.headsOf : List Expr → List FuncHead
  | [] => []
  | node :: rest => node.heads ++ Expr.headsOf rest

def Expr.headsOfEntries : List (Expr × Expr) → List FuncHead
  | [] => []
  | (key, value) :: rest => key.heads ++ value.heads ++ Expr.headsOfEntries rest

def Expr.headsIn : Option Expr → List FuncHead
  | none => []
  | some node => node.heads

def Block.heads : Block → List FuncHead
  | .mk statements _ => Stmt.headsOf statements

def Stmt.heads : Stmt → List FuncHead
  | .empty _ | .bad _ | .branch _ _ _ | .caseClause _ | .commClause _ => []
  | .assign lhs _ rhs _ => Expr.headsOf lhs ++ Expr.headsOf rhs
  | .block body => body.heads
  | .decl declaration => declaration.heads
  | .defer call _ => call.heads
  | .expr operand => operand.heads
  | .forLoop init cond post body _ =>
    Stmt.headsIn init ++ Expr.headsIn cond ++ Stmt.headsIn post ++ body.heads
  | .go call _ => call.heads
  | .ifElse init cond thenBranch elseBranch _ =>
    Stmt.headsIn init ++ cond.heads ++ thenBranch.heads ++ Stmt.headsIn elseBranch
  | .incDec target _ _ => target.heads
  | .labeled _ body _ => body.heads
  | .range key value _ subject body _ =>
    Expr.headsIn key ++ Expr.headsIn value ++ subject.heads ++ body.heads
  | .ret values _ => Expr.headsOf values
  | .select clauses _ => CommClause.headsOf clauses
  | .send channel value _ => channel.heads ++ value.heads
  | .switch init tag clauses _ =>
    Stmt.headsIn init ++ Expr.headsIn tag ++ CaseClause.headsOf clauses
  | .typeSwitch init _ subject clauses _ =>
    Stmt.headsIn init ++ subject.heads ++ CaseClause.headsOf clauses

def Stmt.headsOf : List Stmt → List FuncHead
  | [] => []
  | node :: rest => node.heads ++ Stmt.headsOf rest

def Stmt.headsIn : Option Stmt → List FuncHead
  | none => []
  | some node => node.heads

def CaseClause.headsOf : List CaseClause → List FuncHead
  | [] => []
  | .mk none body _ :: rest => Stmt.headsOf body ++ CaseClause.headsOf rest
  | .mk (some list) body _ :: rest =>
    Expr.headsOf list ++ Stmt.headsOf body ++ CaseClause.headsOf rest

def CommClause.headsOf : List CommClause → List FuncHead
  | [] => []
  | .mk comm body _ :: rest => Stmt.headsIn comm ++ Stmt.headsOf body ++ CommClause.headsOf rest

def Decl.heads : Decl → List FuncHead
  | .var specs _ | .const specs _ => ValueSpec.headsOf specs
  | .type _ _ => []
  | .func _ head body _ => head :: body.heads

def ValueSpec.headsOf : List ValueSpec → List FuncHead
  | [] => []
  | .mk _ _ values _ :: rest => Expr.headsOf values ++ ValueSpec.headsOf rest

end

def FuncHead.Proper (head : FuncHead) : Prop := head.variadic = true → head.params ≠ []

def ProperIf (strict : Prop) (heads : List FuncHead) : Prop :=
  strict → ∀ head ∈ heads, head.Proper

@[simp] theorem properIf_nil (strict : Prop) : ProperIf strict [] := by simp [ProperIf]

@[simp] theorem properIf_cons {strict : Prop} {head : FuncHead} {heads : List FuncHead} :
    ProperIf strict (head :: heads) ↔ (strict → head.Proper) ∧ ProperIf strict heads := by
  simp only [ProperIf, List.forall_mem_cons]
  exact forall_and

@[simp] theorem properIf_append {strict : Prop} {first second : List FuncHead} :
    ProperIf strict (first ++ second) ↔ ProperIf strict first ∧ ProperIf strict second := by
  simp only [ProperIf, List.forall_mem_append]
  exact forall_and

namespace Scope

variable {scope : Scope} {span : Span}

theorem resolveFields_length {fields : List (Field TypeExpr)} {types : List Ty}
    (resolved : scope.resolveFields span fields = .ok types) : types.length = fields.length := by
  induction fields generalizing types with
  | nil =>
    simp only [resolveFields, Compiled.pure_eq_ok] at resolved
    exact resolved ▸ rfl
  | cons field fields ih =>
    simp only [resolveFields, Compiled.bind_eq_ok, Compiled.pure_eq_ok] at resolved
    obtain ⟨type, -, rest, resolvedRest, rfl⟩ := resolved
    simp [ih resolvedRest]

theorem resolveParams_last {variadic : Bool} {fields : List (Field TypeExpr)} {types : List Ty}
    (resolved : scope.resolveParams span variadic fields = .ok types) :
    types.length = fields.length ∧
      (variadic = true → fields ≠ [] → ∃ elem, types.getLast? = some (.slice elem)) := by
  induction fields generalizing types with
  | nil =>
    simp only [resolveParams, Compiled.pure_eq_ok] at resolved
    exact ⟨resolved ▸ rfl, by simp⟩
  | cons field fields ih =>
    cases fields with
    | nil =>
      simp only [resolveParams, Compiled.bind_eq_ok, Compiled.pure_eq_ok] at resolved
      obtain ⟨type, -, rfl⟩ := resolved
      exact ⟨rfl, fun variadic _ => ⟨type, by simp [variadic]⟩⟩
    | cons next fields =>
      simp only [resolveParams, Compiled.bind_eq_ok, Compiled.pure_eq_ok] at resolved
      obtain ⟨type, -, rest, resolvedRest, rfl⟩ := resolved
      obtain ⟨length, last⟩ := ih resolvedRest
      refine ⟨by simp [length], fun variadic _ => ?_⟩
      obtain ⟨elem, isLast⟩ := last variadic (by simp)
      cases rest with
      | nil => simp at length
      | cons other rest => exact ⟨elem, by simpa [List.getLast?_cons_cons] using isLast⟩

theorem resolveHead_spec {head : FuncHead} {signature : Signature}
    (resolved : scope.resolveHead span head = .ok signature) :
    head.params.length = signature.params.length ∧
      head.results.length = signature.results.length ∧ (head.Proper → signature.Proper) := by
  simp only [resolveHead, Compiled.bind_eq_ok, Compiled.pure_eq_ok] at resolved
  obtain ⟨params, resolvedParams, results, resolvedResults, rfl⟩ := resolved
  obtain ⟨length, last⟩ := resolveParams_last resolvedParams
  refine ⟨length.symm, (resolveFields_length resolvedResults).symm, fun proper variadic => ?_⟩
  have isVariadic : head.variadic = true := variadic
  obtain ⟨elem, isLast⟩ := last isVariadic (proper isVariadic)
  simp only [Signature.variadicElem?, isVariadic, if_true, isLast, Option.isSome_some]

def Refines (after before : Scope) : Prop :=
  ∀ name hops type, after.lookup name = some (hops, .type type) →
    ∃ hops, before.lookup name = some (hops, .type type)

mutual

theorem Refines.resolve {after before : Scope} (refines : after.Refines before)
    (written : TypeExpr) {type : Ty} (resolved : after.resolve span written = .ok type) :
    before.resolve span written = .ok type := by
  match written with
  | .named name =>
    simp only [Scope.resolve] at resolved ⊢
    split at resolved <;> simp at resolved
    rename_i hops found known
    subst resolved
    obtain ⟨hops', known'⟩ := refines name hops found known
    simp [known']
  | .slice elem =>
    simp only [Scope.resolve, Compiled.bind_eq_ok, Compiled.pure_eq_ok] at resolved ⊢
    obtain ⟨elemType, resolvedElem, rfl⟩ := resolved
    exact ⟨elemType, refines.resolve elem resolvedElem, rfl⟩
  | .map key value =>
    simp only [Scope.resolve, Compiled.bind_eq_ok] at resolved ⊢
    obtain ⟨keyType, resolvedKey, resolved⟩ := resolved
    refine ⟨keyType, refines.resolve key resolvedKey, ?_⟩
    split at resolved
    · simp at resolved
    · rename_i isKey
      simp only [Compiled.bind_eq_ok, Compiled.pure_eq_ok] at resolved
      obtain ⟨valueType, resolvedValue, rfl⟩ := resolved
      rw [if_neg isKey]
      simp only [Compiled.bind_eq_ok, Compiled.pure_eq_ok]
      exact ⟨valueType, refines.resolve value resolvedValue, rfl⟩
  | .chan direction elem =>
    simp only [Scope.resolve, Compiled.bind_eq_ok, Compiled.pure_eq_ok] at resolved ⊢
    obtain ⟨elemType, resolvedElem, rfl⟩ := resolved
    exact ⟨elemType, refines.resolve elem resolvedElem, rfl⟩
  | .func params results variadic =>
    simp only [Scope.resolve, Compiled.bind_eq_ok, Compiled.pure_eq_ok] at resolved ⊢
    obtain ⟨paramTypes, resolvedParams, resultTypes, resolvedResults, rfl⟩ := resolved
    exact ⟨paramTypes, refines.resolveParams params resolvedParams, resultTypes,
      refines.resolveFields results resolvedResults, rfl⟩

theorem Refines.resolveParams {after before : Scope} (refines : after.Refines before)
    {variadic : Bool} (fields : List (Field TypeExpr)) {types : List Ty}
    (resolved : after.resolveParams span variadic fields = .ok types) :
    before.resolveParams span variadic fields = .ok types := by
  match fields with
  | [] => simpa only [Scope.resolveParams] using resolved
  | [⟨_, written⟩] =>
    simp only [Scope.resolveParams, Compiled.bind_eq_ok, Compiled.pure_eq_ok] at resolved ⊢
    obtain ⟨type, resolvedType, rfl⟩ := resolved
    exact ⟨type, refines.resolve written resolvedType, rfl⟩
  | ⟨_, written⟩ :: next :: rest =>
    simp only [Scope.resolveParams, Compiled.bind_eq_ok, Compiled.pure_eq_ok] at resolved ⊢
    obtain ⟨type, resolvedType, others, resolvedOthers, rfl⟩ := resolved
    exact ⟨type, refines.resolve written resolvedType, others,
      refines.resolveParams (next :: rest) resolvedOthers, rfl⟩

theorem Refines.resolveFields {after before : Scope} (refines : after.Refines before)
    (fields : List (Field TypeExpr)) {types : List Ty}
    (resolved : after.resolveFields span fields = .ok types) :
    before.resolveFields span fields = .ok types := by
  match fields with
  | [] => simpa only [Scope.resolveFields] using resolved
  | ⟨_, written⟩ :: rest =>
    simp only [Scope.resolveFields, Compiled.bind_eq_ok, Compiled.pure_eq_ok] at resolved ⊢
    obtain ⟨type, resolvedType, others, resolvedOthers, rfl⟩ := resolved
    exact ⟨type, refines.resolve written resolvedType, others,
      refines.resolveFields rest resolvedOthers, rfl⟩

end

theorem Refines.resolveHead {after before : Scope} (refines : after.Refines before)
    {head : FuncHead} {signature : Signature}
    (resolved : after.resolveHead span head = .ok signature) :
    before.resolveHead span head = .ok signature := by
  simp only [Scope.resolveHead, Compiled.bind_eq_ok, Compiled.pure_eq_ok] at resolved ⊢
  obtain ⟨params, resolvedParams, results, resolvedResults, rfl⟩ := resolved
  exact ⟨params, refines.resolveParams _ resolvedParams, results,
    refines.resolveFields _ resolvedResults, rfl⟩

theorem refines_declareVar {frame after : Frame} {outer : Scope} {name : String} {type : Ty}
    {slot : Option Slot} (compiled : frame.declareVar name type span = .ok (slot, after)) :
    Refines (after :: outer) (frame :: outer) := by
  intro found hops known isType
  unfold Frame.declareVar at compiled
  split at compiled
  · simp only [Compiled.pure_eq_ok, Prod.mk.injEq] at compiled
    exact ⟨hops, compiled.2 ▸ isType⟩
  · split at compiled
    · simp at compiled
    simp only [Compiled.pure_eq_ok, Prod.mk.injEq] at compiled
    obtain ⟨-, rfl⟩ := compiled
    have kept : (frame.allocate type).2.symbols = frame.symbols ∧
        (frame.allocate type).2.owned = frame.owned := by
      unfold Frame.allocate
      split <;> simp
    by_cases same : found = name
    · subst same
      simp [Scope.lookup, Scope.declared?, Frame.symbol?] at isType
    · refine ⟨hops, isType ▸ ?_⟩
      have other : (found == name) = false := by simpa using same
      simp [Scope.lookup, Scope.declared?, Frame.symbol?, Frame.cost, List.lookup, kept, other]

end Scope

end MiniGo
