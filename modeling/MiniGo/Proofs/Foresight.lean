import MiniGo.Proofs.Faults
import MiniGo.Proofs.Files
/-!
Scopes that foresee their slots. Before a scope is compiled, a look at its statements decides whether
it gets an environment; compiling it then takes slots or not. The two agree on a tree that is
`foreseen`: then no fault is one of the compiler itself. They disagree on a declaration behind a
label, on a declaration other than `:=` in front of a condition, loop or switch, and on a clause of a
select that receives into blank names only and declares others.
-/

namespace MiniGo

open Compiled (Blameless)

def Stmt.binds : Stmt → Bool
  | .labeled _ body _ => body.binds
  | node => node.declares

/-- A statement in front of a condition, loop or switch takes slots only as a definition. -/
def Stmt.isForeseenInit (node : Stmt) : Bool := node.isDefine || !node.binds

/-- The statements of a scope take slots only if one of them is seen to declare a name. -/
def Stmt.areForeseen (nodes : List Stmt) : Bool := nodes.any Stmt.declares || !nodes.any Stmt.binds

def CommClause.isForeseen (comm : Option Stmt) (body : List Stmt) : Bool :=
  match comm with
  | some (.assign lhs .define _ _) =>
    lhs.any (·.ident?.any (!·.isBlank)) || !body.any Stmt.binds
  | _ => Stmt.areForeseen body

mutual

def Expr.foreseen : Expr → Bool
  | .ident _ | .int _ _ | .float _ _ | .bool _ _ | .string _ _ | .type _ _ => true
  | .binary _ left right _ => left.foreseen && right.foreseen
  | .unary _ operand _ => operand.foreseen
  | .call callee args _ _ => callee.foreseen && Expr.foreseenAll args
  | .func _ (.mk statements _) _ => Stmt.foreseenAll statements
  | .index base index _ => base.foreseen && index.foreseen
  | .sliceLit _ elems _ => Expr.foreseenAll elems
  | .mapLit _ _ entries _ => Expr.foreseenEntries entries
  | .typeAssert operand _ _ => operand.foreseen

def Expr.foreseenAll : List Expr → Bool
  | [] => true
  | node :: rest => node.foreseen && Expr.foreseenAll rest

def Expr.foreseenEntries : List (Expr × Expr) → Bool
  | [] => true
  | (key, value) :: rest => key.foreseen && value.foreseen && Expr.foreseenEntries rest

def Expr.foreseenIn : Option Expr → Bool
  | none => true
  | some node => node.foreseen

def Block.foreseen : Block → Bool
  | .mk statements _ => Stmt.areForeseen statements && Stmt.foreseenAll statements

def Stmt.foreseen : Stmt → Bool
  | .empty _ | .bad _ | .branch _ _ _ | .caseClause _ | .commClause _ => true
  | .assign lhs _ rhs _ => Expr.foreseenAll lhs && Expr.foreseenAll rhs
  | .block body => body.foreseen
  | .decl declaration => declaration.foreseen
  | .defer call _ => call.foreseen
  | .expr operand => operand.foreseen
  | .forLoop init cond post body _ =>
    (init.all Stmt.isForeseenInit && (init.any Stmt.isDefine || post.all Stmt.isForeseenInit)) &&
      (Stmt.foreseenIn init && Expr.foreseenIn cond && Stmt.foreseenIn post && body.foreseen)
  | .go call _ => call.foreseen
  | .ifElse init cond thenBranch elseBranch _ =>
    (init.all Stmt.isForeseenInit &&
      elseBranch.all fun node => node.isBranchBody || Stmt.areForeseen [node]) &&
      (Stmt.foreseenIn init && cond.foreseen && thenBranch.foreseen && Stmt.foreseenIn elseBranch)
  | .incDec target _ _ => target.foreseen
  | .labeled _ body _ => body.foreseen
  | .range key value _ subject body _ =>
    Expr.foreseenIn key && Expr.foreseenIn value && subject.foreseen && body.foreseen
  | .ret values _ => Expr.foreseenAll values
  | .select clauses _ => CommClause.foreseenAll clauses
  | .send channel value _ => channel.foreseen && value.foreseen
  | .switch init tag clauses _ =>
    init.all Stmt.isForeseenInit &&
      (Stmt.foreseenIn init && Expr.foreseenIn tag && CaseClause.foreseenAll false clauses)
  | .typeSwitch init binding subject clauses _ =>
    (init.all Stmt.isForeseenInit || binding.any (!·.isBlank)) &&
      (Stmt.foreseenIn init && subject.foreseen &&
        CaseClause.foreseenAll (binding.any (!·.isBlank)) clauses)

def Stmt.foreseenAll : List Stmt → Bool
  | [] => true
  | node :: rest => node.foreseen && Stmt.foreseenAll rest

def Stmt.foreseenIn : Option Stmt → Bool
  | none => true
  | some node => node.foreseen

/-- A clause that declares a variable of its own has an environment in any case. -/
def CaseClause.foreseenAll (declares : Bool) : List CaseClause → Bool
  | [] => true
  | .mk none body _ :: rest =>
    ((declares || Stmt.areForeseen body) && Stmt.foreseenAll body) &&
      CaseClause.foreseenAll declares rest
  | .mk (some list) body _ :: rest =>
    ((declares || Stmt.areForeseen body) && (Expr.foreseenAll list && Stmt.foreseenAll body)) &&
      CaseClause.foreseenAll declares rest

def CommClause.foreseenAll : List CommClause → Bool
  | [] => true
  | .mk comm body _ :: rest =>
    (CommClause.isForeseen comm body && (Stmt.foreseenIn comm && Stmt.foreseenAll body)) &&
      CommClause.foreseenAll rest

def Decl.foreseen : Decl → Bool
  | .var specs _ | .const specs _ => ValueSpec.foreseenAll specs
  | .type _ _ => true
  | .func _ _ (.mk statements _) _ => Stmt.foreseenAll statements

def ValueSpec.foreseenAll : List ValueSpec → Bool
  | [] => true
  | .mk _ _ values _ :: rest => Expr.foreseenAll values && ValueSpec.foreseenAll rest

end

def Frame.taken (frame : Frame) : Nat := frame.objects + frame.words

namespace Frame

variable {frame after : Frame} {span : Span}

theorem allocate_taken (frame : Frame) (type : Ty) : (frame.allocate type).2.taken = frame.taken + 1 := by
  unfold allocate taken
  split <;> dsimp only <;> omega

theorem declareSymbol_taken {name : String} {symbol : Symbol}
    (compiled : frame.declareSymbol name symbol span = .ok after) : after.taken = frame.taken := by
  unfold declareSymbol at compiled
  split at compiled
  · obtain rfl := Compiled.pure_eq_ok.mp compiled
    rfl
  · split at compiled
    · simp at compiled
    · obtain rfl := Compiled.pure_eq_ok.mp compiled
      rfl

theorem declareVar_taken {name : String} {type : Ty} {slot : Option Slot}
    (compiled : frame.declareVar name type span = .ok (slot, after)) :
    after.taken = frame.taken + (if name == "_" then 0 else 1) := by
  unfold declareVar at compiled
  split at compiled
  · next blank =>
    obtain ⟨-, rfl⟩ := Prod.mk.inj (Compiled.pure_eq_ok.mp compiled)
    rw [if_pos blank, Nat.add_zero]
  · next named =>
    split at compiled
    · simp at compiled
    · obtain ⟨-, rfl⟩ := Prod.mk.inj (Compiled.pure_eq_ok.mp compiled)
      rw [if_neg named]
      exact frame.allocate_taken type

theorem declareVars_taken {names : List (Ident × Ty)} {slots : List (Option Slot)}
    (compiled : frame.declareVars names = .ok (slots, after)) :
    after.taken = frame.taken + names.countP (!·.1.isBlank) := by
  induction names generalizing frame slots with
  | nil =>
    obtain ⟨-, rfl⟩ := Prod.mk.inj (Compiled.pure_eq_ok.mp compiled)
    rfl
  | cons entry rest ih =>
    simp only [declareVars, Compiled.bind_eq_ok, Prod.exists, Compiled.pure_eq_ok,
      Prod.mk.injEq] at compiled
    obtain ⟨slot, middle, first, others, last, declared, -, rfl⟩ := compiled
    rw [ih declared, declareVar_taken first, List.countP_cons, Ident.isBlank]
    cases entry.1.name == "_" <;> simp only [Bool.not_true, Bool.not_false, if_true, if_false,
      Bool.false_eq_true] <;> omega

end Frame

theorem Definition.add_taken {definition result : Definition} {target : Expr} {type : Ty}
    (compiled : definition.add target type = .ok result) :
    definition.frame.taken < result.frame.taken ∨
      result.frame = definition.frame ∧ result.fresh = definition.fresh := by
  unfold Definition.add at compiled
  split at compiled
  · simp at compiled
  · next ident _ =>
    split at compiled
    · simp at compiled
    split at compiled
    · obtain rfl := Compiled.pure_eq_ok.mp compiled
      exact .inr ⟨rfl, rfl⟩
    next named =>
    split at compiled
    · simp at compiled
    split at compiled
    · obtain rfl := Compiled.pure_eq_ok.mp compiled
      exact .inr ⟨rfl, rfl⟩
    · simp at compiled
    · simp only [Compiled.bind_eq_ok, Prod.exists] at compiled
      obtain ⟨slot, after, declared, compiled⟩ := compiled
      have more := Frame.declareVar_taken declared
      rw [if_neg (by simpa [Ident.isBlank] using named)] at more
      cases slot with
      | none =>
        obtain rfl := Compiled.pure_eq_ok.mp compiled
        exact .inr ⟨rfl, rfl⟩
      | some slot =>
        obtain rfl := Compiled.pure_eq_ok.mp compiled
        exact .inl (by simp only [more]; omega)

theorem Definition.addAll_taken {definition result : Definition} {targets : List Expr}
    {types : List Ty} (compiled : definition.addAll targets types = .ok result) :
    definition.frame.taken ≤ result.frame.taken ∧
      (result.fresh = true → definition.fresh = true ∨
        definition.frame.taken < result.frame.taken) := by
  induction targets generalizing definition types with
  | nil =>
    obtain rfl := Compiled.pure_eq_ok.mp compiled
    exact ⟨Nat.le_refl _, .inl⟩
  | cons target targets ih =>
    cases types with
    | nil =>
      obtain rfl := Compiled.pure_eq_ok.mp compiled
      exact ⟨Nat.le_refl _, .inl⟩
    | cons type types =>
      simp only [Definition.addAll, Compiled.bind_eq_ok] at compiled
      obtain ⟨middle, added, rest⟩ := compiled
      obtain ⟨le, fresh⟩ := ih rest
      rcases Definition.add_taken added with more | ⟨sameFrame, sameFresh⟩
      · exact ⟨by omega, fun _ => .inr (by omega)⟩
      · rw [sameFrame, sameFresh] at fresh
        exact ⟨sameFrame ▸ le, fresh⟩

theorem define_taken {frame : Frame} {lhs : List Expr} {rhs : Rhs} {span : Span} {piece : Piece}
    (compiled : define frame lhs rhs span = .ok piece) : frame.taken < piece.frame.taken := by
  simp only [define, Compiled.bind_eq_ok] at compiled
  obtain ⟨types, -, definition, added, compiled⟩ := compiled
  split at compiled
  · simp at compiled
  · next fresh =>
    simp only [Compiled.bind_eq_ok, Compiled.pure_eq_ok] at compiled
    obtain ⟨values, -, rfl⟩ := compiled
    obtain ⟨-, grown⟩ := Definition.addAll_taken added
    simpa [Piece.one, Fragment.within] using grown (by simpa using fresh)

namespace Compile

variable {outer : Scope} {frame after : Frame} {here : Nat} {piece : Piece}

theorem typeSpecs_taken {specs : List TypeSpec} (compiled : typeSpecs outer frame specs = .ok after) :
    after.taken = frame.taken := by
  induction specs generalizing frame with
  | nil =>
    obtain rfl := Compiled.pure_eq_ok.mp compiled
    rfl
  | cons spec rest ih =>
    simp only [typeSpecs, Compiled.bind_eq_ok] at compiled
    obtain ⟨type, -, middle, declared, compiled⟩ := compiled
    rw [ih compiled, Frame.declareSymbol_taken declared]

theorem constValues_taken {declared : Option Ty} {names : List Ident} {nodes : List Expr}
    (compiled : constValues outer frame declared names nodes = .ok after) :
    after.taken = frame.taken := by
  induction nodes generalizing frame names with
  | nil =>
    rw [constValues] at compiled
    obtain rfl := Compiled.pure_eq_ok.mp compiled
    rfl
  | cons node rest ih =>
    cases names with
    | nil =>
      rw [constValues] at compiled
      obtain rfl := Compiled.pure_eq_ok.mp compiled
      rfl
    | cons name names =>
      simp only [constValues, Compiled.bind_eq_ok, Prod.exists] at compiled
      obtain ⟨operand, -, value, type, -, middle, declared, compiled⟩ := compiled
      rw [ih compiled, Frame.declareSymbol_taken declared]

theorem constSpecs_taken {specs : List ValueSpec} (compiled : constSpecs outer frame specs = .ok after) :
    after.taken = frame.taken := by
  induction specs generalizing frame with
  | nil =>
    rw [constSpecs] at compiled
    obtain rfl := Compiled.pure_eq_ok.mp compiled
    rfl
  | cons spec rest ih =>
    obtain ⟨names, written, values, span⟩ := spec
    simp only [constSpecs] at compiled
    split at compiled
    · simp at compiled
    · simp only [Compiled.bind_eq_ok] at compiled
      obtain ⟨declared, -, middle, each, compiled⟩ := compiled
      rw [ih compiled, constValues_taken each]

theorem varSpecs_taken {specs : List ValueSpec} (compiled : varSpecs outer frame here specs = .ok piece) :
    piece.frame.taken =
      frame.taken + (specs.map fun spec => spec.names.countP (!·.isBlank)).sum := by
  induction specs generalizing frame here piece with
  | nil =>
    rw [varSpecs] at compiled
    obtain rfl := Compiled.pure_eq_ok.mp compiled
    rfl
  | cons spec rest ih =>
    obtain ⟨names, written, values, span⟩ := spec
    simp only [varSpecs, declareInit, Compiled.bind_eq_ok, Compiled.pure_eq_ok, Prod.exists] at compiled
    obtain ⟨declared, -, given, -, types, codes, initial, first, ⟨slots, middle, each, rfl⟩,
      others, compiled, rfl⟩ := compiled
    have count : (names.zip types).countP (!·.1.isBlank) = names.countP (!·.isBlank) := by
      have projected : (names.zip types).map Prod.fst = names :=
        List.map_fst_zip (Nat.le_of_eq (initValues_length initial).symm)
      conv_rhs => rw [← projected, List.countP_map]
      rfl
    have more := Frame.declareVars_taken each
    have rest := ih compiled
    simp only [Piece.one, Fragment.within, ValueSpec.names, List.map_cons, List.sum_cons] at rest ⊢
    omega

theorem sum_pos_iff_any (specs : List ValueSpec) :
    0 < (specs.map fun spec => spec.names.countP (!·.isBlank)).sum ↔
      (specs.any fun spec => spec.names.any (!·.isBlank)) = true := by
  induction specs with
  | nil => simp
  | cons spec rest ih =>
    simp only [List.map_cons, List.sum_cons, List.any_cons, Bool.or_eq_true, ← ih]
    have here : spec.names.any (!·.isBlank) = true ↔ 0 < spec.names.countP (!·.isBlank) := by
      simp [List.countP_pos_iff, List.any_eq_true]
    rw [here]
    omega

def Takes (binds : Bool) (frame after : Frame) : Prop :=
  (binds = true → frame.taken < after.taken) ∧ (binds = false → after.taken = frame.taken)

theorem Takes.none (same : after.taken = frame.taken) : Takes false frame after :=
  ⟨fun binds => Bool.noConfusion binds, fun _ => same⟩

theorem Takes.some (more : frame.taken < after.taken) : Takes true frame after :=
  ⟨fun _ => more, fun binds => Bool.noConfusion binds⟩

theorem Takes.and {first second : Bool} {last : Frame} (left : Takes first frame after)
    (right : Takes second after last) : Takes (first || second) frame last := by
  have le {binds : Bool} {before now : Frame} (takes : Takes binds before now) :
      before.taken ≤ now.taken := by
    cases binds with
    | false => exact Nat.le_of_eq (takes.2 rfl).symm
    | true => exact Nat.le_of_lt (takes.1 rfl)
  have atRight := le right
  cases first with
  | true => exact .some (Nat.lt_of_lt_of_le (left.1 rfl) atRight)
  | false =>
    have same := left.2 rfl
    cases second with
    | true => exact .some (same ▸ right.1 rfl)
    | false => exact .none ((right.2 rfl).trans same)

theorem decl_takes (declaration : Decl) (compiled : decl outer frame here declaration = .ok piece) :
    Takes (Stmt.declares (.decl declaration)) frame piece.frame := by
  cases declaration with
  | var specs _ =>
    rw [decl] at compiled
    have more := varSpecs_taken compiled
    have positive := sum_pos_iff_any specs
    simp only [Stmt.declares]
    cases any : specs.any fun spec => spec.names.any (!·.isBlank) with
    | true => exact .some (by rw [any] at positive; simp only [iff_true] at positive; omega)
    | false =>
      exact .none (by
        rw [any] at positive
        simp only [Bool.false_eq_true, iff_false] at positive
        omega)
  | const specs _ =>
    simp only [decl, Compiled.bind_eq_ok, Compiled.pure_eq_ok] at compiled
    obtain ⟨after, declared, rfl⟩ := compiled
    exact .none (constSpecs_taken declared)
  | type specs _ =>
    simp only [decl, Compiled.bind_eq_ok, Compiled.pure_eq_ok] at compiled
    obtain ⟨after, declared, rfl⟩ := compiled
    exact .none (typeSpecs_taken declared)
  | func name head body _ =>
    simp only [decl, Compiled.bind_eq_ok, Prod.exists] at compiled
    obtain ⟨signature, -, slot, after, declared, compiledBody, -, compiled⟩ := compiled
    have more := Frame.declareVar_taken declared
    have same : piece.frame = after := by
      cases slot <;> simp only [Compiled.pure_eq_ok] at compiled <;> exact compiled ▸ rfl
    rw [same]
    simp only [Stmt.declares, Ident.isBlank]
    cases blank : name.name == "_" with
    | true => exact .none (by simpa [blank] using more)
    | false => exact .some (by simp only [blank, Bool.false_eq_true, if_false] at more; omega)

theorem stmt_takes {labels : List String} (node : Stmt)
    (compiled : stmt outer frame here labels node = .ok piece) :
    Takes node.binds frame piece.frame := by
  match node with
  | .empty _ =>
    simp only [stmt, Compiled.pure_eq_ok] at compiled
    exact compiled ▸ .none rfl
  | .bad _ | .caseClause _ | .commClause _ => simp [stmt] at compiled
  | .labeled _ body _ =>
    rw [stmt] at compiled
    exact stmt_takes body compiled
  | .decl declaration =>
    rw [stmt] at compiled
    exact decl_takes declaration compiled
  | .assign lhs op rhsNodes _ =>
    cases op with
    | define =>
      simp only [stmt, Compiled.bind_eq_ok] at compiled
      obtain ⟨values, -, defined⟩ := compiled
      exact .some (define_taken defined)
    | assign =>
      simp only [stmt, Compiled.bind_eq_ok, Compiled.pure_eq_ok] at compiled
      obtain ⟨targets, -, values, -, fragment, -, rfl⟩ := compiled
      exact .none rfl
    | compound op =>
      simp only [stmt] at compiled
      split at compiled
      · simp at compiled
      simp only [Compiled.bind_eq_ok] at compiled
      obtain ⟨-, -, targets, -, compiled⟩ := compiled
      split at compiled
      · simp only [Compiled.bind_eq_ok] at compiled
        obtain ⟨type, -, operands, -, compiled⟩ := compiled
        split at compiled
        · simp only [Compiled.bind_eq_ok, Compiled.pure_eq_ok] at compiled
          obtain ⟨fragment, -, rfl⟩ := compiled
          exact .none rfl
        · simp at compiled
      · simp at compiled
  | .expr operand =>
    simp only [stmt, Compiled.bind_eq_ok] at compiled
    obtain ⟨found, -, compiled⟩ := compiled
    split at compiled <;> (obtain rfl := Compiled.pure_eq_ok.mp compiled; exact .none rfl)
  | .ret values _ =>
    simp only [stmt, Compiled.bind_eq_ok, Prod.exists] at compiled
    obtain ⟨hops, info, -, compiled⟩ := compiled
    split at compiled
    · split at compiled
      · simp at compiled
      · obtain rfl := Compiled.pure_eq_ok.mp compiled
        exact .none rfl
    · simp only [Compiled.bind_eq_ok, Compiled.pure_eq_ok] at compiled
      obtain ⟨operands, -, fragment, -, rfl⟩ := compiled
      exact .none rfl
  | .block _ | .branch _ _ _ | .go _ _ | .forLoop _ _ _ _ _ | .ifElse _ _ _ _ _
  | .range _ _ _ _ _ _ | .switch _ _ _ _ | .typeSwitch _ _ _ _ _ =>
    simp only [stmt, Compiled.bind_eq_ok, Compiled.pure_eq_ok] at compiled
    obtain ⟨fragment, -, rfl⟩ := compiled
    exact .none rfl
  | .defer _ _ | .select _ _ =>
    simp only [stmt, Compiled.bind_eq_ok, Compiled.pure_eq_ok] at compiled
    obtain ⟨-, -, fragment, -, rfl⟩ := compiled
    exact .none rfl
  | .incDec _ _ _ =>
    simp only [stmt, Compiled.bind_eq_ok, Compiled.pure_eq_ok] at compiled
    obtain ⟨target, -, type, -, fragment, -, rfl⟩ := compiled
    exact .none rfl
  | .send _ _ _ =>
    simp only [stmt, Compiled.bind_eq_ok, Compiled.pure_eq_ok] at compiled
    obtain ⟨channel, -, type, -, elem, -, value, -, converted, -, rfl⟩ := compiled
    exact .none rfl

theorem stmts_takes {clause : Bool} (nodes : List Stmt)
    (compiled : stmts outer frame here clause nodes = .ok piece) :
    Takes (nodes.any Stmt.binds) frame piece.frame := by
  induction nodes generalizing frame here piece with
  | nil =>
    rw [stmts] at compiled
    obtain rfl := Compiled.pure_eq_ok.mp compiled
    exact .none rfl
  | cons node rest ih =>
    rw [stmts] at compiled
    split at compiled
    · next last =>
      obtain rfl := Compiled.pure_eq_ok.mp compiled
      simp only [Bool.and_eq_true, List.isEmpty_iff] at last
      obtain ⟨⟨-, rfl⟩, isFallthrough⟩ := last
      cases node <;> simp [Stmt.isFallthrough] at isFallthrough
      exact .none rfl
    · simp only [Compiled.bind_eq_ok, Compiled.pure_eq_ok] at compiled
      obtain ⟨first, compiledFirst, others, compiledOthers, rfl⟩ := compiled
      have later := ih compiledOthers
      exact (stmt_takes node compiledFirst).and later

end Compile

end MiniGo
