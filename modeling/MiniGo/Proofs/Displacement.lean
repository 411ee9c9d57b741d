import MiniGo.Proofs.Branching
/-!
The same statement at two positions. A position has a part in the jumps only: wherever a statement
stands, it is compiled with the same fault or with none, and it leaves the same frame behind.
-/

namespace MiniGo

/-- Two compilations stop with the same fault, or give results that look the same. -/
abbrev Alike {α γ : Type} (look : α → γ) (left right : Compiled α) : Prop :=
  Compared (fun _ => False) (fun first second => look first = look second) left right

namespace Alike

variable {α γ : Type} {look : α → γ} {left right : Compiled α}

theorem refl (look : α → γ) (compiled : Compiled α) : Alike look compiled compiled := by
  cases compiled with
  | error error => exact .same error
  | ok result => exact .ok rfl

theorem error_iff (alike : Alike look left right) (error : CompileError) :
    left = .error error ↔ right = .error error := by
  cases alike with
  | same error => exact Iff.rfl
  | stop right stops => exact stops.elim
  | ok same => simp

theorem symm (alike : Alike look left right) : Alike look right left := by
  cases alike with
  | same error => exact .same error
  | stop right stops => exact stops.elim
  | ok same => exact .ok same.symm

theorem trans {last : Compiled α} (alike : Alike look left right) (other : Alike look right last) :
    Alike look left last := by
  cases alike with
  | same error => exact other
  | stop right stops => exact stops.elim
  | ok same =>
    cases other with
    | ok further => exact .ok (same.trans further)

end Alike

variable {here there : Nat} {span : Span}

def Movable {α γ : Type} (look : α → γ) (part : Nat → Compiled α) : Prop :=
  ∀ here there, Alike look (part here) (part there)

abbrev Movable.fragment (part : Nat → Compiled Fragment) : Prop := Movable (fun _ => ()) part

theorem inScope_alike {owned : Bool} {left right : Frame → Nat → Compiled Piece}
    (inside : Alike Piece.frame (left { owned } (here + owned.toNat))
      (right { owned } (there + owned.toNat))) :
    Alike (fun _ => ()) (inScope owned span here left) (inScope owned span there right) := by
  have position (here : Nat) : (if owned then here + 1 else here) = here + owned.toNat := by
    cases owned <;> rfl
  unfold inScope
  rw [position, position]
  refine inside.bind fun first second same => ?_
  dsimp only
  rw [same]
  cases owned <;> simp only [if_true, Bool.false_eq_true, if_false] <;> split
  · exact .same _
  · exact .ok trivial
  · exact .same _
  · exact .ok trivial

theorem branches_alike {cond other : Cond} {condSpan otherSpan : Span}
    {thenPart : Nat → Compiled Fragment} {elsePart : Option (Nat → Compiled Fragment)}
    (yes : Movable.fragment thenPart) (no : ∀ part, elsePart = some part → Movable.fragment part) :
    Alike (fun _ => ()) (branches cond here condSpan span thenPart elsePart)
      (branches other there otherSpan span thenPart elsePart) := by
  cases cond <;> cases other <;>
  · refine (yes _ _).bind fun _ _ _ => ?_
    cases elsePart with
    | none => exact .ok rfl
    | some part => exact (no part rfl _ _).bind fun _ _ _ => .ok rfl

theorem loop_alike {cond other : Cond} {level : Nat} {body : Nat → Compiled Fragment}
    {post : Nat → Compiled Piece} (again : Movable.fragment body) (next : Movable Piece.frame post) :
    Alike Piece.frame (loop cond level here span body post) (loop other level there span body post) := by
  let parts : Compiled Piece := do
    let _ ← body 0
    let post ← post 0
    pure (.none post.frame)
  have alike (cond : Cond) (here : Nat) :
      Alike Piece.frame (loop cond level here span body post) parts := by
    unfold loop
    split <;> exact (again _ _).bind fun _ _ _ => (next _ _).bind fun _ _ same => .ok same
  exact (alike cond here).trans (alike other there).symm

namespace Compile

mutual

theorem stmt_alike (outer : Scope) (frame : Frame) (labels : List String) : (node : Stmt) →
    Movable Piece.frame fun here => stmt outer frame here labels node
  | .labeled label body _ => by
    intro here there
    simp only [stmt]
    exact stmt_alike outer frame (labels ++ [label.name]) body here there
  | .block body => by
    intro here there
    simp only [stmt]
    exact (block_alike _ body here there).bind fun _ _ _ => .ok rfl
  | .decl declaration => by
    intro here there
    simp only [stmt]
    exact decl_alike outer frame declaration here there
  | .ifElse init cond thenBranch elseBranch span => by
    intro here there
    simp only [stmt]
    refine (inScope_alike ((initStmt_alike _ _ init _ _).bind fun first second same => ?_)).bind
      fun _ _ _ => .ok rfl
    rw [same]
    refine Compared.shared fun operand _ => Compared.shared fun test _ => ?_
    refine (branches_alike (block_alike _ thenBranch) fun part isPart => ?_).bind fun _ _ _ => .ok rfl
    split at isPart
    · obtain rfl := Option.some.inj isPart
      exact elseStmt_alike _ _ elseBranch
    · cases isPart
  | .forLoop init cond post body span => by
    intro here there
    simp only [stmt]
    refine (inScope_alike ((initStmt_alike _ _ init _ _).bind fun first second same => ?_)).bind
      fun _ _ _ => .ok rfl
    rw [same]
    refine Compared.shared fun test _ => ?_
    exact (loop_alike (block_alike _ body) (postStmt_alike _ _ post)).bind fun _ _ same => .ok same
  | .range key value isDefine subject body span => by
    intro here there
    simp only [stmt]
    refine (inScope_alike ?_).bind fun _ _ _ => .ok rfl
    refine Compared.shared fun operand _ => Compared.shared fun type _ =>
      Compared.shared fun shape _ => ?_
    obtain ⟨kind, keyType, valueType⟩ := shape
    dsimp only
    split
    · exact .same _
    refine Compared.shared fun keyTarget _ => Compared.shared fun valueTarget _ => ?_
    exact (block_alike _ body _ _).bind fun _ _ _ => .ok rfl
  | .switch init tag clauses span => by
    intro here there
    simp only [stmt]
    refine (inScope_alike ((initStmt_alike _ _ init _ _).bind fun first second same => ?_)).bind
      fun _ _ _ => .ok rfl
    rw [same]
    refine Compared.shared fun tag _ => Compared.shared fun type _ => Compared.shared fun default _ =>
      Compared.shared fun cases _ => ?_
    exact (switchBodies_alike _ clauses _ _).bind fun _ _ _ => .ok rfl
  | .typeSwitch init binding subject clauses span => by
    intro here there
    simp only [stmt]
    refine (inScope_alike ((initStmt_alike _ _ init _ _).bind fun first second same => ?_)).bind
      fun _ _ _ => .ok rfl
    rw [same]
    refine Compared.shared fun operand _ => Compared.shared fun subject _ =>
      Compared.shared fun default _ =>
      Compared.shared fun types _ => ?_
    exact (typeSwitchBodies_alike _ _ _ clauses _ _).bind fun _ _ _ => .ok rfl
  | .select clauses span => by
    intro here there
    simp only [stmt]
    refine Compared.shared fun default _ => (inScope_alike ?_).bind fun _ _ _ => .ok rfl
    refine Compared.shared fun comms _ => ?_
    exact (selectBodies_alike _ _ _ clauses _ _).bind fun _ _ _ => .ok rfl
  | .empty _ | .bad _ | .assign .. | .branch .. | .caseClause _ | .commClause _ | .defer .. | .expr _
  | .go .. | .incDec .. | .ret .. | .send .. => by
    intro here there
    simp only [stmt]
    exact .refl _ _

theorem stmts_alike (outer : Scope) (frame : Frame) (clause : Bool) : (nodes : List Stmt) →
    Movable Piece.frame fun here => stmts outer frame here clause nodes
  | [] => fun here there => by
    simp only [stmts]
    exact .refl _ _
  | node :: rest => fun here there => by
    simp only [stmts]
    split
    · exact .refl _ _
    refine (stmt_alike outer frame [] node here there).bind fun first second same => ?_
    rw [same]
    exact (stmts_alike outer second.frame clause rest _ _).bind fun _ _ same => .ok same

theorem scopedStmts_alike (scope : Scope) (clause : Bool) (span : Span) : (nodes : List Stmt) →
    Movable.fragment fun here => scopedStmts scope here clause span nodes
  | [] => fun here there => by
    simp only [scopedStmts]
    exact .refl _ _
  | node :: rest => fun here there => by
    simp only [scopedStmts]
    refine inScope_alike ?_
    split
    · exact .refl _ _
    refine (stmt_alike scope _ [] node _ _).bind fun first second same => ?_
    rw [same]
    exact (stmts_alike scope second.frame clause rest _ _).bind fun _ _ same => .ok same

theorem block_alike (scope : Scope) : (body : Block) → Movable.fragment fun here => block scope here body
  | .mk statements span => fun here there => by
    simp only [block]
    exact scopedStmts_alike scope false span statements here there

theorem elseStmt_alike (outer : Scope) (frame : Frame) : (node : Option Stmt) →
    Movable.fragment fun here => elseStmt outer frame here node
  | none => fun here there => by
    simp only [elseStmt]
    exact .refl _ _
  | some node => fun here there => by
    simp only [elseStmt]
    split
    · exact (stmt_alike outer frame [] node here there).bind fun _ _ _ => .ok rfl
    · exact inScope_alike (stmt_alike _ _ [] node _ _)

theorem initStmt_alike (outer : Scope) (frame : Frame) : (node : Option Stmt) →
    Movable Piece.frame fun here => initStmt outer frame here node
  | none => fun here there => by
    simp only [initStmt]
    exact .refl _ _
  | some node => fun here there => by
    simp only [initStmt]
    exact stmt_alike outer frame [] node here there

theorem postStmt_alike (outer : Scope) (frame : Frame) : (node : Option Stmt) →
    Movable Piece.frame fun here => postStmt outer frame here node
  | none => fun here there => by
    simp only [postStmt]
    exact .refl _ _
  | some node => fun here there => by
    simp only [postStmt]
    split
    · exact .same _
    · exact stmt_alike outer frame [] node here there

theorem switchBodies_alike (scope : Scope) : (clauses : List CaseClause) →
    Movable (fun _ => ()) fun here => switchBodies scope here clauses
  | [] => fun here there => by
    simp only [switchBodies]
    exact .refl _ _
  | .mk _ statements span :: rest => fun here there => by
    simp only [switchBodies]
    split
    · exact .same _
    refine (scopedStmts_alike scope true span statements here there).bind fun _ _ _ => ?_
    exact (switchBodies_alike scope rest _ _).bind fun _ _ _ => .ok rfl

theorem typeSwitchBodies_alike (scope : Scope) (parked : Option (Ident × Slot)) (types : List Ty) :
    (clauses : List CaseClause) →
    Movable (fun _ => ()) fun here => typeSwitchBodies scope parked types here clauses
  | [] => fun here there => by
    simp only [typeSwitchBodies]
    exact .refl _ _
  | .mk _ statements span :: rest => fun here there => by
    simp only [typeSwitchBodies]
    split
    · exact .same _
    cases parked with
    | none =>
      refine (scopedStmts_alike scope false span statements here there).bind fun _ _ _ => ?_
      exact (typeSwitchBodies_alike scope none types.tail rest _ _).bind fun _ _ _ => .ok rfl
    | some found =>
      refine (inScope_alike (Compared.shared fun declared _ => ?_)).bind fun _ _ _ => ?_
      · exact (stmts_alike scope _ false statements _ _).bind fun _ _ same => .ok same
      · exact (typeSwitchBodies_alike scope (some found) types.tail rest _ _).bind fun _ _ _ => .ok rfl

theorem selectBodies_alike (scope : Scope) (parked : Option (Slot × Slot))
    (receives : List (Option Receive)) : (clauses : List CommClause) →
    Movable (fun _ => ()) fun here => selectBodies scope parked receives here clauses
  | [] => fun here there => by
    simp only [selectBodies]
    exact .refl _ _
  | .mk _ statements span :: rest => fun here there => by
    simp only [selectBodies]
    have following (first second : Nat) : Alike (fun _ => ())
        (selectBodies scope parked receives.tail first rest)
        (selectBodies scope parked receives.tail second rest) :=
      selectBodies_alike scope parked receives.tail rest first second
    split
    · refine (inScope_alike (Compared.shared fun declared _ => ?_)).bind fun _ _ _ =>
        (following _ _).bind fun _ _ _ => .ok rfl
      exact (stmts_alike scope _ false statements _ _).bind fun _ _ same => .ok same
    · exact (scopedStmts_alike scope false span statements _ _).bind fun _ _ _ =>
        (following _ _).bind fun _ _ _ => .ok rfl
    · exact (scopedStmts_alike scope false span statements _ _).bind fun _ _ _ =>
        (following _ _).bind fun _ _ _ => .ok rfl

theorem decl_alike (outer : Scope) (frame : Frame) : (declaration : Decl) →
    Movable Piece.frame fun here => decl outer frame here declaration
  | .var specs _ => fun here there => by
    simp only [decl]
    exact varSpecs_alike outer frame specs here there
  | .const .. | .type .. | .func .. => fun here there => by
    simp only [decl]
    exact .refl _ _

theorem varSpecs_alike (outer : Scope) (frame : Frame) : (specs : List ValueSpec) →
    Movable Piece.frame fun here => varSpecs outer frame here specs
  | [] => fun here there => by
    simp only [varSpecs]
    exact .refl _ _
  | .mk names written values span :: rest => fun here there => by
    simp only [varSpecs]
    refine Compared.shared fun declared _ => Compared.shared fun operands _ =>
      Compared.shared fun found _ => Compared.shared fun first _ => ?_
    exact (varSpecs_alike outer first.frame rest _ _).bind fun _ _ same => .ok same

end

end Compile

end MiniGo
