import MiniGo.Proofs.Statements
/-!
Statements around a statement. A shell is a statement without one of the statements inside it, other
than those of a function literal; shells around each other make a path. Which statement around it a
`break` or a `continue` belongs to can be read off the path, and so can the number of environments that
are entered on the way.

The compiler finds the same by going through the frames of its scope. Frames keep what they offer while
names are declared in them.
-/

namespace MiniGo

structure Row where
  before : List Stmt
  after : List Stmt

namespace Row

def fill (row : Row) (node : Stmt) : List Stmt := row.before ++ node :: row.after

def declares (row : Row) : Bool := row.before.any Stmt.declares || row.after.any Stmt.declares

end Row

/-- A statement without one of the statements inside it. -/
inductive Shell
  | labeled (label : Ident) (span : Span)
  | block (row : Row) (span : Span)
  | ifInit (cond : Expr) (thenBranch : Block) (elseBranch : Option Stmt) (span : Span)
  | ifThen (init : Option Stmt) (cond : Expr) (row : Row) (body : Span) (elseBranch : Option Stmt)
      (span : Span)
  | ifElse (init : Option Stmt) (cond : Expr) (thenBranch : Block) (span : Span)
  | forInit (cond : Option Expr) (post : Option Stmt) (body : Block) (span : Span)
  | forBody (init : Option Stmt) (cond : Option Expr) (post : Option Stmt) (row : Row)
      (body span : Span)
  | forPost (init : Option Stmt) (cond : Option Expr) (body : Block) (span : Span)
  | rangeBody (key value : Option Expr) (define : Bool) (subject : Expr) (row : Row)
      (body span : Span)
  | switchInit (tag : Option Expr) (clauses : List CaseClause) (span : Span)
  | switchClause (init : Option Stmt) (tag : Option Expr) (first : List CaseClause)
      (list : Option (List Expr)) (row : Row) (clause : Span) (last : List CaseClause) (span : Span)
  | typeSwitchInit (binding : Option Ident) (subject : Expr) (clauses : List CaseClause) (span : Span)
  | typeSwitchClause (init : Option Stmt) (binding : Option Ident) (subject : Expr)
      (first : List CaseClause) (list : Option (List Expr)) (row : Row) (clause : Span)
      (last : List CaseClause) (span : Span)
  | selectClause (first : List CommClause) (comm : Option Stmt) (row : Row) (clause : Span)
      (last : List CommClause) (span : Span)

def CommClause.takes (clause : CommClause) : Bool :=
  match clause.comm with
  | some (.assign ..) => true
  | _ => false

namespace Stmt

/-- The statement pushes an environment of its own, apart from those of the blocks in it. -/
def ownsEnv : Stmt → Bool
  | ifElse init .. | forLoop init .. | switch init .. => init.any isDefine
  | typeSwitch init binding .. => init.any isDefine || (binding.filter (!·.isBlank)).isSome
  | range .. => true
  | select clauses _ => clauses.any CommClause.takes
  | _ => false

def idle (span : Span) : Stmt := expr (.call (.func {} (.mk [] {}) {}) [] false span)

end Stmt

namespace Shell

def fill (node : Stmt) : Shell → Stmt
  | labeled label span => .labeled label node span
  | block row span => .block (.mk (row.fill node) span)
  | ifInit cond thenBranch elseBranch span => .ifElse (some node) cond thenBranch elseBranch span
  | ifThen init cond row body elseBranch span =>
    .ifElse init cond (.mk (row.fill node) body) elseBranch span
  | ifElse init cond thenBranch span => .ifElse init cond thenBranch (some node) span
  | forInit cond post body span => .forLoop (some node) cond post body span
  | forBody init cond post row body span => .forLoop init cond post (.mk (row.fill node) body) span
  | forPost init cond body span => .forLoop init cond (some node) body span
  | rangeBody key value define subject row body span =>
    .range key value define subject (.mk (row.fill node) body) span
  | switchInit tag clauses span => .switch (some node) tag clauses span
  | switchClause init tag first list row clause last span =>
    .switch init tag (first ++ .mk list (row.fill node) clause :: last) span
  | typeSwitchInit binding subject clauses span => .typeSwitch (some node) binding subject clauses span
  | typeSwitchClause init binding subject first list row clause last span =>
    .typeSwitch init binding subject (first ++ .mk list (row.fill node) clause :: last) span
  | selectClause first comm row clause last span =>
    .select (first ++ .mk comm (row.fill node) clause :: last) span

def labels (outer : List String) : Shell → List String
  | labeled label _ => outer ++ [label.name]
  | _ => []

/-- The statement has an exit of a kind for the statement inside. What stands in its own init
statement does not belong to it. -/
def offers (kind : ExitKind) : Shell → Bool
  | forBody .. | forPost .. | rangeBody .. => true
  | switchClause .. | typeSwitchClause .. | selectClause .. => kind == .break
  | _ => false

/-- The statement has pushed an environment of its own before the one inside begins. -/
def owned : Shell → Bool
  | ifThen init .. | ifElse init .. | forBody init .. | forPost init .. | switchClause init .. =>
    init.any Stmt.isDefine
  | rangeBody .. => true
  | typeSwitchInit binding .. => (binding.filter (!·.isBlank)).isSome
  | typeSwitchClause init binding .. =>
    init.any Stmt.isDefine || (binding.filter (!·.isBlank)).isSome
  | selectClause first comm row clause last _ =>
    (first ++ .mk comm row.before clause :: last).any CommClause.takes
  | _ => false

/-- The block or clause inside has pushed an environment before the statement inside begins. -/
def enters : Shell → Bool
  | block row _ | ifThen _ _ row .. | forBody _ _ _ row .. | rangeBody _ _ _ _ row .. => row.declares
  | switchClause _ _ _ _ row .. => row.declares
  | typeSwitchClause _ binding _ _ _ row .. =>
    (binding.filter (!·.isBlank)).isSome || row.declares
  | selectClause _ comm row .. =>
    match comm with
    | some (.assign lhs .define _ _) => lhs.any (!·.isBlank)
    | _ => row.declares
  | _ => false

/-- Environments pushed between the start of the statement and the statement inside. -/
def depth (shell : Shell) : Nat := shell.owned.toNat + shell.enters.toNat

end Shell

abbrev Path := List Shell

namespace Path

def fill (node : Stmt) (path : Path) : Stmt := path.foldr (fun shell inner => shell.fill inner) node

def depth (path : Path) : Nat := (path.map Shell.depth).sum

/-- The way to the innermost statement that has an exit of a kind, and a label if one is asked for,
from that statement on. The labels are those of the outermost statement. -/
def target? (kind : ExitKind) (label : Option String) (labels : List String) : Path → Option Path
  | [] => none
  | shell :: rest =>
    (target? kind label (shell.labels labels) rest).or
      (if shell.offers kind && label.all labels.contains then some (shell :: rest) else none)

/-- Environments that are pushed inside the outermost statement, other than its own. -/
def hops : Path → Nat
  | [] => 0
  | shell :: rest => shell.enters.toNat + depth rest

end Path

/-- Two frames that offer the same to the statements in them. -/
structure Frame.Like (frame other : Frame) : Prop where
  owned : frame.owned = other.owned
  loop : frame.loop = other.loop
  func : frame.func = other.func

namespace Frame.Like

theorem refl (frame : Frame) : frame.Like frame := ⟨rfl, rfl, rfl⟩

theorem trans {first second third : Frame} (like : first.Like second) (other : second.Like third) :
    first.Like third :=
  ⟨like.owned.trans other.owned, like.loop.trans other.loop, like.func.trans other.func⟩

end Frame.Like

namespace Frame

variable {frame after : Frame} {span : Span} {name : String} {type : Ty}

theorem allocate_like (frame : Frame) (type : Ty) : (frame.allocate type).2.Like frame := by
  unfold allocate
  split <;> exact ⟨rfl, rfl, rfl⟩

theorem declareSymbol_like {symbol : Symbol}
    (declared : frame.declareSymbol name symbol span = .ok after) : after.Like frame := by
  unfold declareSymbol at declared
  split at declared
  · cases declared
    exact .refl _
  · split at declared
    · cases declared
    · cases declared
      exact ⟨rfl, rfl, rfl⟩

theorem declareVar_like {slot : Option Slot}
    (declared : frame.declareVar name type span = .ok (slot, after)) : after.Like frame := by
  unfold declareVar at declared
  split at declared
  · cases declared
    exact .refl _
  · split at declared
    · cases declared
    · cases declared
      have like := frame.allocate_like type
      exact ⟨like.owned, like.loop, like.func⟩

theorem declareVars_like {entries : List (Ident × Ty)} {slots : List (Option Slot)}
    (declared : frame.declareVars entries = .ok (slots, after)) : after.Like frame := by
  induction entries generalizing frame slots with
  | nil =>
    cases declared
    exact .refl _
  | cons entry rest ih =>
    simp only [declareVars, Compiled.bind_eq_ok] at declared
    obtain ⟨⟨slot, middle⟩, first, ⟨others, last⟩, second, ends⟩ := declared
    cases ends
    exact (ih second).trans (declareVar_like first)

theorem declareParams_like {entries : List (Option Ident × Ty)} {slots : List (Option Slot)}
    (declared : frame.declareParams entries = .ok (slots, after)) : after.Like frame := by
  induction entries generalizing frame slots with
  | nil =>
    cases declared
    exact .refl _
  | cons entry rest ih =>
    obtain ⟨ident, type⟩ := entry
    cases ident with
    | none =>
      simp only [declareParams, Compiled.bind_eq_ok] at declared
      obtain ⟨⟨others, last⟩, second, ends⟩ := declared
      cases ends
      exact ih second
    | some ident =>
      simp only [declareParams, Compiled.bind_eq_ok] at declared
      obtain ⟨⟨slot, middle⟩, first, ⟨others, last⟩, second, ends⟩ := declared
      cases ends
      exact (ih second).trans (declareVar_like first)

theorem declareResult_like {ident : Option Ident} {slot : Slot}
    (declared : frame.declareResult type ident = .ok (slot, after)) : after.Like frame := by
  have allocated {before : Frame} (same : (pure (before.allocate type) : Compiled _) =
      .ok (slot, after)) :
      after.Like before := by
    have like := before.allocate_like type
    rwa [Except.ok.inj same] at like
  cases ident with
  | none => exact allocated declared
  | some ident =>
    simp only [declareResult, Compiled.bind_eq_ok] at declared
    obtain ⟨⟨_ | found, middle⟩, first, ends⟩ := declared
    · exact (allocated ends).trans (declareVar_like first)
    · cases ends
      exact declareVar_like first

theorem declareResults_like {entries : List (Option Ident × Ty)} {slots : List Slot}
    (declared : frame.declareResults entries = .ok (slots, after)) : after.Like frame := by
  induction entries generalizing frame slots with
  | nil =>
    cases declared
    exact .refl _
  | cons entry rest ih =>
    simp only [declareResults, Compiled.bind_eq_ok] at declared
    obtain ⟨⟨slot, middle⟩, first, ⟨others, last⟩, second, ends⟩ := declared
    cases ends
    exact (ih second).trans (declareResult_like first)

end Frame

namespace Definition

variable {definition after : Definition}

theorem add_like {target : Expr} {type : Ty} (added : definition.add target type = .ok after) :
    after.frame.Like definition.frame := by
  unfold add at added
  split at added
  · cases added
  · split at added
    · cases added
    · split at added
      · cases added
        exact .refl _
      · split at added
        · cases added
        · split at added
          · cases added
            exact .refl _
          · cases added
          · simp only [Compiled.bind_eq_ok] at added
            obtain ⟨⟨slot, frame⟩, declared, ends⟩ := added
            cases slot with
            | none =>
              cases ends
              exact .refl _
            | some slot =>
              cases ends
              exact Frame.declareVar_like declared

theorem addAll_like {targets : List Expr} {types : List Ty}
    (added : definition.addAll targets types = .ok after) : after.frame.Like definition.frame := by
  induction targets generalizing definition types with
  | nil =>
    cases types <;> cases added <;> exact .refl _
  | cons target targets ih =>
    cases types with
    | nil =>
      cases added
      exact .refl _
    | cons type types =>
      simp only [addAll, Compiled.bind_eq_ok] at added
      obtain ⟨middle, first, rest⟩ := added
      exact (ih rest).trans (add_like first)

end Definition

namespace Compile

variable {outer : Scope} {frame after : Frame} {here : Nat} {piece : Piece}

theorem define_like {lhs : List Expr} {values : Rhs} {span : Span}
    (compiled : define frame lhs values span = .ok piece) : piece.frame.Like frame := by
  simp only [define, Compiled.bind_eq_ok] at compiled
  obtain ⟨types, -, definition, added, rest⟩ := compiled
  split at rest
  · cases rest
  · simp only [Compiled.bind_eq_ok] at rest
    obtain ⟨codes, -, ends⟩ := rest
    cases ends
    exact Definition.addAll_like added

theorem typeSpecs_like {specs : List TypeSpec} (declared : typeSpecs outer frame specs = .ok after) :
    after.Like frame := by
  induction specs generalizing frame with
  | nil =>
    cases declared
    exact .refl _
  | cons spec rest ih =>
    simp only [typeSpecs, Compiled.bind_eq_ok] at declared
    obtain ⟨type, -, middle, first, rest⟩ := declared
    exact (ih rest).trans (Frame.declareSymbol_like first)

theorem constValues_like {declared : Option Ty} {names : List Ident} {values : List Expr}
    (compiled : constValues outer frame declared names values = .ok after) : after.Like frame := by
  induction values generalizing frame names with
  | nil =>
    simp only [constValues] at compiled
    cases compiled
    exact .refl _
  | cons node rest ih =>
    cases names with
    | nil =>
      simp only [constValues] at compiled
      cases compiled
      exact .refl _
    | cons name names =>
      simp only [constValues, Compiled.bind_eq_ok] at compiled
      obtain ⟨operand, -, value, -, middle, first, rest⟩ := compiled
      exact (ih rest).trans (Frame.declareSymbol_like first)

theorem constSpecs_like {specs : List ValueSpec} (compiled : constSpecs outer frame specs = .ok after) :
    after.Like frame := by
  induction specs generalizing frame with
  | nil =>
    simp only [constSpecs] at compiled
    cases compiled
    exact .refl _
  | cons spec rest ih =>
    obtain ⟨names, written, values, span⟩ := spec
    simp only [constSpecs] at compiled
    split at compiled
    · cases compiled
    · simp only [Compiled.bind_eq_ok] at compiled
      obtain ⟨declared, -, middle, first, rest⟩ := compiled
      exact (ih rest).trans (constValues_like first)

theorem varSpecs_like {specs : List ValueSpec}
    (compiled : varSpecs outer frame here specs = .ok piece) : piece.frame.Like frame := by
  induction specs generalizing frame here piece with
  | nil =>
    simp only [varSpecs] at compiled
    cases compiled
    exact .refl _
  | cons spec rest ih =>
    obtain ⟨names, written, values, span⟩ := spec
    simp only [varSpecs, Compiled.bind_eq_ok] at compiled
    obtain ⟨declared, -, items, -, ⟨types, codes⟩, -, first, inits, others, second, ends⟩ := compiled
    simp only [declareInit, Compiled.bind_eq_ok] at inits
    obtain ⟨⟨slots, middle⟩, first, same⟩ := inits
    cases same
    cases ends
    exact (ih second).trans (Frame.declareVars_like first)

theorem decl_like {declaration : Decl} (compiled : decl outer frame here declaration = .ok piece) :
    piece.frame.Like frame := by
  cases declaration with
  | var specs span =>
    simp only [decl] at compiled
    exact varSpecs_like compiled
  | const specs span =>
    simp only [decl, Compiled.bind_eq_ok] at compiled
    obtain ⟨after, declared, ends⟩ := compiled
    cases ends
    exact constSpecs_like declared
  | type specs span =>
    simp only [decl, Compiled.bind_eq_ok] at compiled
    obtain ⟨after, declared, ends⟩ := compiled
    cases ends
    exact typeSpecs_like declared
  | func name head body span =>
    simp only [decl, Compiled.bind_eq_ok] at compiled
    obtain ⟨signature, -, ⟨slot, middle⟩, declared, template, -, ends⟩ := compiled
    cases slot <;> cases ends <;> exact Frame.declareVar_like declared

theorem functionFrame_loop {head : FuncHead} {signature : Signature} {params : List (Option Slot)}
    {results : List Slot} (compiled : functionFrame head signature = .ok (params, results, frame)) :
    frame.loop = none ∧ frame.func.isSome = true := by
  simp only [functionFrame, Compiled.bind_eq_ok] at compiled
  obtain ⟨⟨params, middle⟩, first, ⟨results, last⟩, second, ends⟩ := compiled
  cases ends
  exact ⟨((Frame.declareResults_like second).trans (Frame.declareParams_like first)).loop, rfl⟩

theorem stmt_like {labels : List String} : (node : Stmt) →
    stmt outer frame here labels node = .ok piece → piece.frame.Like frame
  | .labeled label body span, compiled => by
    simp only [stmt] at compiled
    exact stmt_like body compiled
  | .decl declaration, compiled => by
    simp only [stmt] at compiled
    exact decl_like compiled
  | .assign lhs op values span, compiled => by
    simp only [stmt] at compiled
    cases op with
    | define =>
      simp only [Compiled.bind_eq_ok] at compiled
      obtain ⟨values, -, compiled⟩ := compiled
      exact define_like compiled
    | assign =>
      simp only [Compiled.bind_eq_ok] at compiled
      obtain ⟨targets, -, values, -, fragment, -, ends⟩ := compiled
      cases ends
      exact .refl _
    | compound op =>
      dsimp only at compiled
      split at compiled
      · cases compiled
      · simp only [Compiled.bind_eq_ok] at compiled
        obtain ⟨-, -, targets, -, compiled⟩ := compiled
        split at compiled
        · simp only [Compiled.bind_eq_ok] at compiled
          obtain ⟨type, -, items, -, compiled⟩ := compiled
          split at compiled
          · simp only [Compiled.bind_eq_ok] at compiled
            obtain ⟨fragment, -, ends⟩ := compiled
            cases ends
            exact .refl _
          · cases compiled
        · cases compiled
  | .expr node, compiled => by
    simp only [stmt, Compiled.bind_eq_ok] at compiled
    obtain ⟨operand, -, ends⟩ := compiled
    split at ends <;> cases ends <;> exact .refl _
  | .ret values span, compiled => by
    simp only [stmt, Compiled.bind_eq_ok] at compiled
    obtain ⟨⟨hops, info⟩, -, compiled⟩ := compiled
    dsimp only at compiled
    split at compiled
    · split at compiled
      · cases compiled
      · cases compiled
        exact .refl _
    · simp only [Compiled.bind_eq_ok] at compiled
      obtain ⟨items, -, fragment, -, ends⟩ := compiled
      cases ends
      exact .refl _
  | .empty _, compiled => by
    simp only [stmt] at compiled
    cases compiled
    exact .refl _
  | .bad _, compiled | .caseClause _, compiled | .commClause _, compiled => by
    simp only [stmt] at compiled
    cases compiled
  | .block _, compiled | .branch .., compiled | .ifElse .., compiled | .forLoop .., compiled
  | .range .., compiled | .switch .., compiled | .typeSwitch .., compiled => by
    simp only [stmt, Compiled.bind_eq_ok] at compiled
    obtain ⟨fragment, -, ends⟩ := compiled
    cases ends
    exact .refl _
  | .select .., compiled => by
    simp only [stmt, Compiled.bind_eq_ok] at compiled
    obtain ⟨default, -, fragment, -, ends⟩ := compiled
    cases ends
    exact .refl _
  | .incDec .., compiled => by
    simp only [stmt, Compiled.bind_eq_ok] at compiled
    obtain ⟨target, -, type, -, fragment, -, ends⟩ := compiled
    cases ends
    exact .refl _
  | .defer .., compiled => by
    simp only [stmt, Compiled.bind_eq_ok] at compiled
    obtain ⟨found, -, invoke, -, ends⟩ := compiled
    cases ends
    exact .refl _
  | .go .., compiled => by
    simp only [stmt, Compiled.bind_eq_ok] at compiled
    obtain ⟨invoke, -, ends⟩ := compiled
    cases ends
    exact .refl _
  | .send .., compiled => by
    simp only [stmt, Compiled.bind_eq_ok] at compiled
    obtain ⟨channel, -, type, -, elem, -, value, -, code, -, ends⟩ := compiled
    cases ends
    exact .refl _

end Compile

end MiniGo
