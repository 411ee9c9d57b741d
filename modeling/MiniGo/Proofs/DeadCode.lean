import MiniGo.Proofs.Blameless
import MiniGo.Proofs.Displacement
import MiniGo.Proofs.Startup
/-!
Code that is never run. A condition that is a constant leaves out one part of its statement. That part is
compiled all the same, so its faults are found, and what is left of the statement is compiled as if the
part had never been there.
-/

namespace MiniGo

def Stmt.alone (node : Stmt) : Stmt :=
  if node.isBranchBody then node else .block (.mk [node] node.span)

theorem Stmt.alone_declares (node : Stmt) : node.alone.declares = false := by
  unfold alone
  split
  · rename_i isBody
    cases node with
    | block | ifElse => rfl
    | _ => cases isBody
  · rfl

/-- A statement that is run as its condition says. -/
inductive Conditional
  | ifElse (init : Option Stmt) (thenBranch : Block) (elseBranch : Option Stmt) (span : Span)
  | forLoop (init post : Option Stmt) (body : Block) (span : Span)

namespace Conditional

def on (cond : Expr) : Conditional → Stmt
  | ifElse init thenBranch elseBranch span => .ifElse init cond thenBranch elseBranch span
  | forLoop init post body span => .forLoop init (some cond) post body span

def init : Conditional → Option Stmt
  | ifElse init .. | forLoop init .. => init

def post : Conditional → Option Stmt
  | ifElse .. => none
  | forLoop _ post _ _ => post

/-- The frame that the condition is compiled in, given the one after the init statement. -/
def testFrame (labels : List String) (first : Frame) : Conditional → Frame
  | ifElse .. => first
  | forLoop .. => { first with loop := some ⟨true, labels⟩ }

/-- What remains of the statement if its condition always has a value: the init statement, and the part
that is run. A loop that always goes on remains a loop. -/
def remaining : Bool → Conditional → Option Stmt
  | true, ifElse init thenBranch _ span => some (.block (.mk (init.toList ++ [.block thenBranch]) span))
  | false, ifElse init _ elseBranch span =>
    some (.block (.mk (init.toList ++ (elseBranch.map Stmt.alone).toList) span))
  | false, forLoop init _ _ span => some (.block (.mk init.toList span))
  | true, forLoop .. => none

end Conditional

namespace Compile

variable {outer scope : Scope} {frame : Frame} {labels : List String} {piece : Piece} {here : Nat}
  {span : Span}

theorem Takes.unique {frame after : Frame} {binds other : Bool} (takes : Takes binds frame after)
    (also : Takes other frame after) : binds = other := by
  unfold Takes at takes also
  cases binds <;> cases other <;> simp_all

theorem inScope_eq_ok {owned : Bool} {compile : Frame → Nat → Compiled Piece} {fragment : Fragment} :
    inScope owned span here compile = .ok fragment ↔
      ∃ piece, compile { owned } (here + owned.toNat) = .ok piece ∧ Takes owned { owned } piece.frame ∧
        wrapped owned span piece = fragment := by
  have position : (if owned then here + 1 else here) = here + owned.toNat := by cases owned <;> rfl
  have none : Frame.taken { owned } = 0 := rfl
  unfold inScope
  rw [position, Compiled.bind_eq_ok]
  refine exists_congr fun piece => and_congr_right fun _ => ?_
  cases owned with
  | true =>
    simp only [if_true]
    by_cases empty : piece.frame.objects + piece.frame.words = 0
    · rw [if_pos (by simpa using empty)]
      refine iff_of_false (by simp) fun ⟨takes, _⟩ => ?_
      exact absurd (takes.1 rfl) (by rw [none, Frame.taken, empty]; exact Nat.lt_irrefl 0)
    · rw [if_neg (by simpa using empty), Compiled.pure_eq_ok]
      exact (and_iff_right (.some (Nat.pos_of_ne_zero empty))).symm
  | false =>
    simp only [Bool.false_eq_true, if_false]
    by_cases empty : piece.frame.objects + piece.frame.words = 0
    · rw [if_neg (by simpa using empty), Compiled.pure_eq_ok]
      exact (and_iff_right (.none empty)).symm
    · rw [if_pos (by simpa using empty)]
      exact iff_of_false (by simp) fun ⟨takes, _⟩ => empty (takes.2 rfl)

theorem scopedStmts_cons (node : Stmt) (rest : List Stmt) (clause : Bool) :
    scopedStmts scope here clause span (node :: rest) =
      inScope ((node :: rest).any Stmt.declares) span here fun inner here =>
        stmts scope inner here clause (node :: rest) := by
  simp only [scopedStmts, stmts]

theorem stmts_nil (outer : Scope) (frame : Frame) (here : Nat) (clause : Bool) :
    stmts outer frame here clause [] = .ok (.none frame) := by
  simp only [stmts]
  rfl

theorem stmts_singleton {node : Stmt} (compiled : stmt outer frame here [] node = .ok piece) :
    ∃ others, stmts outer frame here false [node] = .ok others ∧ others.lines = piece.lines ∧
      others.frame = piece.frame := by
  refine ⟨(piece.toFragment ++ {}).within piece.frame, ?_, by simp, rfl⟩
  simp only [stmts, Bool.false_and, Bool.false_eq_true, if_false]
  exact Compiled.bind_eq_ok.mpr ⟨piece, compiled, rfl⟩

theorem block_singleton {node : Stmt} {fragment : Fragment}
    (compiled : inScope node.declares span here (fun inner here => stmt scope inner here [] node) =
      .ok fragment) :
    ∃ other, block scope here (.mk [node] span) = .ok other ∧ other.lines = fragment.lines := by
  obtain ⟨piece, compiledNode, takes, rfl⟩ := inScope_eq_ok.mp compiled
  obtain ⟨others, compiledList, lines, same⟩ := stmts_singleton compiledNode
  have declared : [node].any Stmt.declares = node.declares := by simp
  refine ⟨wrapped node.declares span others, ?_, by rw [wrapped_lines, wrapped_lines, lines, same]⟩
  rw [block, scopedStmts_cons, declared]
  exact inScope_eq_ok.mpr ⟨others, compiledList, same ▸ takes, rfl⟩

def Keeps (frame after : Frame) : Prop := frame.objects ≤ after.objects ∧ frame.words ≤ after.words

theorem Keeps.refl (frame : Frame) : Keeps frame frame := ⟨Nat.le_refl _, Nat.le_refl _⟩

theorem varSpecs_keeps {specs : List ValueSpec} (compiled : varSpecs outer frame here specs = .ok piece) :
    Keeps frame piece.frame := by
  induction specs generalizing frame here piece with
  | nil =>
    simp only [varSpecs, Compiled.pure_eq_ok] at compiled
    exact compiled ▸ .refl _
  | cons spec rest ih =>
    obtain ⟨names, written, values, span⟩ := spec
    simp only [varSpecs, Compiled.bind_eq_ok, Compiled.pure_eq_ok] at compiled
    obtain ⟨declared, -, items, -, ⟨types, codes⟩, -, first, inits, others, second, rfl⟩ := compiled
    simp only [declareInit, Compiled.bind_eq_ok, Compiled.pure_eq_ok] at inits
    obtain ⟨⟨slots, middle⟩, first, rfl⟩ := inits
    have widens := (Frame.declareVars_widens first).1
    have later := ih second
    exact ⟨Nat.le_trans widens.objects later.1, Nat.le_trans widens.words later.2⟩

theorem decl_keeps {declaration : Decl} (compiled : decl outer frame here declaration = .ok piece) :
    Keeps frame piece.frame := by
  cases declaration with
  | var specs _ =>
    rw [decl] at compiled
    exact varSpecs_keeps compiled
  | const specs _ =>
    simp only [decl, Compiled.bind_eq_ok, Compiled.pure_eq_ok] at compiled
    obtain ⟨after, declared, rfl⟩ := compiled
    have widens := constSpecs_widens declared
    exact ⟨widens.objects, widens.words⟩
  | type specs _ =>
    simp only [decl, Compiled.bind_eq_ok, Compiled.pure_eq_ok] at compiled
    obtain ⟨after, declared, rfl⟩ := compiled
    have widens := typeSpecs_widens declared
    exact ⟨widens.objects, widens.words⟩
  | func name head body _ =>
    simp only [decl, Compiled.bind_eq_ok, Prod.exists] at compiled
    obtain ⟨signature, -, slot, after, declared, compiledBody, -, compiled⟩ := compiled
    have widens := (Frame.declareVar_widens declared).1
    have same : piece.frame = after := by
      cases slot <;> simp only [Compiled.pure_eq_ok] at compiled <;> exact compiled ▸ rfl
    exact same ▸ ⟨widens.objects, widens.words⟩

theorem stmt_keeps {labels : List String} : (node : Stmt) → node.binds = false →
    stmt outer frame here labels node = .ok piece → Keeps frame piece.frame
  | .labeled _ body _, bare, compiled => by
    rw [stmt] at compiled
    exact stmt_keeps body bare compiled
  | .decl _, _, compiled => by
    rw [stmt] at compiled
    exact decl_keeps compiled
  | .assign lhs op values span, bare, compiled => by
    simp only [stmt] at compiled
    cases op with
    | define => cases bare
    | assign =>
      simp only [Compiled.bind_eq_ok] at compiled
      obtain ⟨targets, -, values, -, fragment, -, ends⟩ := compiled
      cases ends
      exact .refl _
    | compound op =>
      dsimp only at compiled
      split at compiled
      · cases compiled
      · simp only [Compiled.bind_eq_ok] at compiled
        obtain ⟨-, -, targets, -, compiled⟩ := compiled
        split at compiled
        · simp only [Compiled.bind_eq_ok] at compiled
          obtain ⟨type, -, items, -, compiled⟩ := compiled
          split at compiled
          · simp only [Compiled.bind_eq_ok] at compiled
            obtain ⟨fragment, -, ends⟩ := compiled
            cases ends
            exact .refl _
          · cases compiled
        · cases compiled
  | .expr node, _, compiled => by
    simp only [stmt, Compiled.bind_eq_ok] at compiled
    obtain ⟨operand, -, ends⟩ := compiled
    split at ends <;> cases ends <;> exact .refl _
  | .ret values span, _, compiled => by
    simp only [stmt, Compiled.bind_eq_ok] at compiled
    obtain ⟨⟨hops, info⟩, -, compiled⟩ := compiled
    dsimp only at compiled
    split at compiled
    · split at compiled
      · cases compiled
      · cases compiled
        exact .refl _
    · simp only [Compiled.bind_eq_ok] at compiled
      obtain ⟨items, -, fragment, -, ends⟩ := compiled
      cases ends
      exact .refl _
  | .empty _, _, compiled => by
    simp only [stmt] at compiled
    cases compiled
    exact .refl _
  | .bad _, _, compiled | .caseClause _, _, compiled | .commClause _, _, compiled => by
    simp only [stmt] at compiled
    cases compiled
  | .block _, _, compiled | .branch .., _, compiled | .ifElse .., _, compiled | .forLoop .., _, compiled
  | .range .., _, compiled | .switch .., _, compiled | .typeSwitch .., _, compiled
  | .go .., _, compiled => by
    simp only [stmt, Compiled.bind_eq_ok] at compiled
    obtain ⟨_, -, ends⟩ := compiled
    cases ends
    exact .refl _
  | .select .., _, compiled | .defer .., _, compiled => by
    simp only [stmt, Compiled.bind_eq_ok] at compiled
    obtain ⟨_, -, _, -, ends⟩ := compiled
    cases ends
    exact .refl _
  | .incDec .., _, compiled => by
    simp only [stmt, Compiled.bind_eq_ok] at compiled
    obtain ⟨target, -, type, -, fragment, -, ends⟩ := compiled
    cases ends
    exact .refl _
  | .send .., _, compiled => by
    simp only [stmt, Compiled.bind_eq_ok] at compiled
    obtain ⟨channel, -, type, -, elem, -, value, -, code, -, ends⟩ := compiled
    cases ends
    exact .refl _

theorem stmt_bare {node : Stmt} (bare : node.binds = false)
    (compiled : stmt outer frame here labels node = .ok piece) :
    piece.frame.objects = frame.objects ∧ piece.frame.words = frame.words := by
  have same : piece.frame.objects + piece.frame.words = frame.objects + frame.words :=
    (stmt_takes node compiled).2 bare
  obtain ⟨objects, words⟩ := stmt_keeps node bare compiled
  omega

theorem init_declares {init : Option Stmt} {first : Piece}
    (compiled : initStmt outer { owned := init.any Stmt.isDefine } here init = .ok first)
    (takes : Takes (init.any Stmt.isDefine) { owned := init.any Stmt.isDefine } first.frame) :
    init.any Stmt.declares = init.any Stmt.isDefine := by
  cases init with
  | none => rfl
  | some node =>
    simp only [initStmt, Option.any_some] at compiled takes ⊢
    have binds := (stmt_takes node compiled).unique takes
    cases isDefine : node.isDefine with
    | true =>
      unfold Stmt.isDefine at isDefine
      split at isDefine
      · rfl
      · cases isDefine
    | false =>
      rw [isDefine] at binds
      cases declares : node.declares with
      | true => simp [binds_of_declares declares] at binds
      | false => rfl

theorem block_of_init {init : Option Stmt} {live : List Stmt} {first others : Piece}
    (plain : live.any Stmt.declares = false)
    (compiledInit : initStmt outer { owned := init.any Stmt.isDefine }
      (here + (init.any Stmt.isDefine).toNat) init = .ok first)
    (takes : Takes (init.any Stmt.isDefine) { owned := init.any Stmt.isDefine } first.frame)
    (compiledLive : stmts outer first.frame
      (here + (init.any Stmt.isDefine).toNat + first.length) false live = .ok others)
    (same : others.frame = first.frame) :
    ∃ fragment, block outer here (.mk (init.toList ++ live) span) = .ok fragment ∧
      fragment.lines = opening (init.any Stmt.isDefine) span first.frame ++
        (first.lines ++ others.lines) ++ closing (init.any Stmt.isDefine) span := by
  have declares := init_declares compiledInit takes
  cases init with
  | none =>
    simp only [initStmt, Compiled.pure_eq_ok] at compiledInit
    subst compiledInit
    cases live with
    | nil =>
      simp only [stmts, Compiled.pure_eq_ok] at compiledLive
      subst compiledLive
      exact ⟨{}, by simp [block, scopedStmts], rfl⟩
    | cons node rest =>
      refine ⟨wrapped false span others, ?_, by simp [wrapped_lines, opening, Piece.none]⟩
      simp only [block, Option.toList_none, List.nil_append]
      rw [scopedStmts_cons, plain]
      exact inScope_eq_ok.mpr ⟨others, compiledLive, same ▸ takes, rfl⟩
  | some node =>
    have declared : ((node :: live).any Stmt.declares) = node.isDefine := by
      rw [List.any_cons, plain, Bool.or_false]
      exact declares
    refine ⟨wrapped node.isDefine span ((first.toFragment ++ others.toFragment).within
      others.frame), ?_, ?_⟩
    · simp only [block, Option.toList_some, List.singleton_append]
      rw [scopedStmts_cons, declared]
      refine inScope_eq_ok.mpr ⟨_, ?_, same ▸ takes, rfl⟩
      simp only [stmts, Bool.false_and, Bool.false_eq_true, if_false]
      exact Compiled.bind_eq_ok.mpr ⟨first, compiledInit,
        Compiled.bind_eq_ok.mpr ⟨others, compiledLive, rfl⟩⟩
    · simp [wrapped_lines, same]

end Compile

/-- A condition gives a test where it stands: after the init statement, in the scope of the statement. -/
def Conditional.Tests (node : Conditional) (outer : Scope) (frame : Frame) (here : Nat)
    (labels : List String) (cond : Expr) (test : Cond) : Prop :=
  ∀ first, Compile.initStmt (frame :: outer) { owned := node.init.any Stmt.isDefine }
      (here + (node.init.any Stmt.isDefine).toNat) node.init = .ok first →
    Compile.loopCond (node.testFrame labels first.frame :: frame :: outer) (some cond) = .ok test

namespace Compile

variable {outer : Scope} {frame : Frame} {labels : List String} {here : Nat}

theorem expr_toCond {α : Type} (scope : Scope) (cond : Expr) (next : Cond → Compiled α) :
    (do
      let operand ← expr scope cond
      let test ← operand.toCond
      next test) = loopCond scope (some cond) >>= next := by
  simp only [loopCond, bind_assoc]

theorem conditional_alike {node : Conditional} {cond other : Expr} {test another : Cond}
    (left : node.Tests outer frame here labels cond test)
    (right : node.Tests outer frame here labels other another) :
    Alike Piece.frame (stmt outer frame here labels (node.on cond))
      (stmt outer frame here labels (node.on other)) := by
  cases node with
  | ifElse init thenBranch elseBranch span =>
    simp only [Conditional.on, stmt, expr_toCond]
    refine (inScope_alike (Compared.shared fun first compiledInit => ?_)).bind fun _ _ _ => .ok rfl
    have isLeft : loopCond (first.frame :: frame :: outer) (some cond) = .ok test :=
      left first compiledInit
    have isRight : loopCond (first.frame :: frame :: outer) (some other) = .ok another :=
      right first compiledInit
    rw [isLeft, isRight]
    refine (branches_alike (block_alike _ thenBranch) fun part isPart => ?_).bind fun _ _ _ => .ok rfl
    split at isPart
    · obtain rfl := Option.some.inj isPart
      exact elseStmt_alike _ _ elseBranch
    · cases isPart
  | forLoop init post body span =>
    simp only [Conditional.on, stmt]
    refine (inScope_alike (Compared.shared fun first compiledInit => ?_)).bind fun _ _ _ => .ok rfl
    have isLeft : loopCond ({ first.frame with loop := some ⟨true, labels⟩ } :: frame :: outer)
        (some cond) = .ok test := left first compiledInit
    have isRight : loopCond ({ first.frame with loop := some ⟨true, labels⟩ } :: frame :: outer)
        (some other) = .ok another := right first compiledInit
    rw [isLeft, isRight]
    exact (loop_alike (block_alike _ body) (postStmt_alike _ _ post)).bind fun _ _ same => .ok same

theorem elseStmt_alone {node : Stmt} {fragment : Fragment}
    (compiled : elseStmt outer frame here (some node) = .ok fragment) :
    ∃ piece, stmt outer frame here [] node.alone = .ok piece ∧ piece.lines = fragment.lines ∧
      piece.frame = frame := by
  simp only [elseStmt] at compiled
  unfold Stmt.alone
  split at compiled
  · rename_i isBody
    rw [if_pos isBody]
    obtain ⟨piece, compiledNode, ends⟩ := Compiled.bind_eq_ok.mp compiled
    cases ends
    refine ⟨piece, compiledNode, rfl, ?_⟩
    cases node with
    | block | ifElse =>
      simp only [stmt, Compiled.bind_eq_ok, Compiled.pure_eq_ok] at compiledNode
      obtain ⟨_, -, rfl⟩ := compiledNode
      rfl
    | _ => cases isBody
  · rename_i notBody
    rw [if_neg notBody]
    obtain ⟨other, compiledBlock, lines⟩ := block_singleton compiled
    refine ⟨other.within frame, ?_, lines, rfl⟩
    rw [stmt]
    exact Compiled.bind_eq_ok.mpr ⟨other, compiledBlock, rfl⟩

theorem remaining_of_live {init : Option Stmt} {live : List Stmt} {first others : Piece}
    {lines : List Line}
    (plain : live.any Stmt.declares = false)
    (compiledInit : initStmt (frame :: outer) { owned := init.any Stmt.isDefine }
      (here + (init.any Stmt.isDefine).toNat) init = .ok first)
    (takes : Takes (init.any Stmt.isDefine) { owned := init.any Stmt.isDefine } first.frame)
    (compiledLive : stmts (frame :: outer) first.frame
      (here + (init.any Stmt.isDefine).toNat + first.length) false live = .ok others)
    (same : others.frame = first.frame) (isLive : others.lines = lines) :
    ∃ piece, stmt outer frame here labels (.block (.mk (init.toList ++ live) span)) = .ok piece ∧
      piece.lines = opening (init.any Stmt.isDefine) span first.frame ++ (first.lines ++ lines) ++
        closing (init.any Stmt.isDefine) span ∧ piece.frame = frame := by
  obtain ⟨fragment, compiledBlock, isFragment⟩ :=
    block_of_init plain compiledInit takes compiledLive same
  refine ⟨fragment.within frame, ?_, isLive ▸ isFragment, rfl⟩
  rw [stmt]
  exact Compiled.bind_eq_ok.mpr ⟨fragment, compiledBlock, rfl⟩

theorem ifElse_const {init : Option Stmt} {cond : Expr} {value : Bool} {thenBranch : Block}
    {elseBranch : Option Stmt}
    (constant : (Conditional.ifElse init thenBranch elseBranch span).Tests outer frame here labels cond
      (.const value))
    (compiled : stmt outer frame here labels (.ifElse init cond thenBranch elseBranch span) = .ok piece) :
    ∃ (first : Piece) (yes no : Fragment),
      initStmt (frame :: outer) { owned := init.any Stmt.isDefine }
        (here + (init.any Stmt.isDefine).toNat) init = .ok first ∧
      Takes (init.any Stmt.isDefine) { owned := init.any Stmt.isDefine } first.frame ∧
      block (first.frame :: frame :: outer) (here + (init.any Stmt.isDefine).toNat + first.length)
        thenBranch = .ok yes ∧
      elseStmt (frame :: outer) first.frame (here + (init.any Stmt.isDefine).toNat + first.length +
        if value then yes.length else 0) elseBranch = .ok no ∧
      piece.lines = opening (init.any Stmt.isDefine) span first.frame ++
        (first.lines ++ if value then yes.lines else no.lines) ++ closing (init.any Stmt.isDefine) span ∧
      piece.frame = frame := by
  simp only [stmt, expr_toCond] at compiled
  obtain ⟨fragment, inside, ends⟩ := Compiled.bind_eq_ok.mp compiled
  cases ends
  obtain ⟨inner, content, takes, rfl⟩ := inScope_eq_ok.mp inside
  obtain ⟨first, compiledInit, content⟩ := Compiled.bind_eq_ok.mp content
  have isConst : loopCond (first.frame :: frame :: outer) (some cond) = .ok (.const value) :=
    constant first compiledInit
  obtain ⟨test, isTest, content⟩ := Compiled.bind_eq_ok.mp content
  obtain rfl := Except.ok.inj (isConst.symm.trans isTest)
  obtain ⟨rest, compiledRest, ends⟩ := Compiled.bind_eq_ok.mp content
  cases ends
  obtain ⟨yes, compiledYes, compiledRest⟩ := Compiled.bind_eq_ok.mp compiledRest
  have lines (rest : Fragment) : ((wrapped (init.any Stmt.isDefine) span
      ((first.toFragment ++ rest).within first.frame)).within frame).lines =
        opening (init.any Stmt.isDefine) span first.frame ++ (first.lines ++ rest.lines) ++
          closing (init.any Stmt.isDefine) span := by
    simp [wrapped_lines]
  cases elseBranch with
  | none =>
    cases compiledRest
    refine ⟨first, yes, {}, compiledInit, takes, compiledYes, by rw [elseStmt]; rfl, ?_, rfl⟩
    rw [lines]
    cases value <;> rfl
  | some node =>
    obtain ⟨no, compiledNo, ends⟩ := Compiled.bind_eq_ok.mp compiledRest
    cases ends
    refine ⟨first, yes, no, compiledInit, takes, compiledYes, ?_, ?_, rfl⟩
    · cases value <;> exact compiledNo
    · rw [lines]
      cases value <;> simp [Fragment.dead]

theorem forLoop_const {init post : Option Stmt} {cond : Expr} {body : Block}
    (constant : (Conditional.forLoop init post body span).Tests outer frame here labels cond
      (.const false))
    (bare : post.all (!·.binds) = true)
    (compiled : stmt outer frame here labels (.forLoop init (some cond) post body span) = .ok piece) :
    ∃ first : Piece,
      initStmt (frame :: outer) { owned := init.any Stmt.isDefine }
        (here + (init.any Stmt.isDefine).toNat) init = .ok first ∧
      Takes (init.any Stmt.isDefine) { owned := init.any Stmt.isDefine } first.frame ∧
      piece.lines = opening (init.any Stmt.isDefine) span first.frame ++ (first.lines ++ []) ++
        closing (init.any Stmt.isDefine) span ∧
      piece.frame = frame := by
  simp only [stmt] at compiled
  obtain ⟨fragment, inside, ends⟩ := Compiled.bind_eq_ok.mp compiled
  cases ends
  obtain ⟨inner, content, takes, rfl⟩ := inScope_eq_ok.mp inside
  obtain ⟨first, compiledInit, content⟩ := Compiled.bind_eq_ok.mp content
  have isConst : loopCond ({ first.frame with loop := some ⟨true, labels⟩ } :: frame :: outer)
      (some cond) = .ok (.const false) := constant first compiledInit
  obtain ⟨test, isTest, content⟩ := Compiled.bind_eq_ok.mp content
  obtain rfl := Except.ok.inj (isConst.symm.trans isTest)
  obtain ⟨rest, compiledRest, ends⟩ := Compiled.bind_eq_ok.mp content
  cases ends
  obtain ⟨again, -, compiledRest⟩ := Compiled.bind_eq_ok.mp compiledRest
  obtain ⟨last, compiledPost, ends⟩ := Compiled.bind_eq_ok.mp compiledRest
  cases ends
  have same : last.frame.objects = first.frame.objects ∧ last.frame.words = first.frame.words := by
    cases post with
    | none =>
      simp only [postStmt, Compiled.pure_eq_ok] at compiledPost
      simp [← compiledPost]
    | some node =>
      simp only [postStmt] at compiledPost
      split at compiledPost
      · simp at compiledPost
      · have taken := stmt_bare (by simpa using bare) compiledPost
        exact taken
  have taken : first.frame.taken = last.frame.taken := by rw [Frame.taken, Frame.taken, same.1, same.2]
  refine ⟨first, compiledInit, ?_, ?_, rfl⟩
  · unfold Takes at takes ⊢
    rw [taken]
    exact takes
  · have sameOpening : opening (init.any Stmt.isDefine) span last.frame =
        opening (init.any Stmt.isDefine) span first.frame := by rw [opening, opening, same.1, same.2]
    simp [wrapped_lines, sameOpening, Fragment.dead]

/-- A condition that is a constant is no reason to accept a statement or to refuse it: the faults are
those with any other condition in its place. When the statement is compiled, its instructions are those
of what remains of it. -/
theorem constant_condition_drops_code (node : Conditional) {cond : Expr} {value : Bool}
    (constant : node.Tests outer frame here labels cond (.const value)) :
    (∀ other code, node.Tests outer frame here labels other (.code code) → ∀ error,
      stmt outer frame here labels (node.on cond) = .error error ↔
        stmt outer frame here labels (node.on other) = .error error) ∧
    ∀ rest piece, node.remaining value = some rest → node.post.all (!·.binds) = true →
      stmt outer frame here labels (node.on cond) = .ok piece →
        ∃ remaining, stmt outer frame here labels rest = .ok remaining ∧
          remaining.lines = piece.lines ∧ remaining.frame = piece.frame := by
  refine ⟨fun other code isCode => (conditional_alike constant isCode).error_iff, ?_⟩
  intro rest piece isRest bare compiled
  cases node with
  | ifElse init thenBranch elseBranch span =>
    obtain ⟨first, yes, no, compiledInit, takes, compiledYes, compiledNo, lines, same⟩ :=
      ifElse_const constant compiled
    rw [lines, same]
    cases value with
    | true =>
      cases isRest
      have compiledThen : stmt (frame :: outer) first.frame
          (here + (init.any Stmt.isDefine).toNat + first.length) [] (.block thenBranch) =
            .ok (yes.within first.frame) := by
        rw [stmt]
        exact Compiled.bind_eq_ok.mpr ⟨yes, compiledYes, rfl⟩
      obtain ⟨others, compiledLive, isLive, kept⟩ := stmts_singleton compiledThen
      exact remaining_of_live (by rfl) compiledInit takes compiledLive kept isLive
    | false =>
      cases isRest
      cases elseBranch with
      | none =>
        rw [elseStmt, Compiled.pure_eq_ok] at compiledNo
        subst compiledNo
        exact remaining_of_live rfl compiledInit takes (stmts_nil ..) rfl rfl
      | some branch =>
        obtain ⟨alone, compiledAlone, isAlone, kept⟩ := elseStmt_alone compiledNo
        obtain ⟨others, compiledLive, isLive, keptToo⟩ := stmts_singleton compiledAlone
        have plain : (Option.map Stmt.alone (some branch)).toList.any Stmt.declares = false := by
          simp [Stmt.alone_declares]
        exact remaining_of_live plain compiledInit takes compiledLive (keptToo.trans kept)
          (isLive.trans isAlone)
  | forLoop init post body span =>
    cases value with
    | true => cases isRest
    | false =>
      cases isRest
      obtain ⟨first, compiledInit, takes, lines, same⟩ := forLoop_const constant bare compiled
      rw [lines, same]
      simpa using remaining_of_live rfl compiledInit takes (stmts_nil ..) rfl rfl

/-- A loop that has a loop and a `break` in its body. The variable of its init statement can be its
condition. -/
def neverLoop : Conditional :=
  let name : Expr := .ident ⟨"x", {}⟩
  let leave : Stmt := .ifElse none (.bool true {}) (.mk [.branch .break none {}] {}) none {}
  .forLoop (some (.assign [name] .define [.bool true {}] {})) none
    (.mk [.forLoop none (some name) none (.mk [leave] {}) {}, leave] {}) {}

theorem constant_condition_drops_code_never :
    let frame : Frame := { owned := true }
    let other : Expr := .ident ⟨"x", {}⟩
    ∃ (code : Code) (piece remaining : Piece) (rest : Stmt),
      neverLoop.Tests [] frame 0 [] (.bool false {}) (.const false) ∧
      neverLoop.Tests [] frame 0 [] other (.code code) ∧
      stmt [] frame 0 [] (neverLoop.on (.bool false {})) = .ok piece ∧
      (∀ error, ¬stmt [] frame 0 [] (neverLoop.on other) = .error error) ∧
      neverLoop.remaining false = some rest ∧ stmt [] frame 0 [] rest = .ok remaining ∧
      remaining.lines = piece.lines := by
  intro frame other
  have constant : neverLoop.Tests [] frame 0 [] (.bool false {}) (.const false) := fun _ _ => rfl
  obtain ⟨first, code, compiledInit, isCode⟩ : ∃ first code,
      initStmt [frame] { owned := true } 1 neverLoop.init = .ok first ∧
        loopCond [neverLoop.testFrame [] first.frame, frame] (some other) = .ok (.code code) :=
    ⟨_, _, rfl, rfl⟩
  have tests : neverLoop.Tests [] frame 0 [] other (.code code) := fun found compiled => by
    obtain rfl := Except.ok.inj (compiledInit.symm.trans compiled)
    exact isCode
  have isOk : (stmt [] frame 0 [] (neverLoop.on (.bool false {}))).isOk = true := by decide +kernel
  obtain ⟨faults, drops⟩ := constant_condition_drops_code neverLoop constant
  cases compiled : stmt [] frame 0 [] (neverLoop.on (.bool false {})) with
  | error error => simp [compiled, Except.isOk, Except.toBool] at isOk
  | ok piece =>
    obtain ⟨remaining, compiledRest, lines, -⟩ := drops _ piece rfl rfl compiled
    refine ⟨code, piece, remaining, _, constant, tests, rfl, fun error refused => ?_, rfl, compiledRest,
      lines⟩
    rw [← faults other code tests error, compiled] at refused
    cases refused

end Compile

end MiniGo
