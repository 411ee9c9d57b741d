import MiniGo.Proofs.DeadCode
import MiniGo.Proofs.Enclosures
import MiniGo.Proofs.Exits
import MiniGo.Proofs.Files
/-!
The code of a statement does what the statement means. The compiler and the meaning follow the same
tree; each part is compiled to lines that realize the action of the part, wherever they stand, and both
leave the same frame behind.
-/

namespace MiniGo

def Scope.exits (scope : Scope) : Exits := fun kind label => scope.exit? kind label

namespace Scope

theorem exits_below (scope : Scope) : scope.exits.Below scope.length := by
  induction scope with
  | nil => intro kind label hops found isExit; cases isExit
  | cons frame outer ih =>
    intro kind label hops found isExit
    simp only [exits, exit?] at isExit
    split at isExit
    · obtain ⟨-, rfl⟩ := Prod.mk.inj (Option.some.inj isExit)
      exact Nat.lt_succ_self _
    · split at isExit
      · cases isExit
      · obtain ⟨⟨more, level⟩, isOuter, same⟩ := Option.map_eq_some_iff.mp isExit
        obtain ⟨-, rfl⟩ := Prod.mk.inj same
        exact Nat.lt_succ_of_lt (ih kind label more level isOuter)

theorem exits_inside {frame : Frame} (loop : frame.loop = none) (func : frame.func = none)
    (outer : Scope) : Scope.exits (frame :: outer) = outer.exits.inside frame.cost := by
  funext kind label
  simp [exits, exit?, Exits.inside, loop, func]

theorem exits_offering {frame : Frame} {info : LoopInfo} (loop : frame.loop = some info)
    (func : frame.func = none) (outer : Scope) :
    Scope.exits (frame :: outer) =
      (outer.exits.inside frame.cost).offering info outer.length := by
  funext kind label
  simp [exits, exit?, Exits.inside, Exits.offering, loop, func]

theorem exits_function {frame : Frame} (loop : frame.loop = none) (func : frame.func.isSome = true)
    (outer : Scope) (kind : ExitKind) (label : Option String) :
    Scope.exits (frame :: outer) kind label = none := by
  simp [exits, exit?, loop, func]

end Scope

theorem Frame.Like.exits {frame other : Frame} (like : frame.Like other) (outer : Scope) :
    Scope.exits (frame :: outer) = Scope.exits (other :: outer) := by
  funext kind label
  simp only [Scope.exits, Scope.exit?, Frame.cost, like.owned, like.loop, like.func]

theorem Frame.Like.exits_offering {frame other : Frame} (like : frame.Like other) (info : LoopInfo)
    (func : other.func = none) (outer : Scope) :
    Scope.exits ({ frame with loop := some info } :: outer) =
      (outer.exits.inside other.cost).offering info outer.length := by
  have cost : Frame.cost { frame with loop := some info } = other.cost := by
    simp only [Frame.cost, like.owned]
  rw [← cost]
  exact @Scope.exits_offering { frame with loop := some info } info rfl (like.func.trans func) outer

/-- A piece that does what is meant wherever it stands, and leaves the frame behind that is meant. -/
def Renders (exits : Exits) (part : Nat → Compiled Piece) (meaning : Compiled Meaning) : Prop :=
  ∀ here piece, part here = .ok piece →
    ∃ action, meaning = .ok ⟨action, piece.frame⟩ ∧ Means exits here piece.lines action

def Renders.fragment (exits : Exits) (part : Nat → Compiled Fragment) (meaning : Compiled Action) :
    Prop :=
  ∀ here fragment, part here = .ok fragment →
    ∃ action, meaning = .ok action ∧ Means exits here fragment.lines action

variable {exits : Exits} {here : Nat} {span : Span}

theorem Renders.within {part : Nat → Compiled Fragment} {meaning : Compiled Action}
    (renders : Renders.fragment exits part meaning) (frame : Frame) :
    Renders exits (fun here => part here >>= fun fragment => pure (fragment.within frame))
      (meaning >>= fun action => pure ⟨action, frame⟩) := by
  intro here piece compiled
  obtain ⟨fragment, isFragment, ends⟩ := Compiled.bind_eq_ok.mp compiled
  cases ends
  obtain ⟨action, means, realizes⟩ := renders here fragment isFragment
  exact ⟨action, by rw [means]; rfl, realizes⟩

namespace Exits

theorem inside_zero (exits : Exits) : exits.inside 0 = exits := by
  funext kind label
  simp [inside]

theorem Below.inside {level : Nat} (below : exits.Below level) (cost : Nat) :
    (exits.inside cost).Below level := by
  intro kind label hops found isExit
  obtain ⟨⟨more, outer⟩, isOuter, same⟩ := Option.map_eq_some_iff.mp isExit
  obtain ⟨-, rfl⟩ := Prod.mk.inj same
  exact below kind label more outer isOuter

end Exits

theorem inScope_renders {owned : Bool} {compile : Frame → Nat → Compiled Piece}
    {meaning : Frame → Compiled Meaning}
    (inside : Renders (exits.inside (Frame.cost { owned })) (compile { owned }) (meaning { owned })) :
    Renders.fragment exits (fun here => inScope owned span here compile)
      (Meaning.inScope owned meaning) := by
  intro here fragment compiled
  simp only [inScope, Compiled.bind_eq_ok] at compiled
  obtain ⟨piece, compiledPiece, compiled⟩ := compiled
  obtain ⟨action, means, realizes⟩ := inside _ piece compiledPiece
  cases owned with
  | true =>
    simp only [if_true] at compiled realizes
    split at compiled
    · cases compiled
    · cases compiled
      refine ⟨.enclosed piece.frame.objects piece.frame.words action, ?_, .enclosed realizes⟩
      simp only [Meaning.inScope, means]
      rfl
  | false =>
    simp only [Bool.false_eq_true, if_false] at compiled realizes
    split at compiled
    · cases compiled
    · cases compiled
      rw [Frame.cost, if_neg (by simp), Exits.inside_zero] at realizes
      refine ⟨action, ?_, realizes⟩
      simp only [Meaning.inScope, means]
      rfl

theorem branches_renders {test : Cond} {condSpan : Span} {thenPart : Nat → Compiled Fragment}
    {elsePart : Option (Nat → Compiled Fragment)} {fragment : Fragment} {yes no : Compiled Action}
    (compiled : branches test here condSpan span thenPart elsePart = .ok fragment)
    (thenRenders : Renders.fragment exits thenPart yes)
    (elseRenders : ∀ other, elsePart = some other → Renders.fragment exits other no)
    (noElse : elsePart = none → no = .ok .skip) :
    ∃ first second, yes = .ok first ∧ no = .ok second ∧
      Means exits here fragment.lines (.choose test first second) := by
  cases test with
  | const value =>
    simp only [branches, Compiled.bind_eq_ok] at compiled
    obtain ⟨part, compiledPart, compiled⟩ := compiled
    obtain ⟨first, isFirst, firstMeans⟩ := thenRenders here part compiledPart
    cases elsePart with
    | none =>
      cases compiled
      refine ⟨first, .skip, isFirst, noElse rfl, .choose_const ?_ ?_⟩
      · rintro rfl
        exact firstMeans
      · rintro rfl
        exact .nil exits here
    | some other =>
      simp only [Compiled.bind_eq_ok] at compiled
      obtain ⟨last, compiledLast, compiled⟩ := compiled
      cases compiled
      obtain ⟨second, isSecond, secondMeans⟩ := elseRenders other rfl _ last compiledLast
      refine ⟨first, second, isFirst, isSecond, .choose_const ?_ ?_⟩
      · rintro rfl
        simpa using firstMeans
      · rintro rfl
        simpa using secondMeans
  | code cond =>
    simp only [branches, Compiled.bind_eq_ok] at compiled
    obtain ⟨part, compiledPart, compiled⟩ := compiled
    obtain ⟨first, isFirst, firstMeans⟩ := thenRenders _ part compiledPart
    cases elsePart with
    | none =>
      cases compiled
      exact ⟨first, .skip, isFirst, noElse rfl, .choose_or_skip firstMeans⟩
    | some other =>
      simp only [Compiled.bind_eq_ok] at compiled
      obtain ⟨last, compiledLast, compiled⟩ := compiled
      cases compiled
      obtain ⟨second, isSecond, secondMeans⟩ := elseRenders other rfl _ last compiledLast
      exact ⟨first, second, isFirst, isSecond, .choose firstMeans secondMeans⟩

theorem loop_renders {test : Cond} {level : Nat} {labels : List String}
    {body : Nat → Compiled Fragment} {post : Nat → Compiled Piece} {piece : Piece}
    {again : Compiled Action} {next : Compiled Meaning} (below : exits.Below level)
    (compiled : loop test level here span body post = .ok piece)
    (bodyRenders : Renders.fragment (exits.offering ⟨true, labels⟩ level) body again)
    (postRenders : Renders (exits.offering ⟨true, labels⟩ level) post next) :
    ∃ action after, again = .ok action ∧ next = .ok ⟨after, piece.frame⟩ ∧
      Means exits here piece.lines (.loop test labels action after) := by
  have parts {start : Nat} {first : Fragment} {last : Piece} (isFirst : body start = .ok first)
      (isLast : post (start + first.length) = .ok last) :
      ∃ action after, again = .ok action ∧ next = .ok ⟨after, last.frame⟩ ∧
        Means (exits.offering ⟨true, labels⟩ level) start first.lines action ∧
        Means (exits.offering ⟨true, labels⟩ level) (start + first.length) last.lines after := by
    obtain ⟨action, isAction, bodyMeans⟩ := bodyRenders start first isFirst
    obtain ⟨after, isAfter, postMeans⟩ := postRenders _ last isLast
    exact ⟨action, after, isAction, isAfter, bodyMeans, postMeans⟩
  cases test with
  | code code =>
    simp only [loop, Compiled.bind_eq_ok] at compiled
    obtain ⟨first, isFirst, last, isLast, ends⟩ := compiled
    cases ends
    obtain ⟨action, after, isAction, isAfter, bodyMeans, postMeans⟩ := parts isFirst isLast
    refine ⟨action, after, isAction, isAfter, ?_⟩
    have runs : Cond.code code ≠ .const false := by simp
    exact .loop runs below rfl rfl rfl bodyMeans postMeans
  | const value =>
    cases value with
    | true =>
      simp only [loop, Compiled.bind_eq_ok] at compiled
      obtain ⟨first, isFirst, last, isLast, ends⟩ := compiled
      cases ends
      obtain ⟨action, after, isAction, isAfter, bodyMeans, postMeans⟩ := parts isFirst isLast
      refine ⟨action, after, isAction, isAfter, ?_⟩
      have runs : Cond.const true ≠ .const false := by simp
      exact .loop runs below rfl rfl rfl bodyMeans postMeans
    | false =>
      simp only [loop, Compiled.bind_eq_ok] at compiled
      obtain ⟨first, isFirst, last, isLast, ends⟩ := compiled
      cases ends
      obtain ⟨action, after, isAction, isAfter, -, -⟩ := parts isFirst isLast
      exact ⟨action, after, isAction, isAfter, .loop_never exits here labels action after⟩

namespace Compile

variable {outer : Scope} {frame : Frame} {labels : List String}

theorem effect_renders {instr : Instr} {part : Caller → EnvRef → Run Unit}
    (simple : instr.isSimple = true) (does : effect instr = part) (exits : Exits) (here : Nat) :
    Means exits here [⟨instr, span⟩] (.effect part) :=
  does ▸ .effect simple exits here span

theorem define_renders {lhs : List Expr} {rhs : Rhs} (exits : Exits) :
    Renders exits (fun _ => define frame lhs rhs span) (Meaning.define frame lhs rhs span) := by
  intro here piece compiled
  simp only [define, Compiled.bind_eq_ok] at compiled
  obtain ⟨types, isTypes, definition, isDefinition, compiled⟩ := compiled
  split at compiled
  · cases compiled
  · obtain ⟨values, isValues, ends⟩ := Compiled.bind_eq_ok.mp compiled
    cases ends
    exact ⟨_, Compiled.bind_eq_ok.mpr ⟨_, isTypes, Compiled.bind_eq_ok.mpr ⟨_, isDefinition,
      Compiled.bind_eq_ok.mpr ⟨_, isValues, rfl⟩⟩⟩, effect_renders rfl rfl exits here⟩

theorem update_renders {op : BinaryOp} {target : Expr} {found : Place} {type : Ty}
    {operand : Compiled Operand} {given : Operand}
    (isPlace : place (frame :: outer) target = .ok found) (isType : compoundType op found span = .ok type)
    (isGiven : operand = .ok given) (exits : Exits) :
    Renders.fragment exits (fun _ => update op found type given span)
      (Meaning.update (frame :: outer) op target operand span) := by
  intro here fragment compiled
  obtain ⟨converted, isConverted, ends⟩ := Compiled.bind_eq_ok.mp compiled
  cases ends
  exact ⟨_, Compiled.bind_eq_ok.mpr ⟨_, isPlace, Compiled.bind_eq_ok.mpr ⟨_, isType,
    Compiled.bind_eq_ok.mpr ⟨_, isGiven, Compiled.bind_eq_ok.mpr ⟨_, isConverted, rfl⟩⟩⟩⟩,
    effect_renders rfl rfl exits here⟩

theorem assignment_renders {lhs rhsNodes : List Expr} {op : AssignOp} (exits : Exits) :
    Renders exits (fun here => stmt outer frame here labels (.assign lhs op rhsNodes span))
      (Meaning.assignment outer frame lhs rhsNodes span op) := by
  intro here piece compiled
  simp only [stmt] at compiled
  cases op with
  | define =>
    obtain ⟨values, isValues, compiled⟩ := Compiled.bind_eq_ok.mp compiled
    obtain ⟨action, means, realizes⟩ := define_renders exits here piece compiled
    exact ⟨action, Compiled.bind_eq_ok.mpr ⟨_, isValues, means⟩, realizes⟩
  | assign =>
    simp only [assign, Compiled.bind_eq_ok] at compiled
    obtain ⟨targets, isTargets, values, isValues, fragment, ⟨codes, isCodes, same⟩, ends⟩ := compiled
    cases same
    cases ends
    exact ⟨_, Compiled.bind_eq_ok.mpr ⟨_, isTargets, Compiled.bind_eq_ok.mpr ⟨_, isValues,
      Compiled.bind_eq_ok.mpr ⟨_, isCodes, rfl⟩⟩⟩, effect_renders rfl rfl exits here⟩
  | compound op =>
    dsimp only at compiled
    split at compiled
    · cases compiled
    next single =>
    obtain ⟨target, rfl⟩ : ∃ target, lhs = [target] := List.length_eq_one_iff.mp
        (by simp at single; omega)
    obtain ⟨node, rfl⟩ : ∃ node, rhsNodes = [node] := List.length_eq_one_iff.mp (by simp at single; omega)
    simp only [places, operands, Compiled.bind_eq_ok, Compiled.pure_eq_ok] at compiled
    obtain ⟨-, -, _, ⟨found, isPlace, _, rfl, rfl⟩, compiled⟩ := compiled
    simp only [Compiled.bind_eq_ok, Compiled.pure_eq_ok] at compiled
    obtain ⟨type, isType, _, ⟨given, isGiven, _, rfl, _, rfl, rfl⟩, compiled⟩ := compiled
    obtain ⟨fragment, updated, ends⟩ := Compiled.bind_eq_ok.mp compiled
    cases ends
    obtain ⟨action, means, realizes⟩ := update_renders isPlace isType isGiven exits here fragment updated
    exact ⟨action, Compiled.bind_eq_ok.mpr ⟨_, means, rfl⟩, realizes⟩

theorem frame_renders (declares : Compiled Frame) (exits : Exits) :
    Renders exits (fun _ => declares >>= fun frame => pure (.none frame))
      (declares >>= fun frame => pure ⟨.skip, frame⟩) := by
  intro here piece compiled
  obtain ⟨after, isAfter, ends⟩ := Compiled.bind_eq_ok.mp compiled
  cases ends
  exact ⟨.skip, Compiled.bind_eq_ok.mpr ⟨_, isAfter, rfl⟩, .nil exits here⟩

theorem expr_means {piece : Piece} (operand : Operand)
    (compiled : (if operand.isConst then pure (.none frame)
      else pure (.one frame operand.toInstr operand.span) : Compiled Piece) = .ok piece)
    (exits : Exits) (here : Nat) :
    Means exits here piece.lines
      (if operand.isConst then .skip else .effect (Action.evaluate operand.toValues)) := by
  split at compiled
  next isConst =>
    cases compiled
    rw [if_pos isConst]
    exact .nil exits here
  next plain =>
  cases compiled
  rw [if_neg plain]
  refine effect_renders ?_ ?_ exits here
  · unfold Operand.toInstr
    split <;> rfl
  · obtain ⟨types, code, span⟩ := operand
    cases code with
    | const => exact absurd rfl plain
    | single | multi => rfl

theorem varSpecs_renders (specs : List ValueSpec) (frame : Frame) (exits : Exits) :
    Renders exits (fun here => varSpecs outer frame here specs)
      (Meaning.varSpecs outer frame specs) := by
  induction specs generalizing frame with
  | nil =>
    intro here piece compiled
    simp only [varSpecs] at compiled
    cases compiled
    exact ⟨.skip, rfl, .nil exits here⟩
  | cons spec rest ih =>
    obtain ⟨names, written, values, span⟩ := spec
    intro here piece compiled
    simp only [varSpecs, Compiled.bind_eq_ok] at compiled
    obtain ⟨declared, isDeclared, items, isItems, ⟨types, codes⟩, isValues, first, inits, others,
      isOthers, ends⟩ := compiled
    simp only [declareInit, Compiled.bind_eq_ok] at inits
    obtain ⟨⟨slots, after⟩, isSlots, same⟩ := inits
    cases same
    cases ends
    obtain ⟨action, means, realizes⟩ := ih after _ others isOthers
    exact ⟨_, Compiled.bind_eq_ok.mpr ⟨_, isDeclared, Compiled.bind_eq_ok.mpr ⟨_, isItems,
      Compiled.bind_eq_ok.mpr ⟨_, isValues, Compiled.bind_eq_ok.mpr ⟨_, isSlots,
        Compiled.bind_eq_ok.mpr ⟨_, means, rfl⟩⟩⟩⟩⟩,
      (effect_renders rfl rfl exits here).append realizes⟩

theorem exitStmt_renders {scope : Scope} {kind : ExitKind} {label : Option Ident} :
    Renders.fragment scope.exits (fun _ => exitStmt scope kind label span)
      (pure (.stop (.exit kind (label.map (·.name))))) := by
  intro here fragment compiled
  cases found : scope.exit? kind (label.map (·.name)) with
  | none => cases label <;> simp only [exitStmt, found] at compiled <;> cases compiled
  | some exit =>
    obtain ⟨hops, level⟩ := exit
    simp only [exitStmt, found] at compiled
    cases compiled
    exact ⟨_, rfl, .exit found here span⟩

theorem returnValues_renders (exits : Exits) (hops : Nat) (results : List Slot) (items : List Operand) :
    Renders.fragment exits (fun _ => returnValues hops results items span) (do
      let values ← returnAll results items span
      pure (.returning hops results values)) := by
  intro here fragment compiled
  simp only [returnValues, Compiled.bind_eq_ok] at compiled
  obtain ⟨values, isValues, ends⟩ := compiled
  cases ends
  exact ⟨_, by rw [isValues]; rfl, .returning exits here hops results values span⟩

theorem switchCases_length {scope : Scope} {tag : Ty} {clauses : List CaseClause}
    {listed : List (List Code)} (compiled : switchCases scope tag clauses = .ok listed) :
    listed.length = clauses.length := by
  induction clauses generalizing listed with
  | nil =>
    simp only [switchCases] at compiled
    cases compiled
    rfl
  | cons clause rest ih =>
    obtain ⟨list, statements, span⟩ := clause
    cases list with
    | none =>
      simp only [switchCases, Compiled.bind_eq_ok] at compiled
      obtain ⟨others, isOthers, ends⟩ := compiled
      cases ends
      simp [ih isOthers]
    | some list =>
      simp only [switchCases, Compiled.bind_eq_ok] at compiled
      obtain ⟨codes, -, others, isOthers, ends⟩ := compiled
      cases ends
      simp [ih isOthers]

theorem switchBodies_length {scope : Scope} {clauses : List CaseClause} {codes : List ClauseCode}
    (compiled : switchBodies scope here clauses = .ok codes) : codes.length = clauses.length := by
  induction clauses generalizing here codes with
  | nil =>
    simp only [switchBodies] at compiled
    cases compiled
    rfl
  | cons clause rest ih =>
    obtain ⟨list, statements, span⟩ := clause
    simp only [switchBodies] at compiled
    split at compiled
    · cases compiled
    · simp only [Compiled.bind_eq_ok] at compiled
      obtain ⟨body, -, others, isOthers, ends⟩ := compiled
      cases ends
      simp [ih isOthers]

theorem scopedStmts_renders {scope : Scope} {clause : Bool} {nodes : List Stmt}
    (inside : Renders (Scope.exits ({ owned := nodes.any Stmt.declares } :: scope))
      (fun here => stmts scope { owned := nodes.any Stmt.declares } here clause nodes)
      (Meaning.stmts scope { owned := nodes.any Stmt.declares } clause nodes)) :
    Renders.fragment scope.exits (fun here => scopedStmts scope here clause span nodes)
      (Meaning.inScope (nodes.any Stmt.declares) fun inner =>
        Meaning.stmts scope inner clause nodes) := by
  rw [Scope.exits_inside rfl rfl] at inside
  cases nodes with
  | nil =>
    intro here fragment compiled
    simp only [scopedStmts] at compiled
    cases compiled
    exact ⟨.skip, by simp only [Meaning.stmts]; rfl, .nil _ here⟩
  | cons node rest =>
    simp only [scopedStmts_cons]
    exact inScope_renders inside

mutual

theorem stmt_renders (outer : Scope) (frame : Frame) (labels : List String) : (node : Stmt) →
    node.structured = true → Renders (Scope.exits (frame :: outer))
      (fun here => stmt outer frame here labels node) (Meaning.stmt outer frame labels node)
  | .empty _, _ => by
    intro here piece compiled
    simp only [stmt] at compiled
    cases compiled
    exact ⟨.skip, by simp only [Meaning.stmt]; rfl, .nil _ here⟩
  | .labeled label body _, structured => by
    simp only [stmt, Meaning.stmt]
    exact stmt_renders outer frame _ body (by simpa only [Stmt.structured] using structured)
  | .block body, structured => by
    simp only [stmt, Meaning.stmt]
    exact .within (block_renders _ body (by simpa only [Stmt.structured] using structured)) frame
  | .branch kind label span, _ => by
    simp only [stmt, branchStmt]
    cases kind with
    | «break» =>
      simp only [Meaning.stmt]
      exact .within exitStmt_renders frame
    | «continue» =>
      simp only [Meaning.stmt]
      exact .within exitStmt_renders frame
    | «fallthrough» =>
      intro here piece compiled
      cases compiled
    | goto =>
      intro here piece compiled
      cases compiled
  | .ret values span, _ => by
    intro here piece compiled
    simp only [stmt, Compiled.bind_eq_ok] at compiled
    obtain ⟨⟨hops, info⟩, isFunction, compiled⟩ := compiled
    dsimp only at compiled
    simp only [Meaning.stmt]
    split at compiled
    · rename_i isEmpty
      split at compiled
      · cases compiled
      · cases compiled
        refine ⟨.stop .ret, Compiled.bind_eq_ok.mpr ⟨_, isFunction, ?_⟩, .halting _ here span⟩
        simp only [isEmpty, if_true]
        rfl
    · rename_i isEmpty
      obtain ⟨items, isItems, compiled⟩ := Compiled.bind_eq_ok.mp compiled
      obtain ⟨fragment, isFragment, ends⟩ := Compiled.bind_eq_ok.mp compiled
      cases ends
      obtain ⟨action, means, realizes⟩ :=
        returnValues_renders _ hops info.results items here fragment isFragment
      obtain ⟨values, isValues, ends⟩ := Compiled.bind_eq_ok.mp means
      cases ends
      refine ⟨_, Compiled.bind_eq_ok.mpr ⟨_, isFunction, ?_⟩, realizes⟩
      simp only [isEmpty]
      exact Compiled.bind_eq_ok.mpr ⟨_, isItems, Compiled.bind_eq_ok.mpr ⟨values, isValues, rfl⟩⟩
  | .ifElse init cond thenBranch elseBranch span, structured => by
    simp only [Stmt.structured, Bool.and_eq_true] at structured
    simp only [stmt, Meaning.stmt]
    refine .within (inScope_renders fun here piece compiled => ?_) frame
    obtain ⟨first, isFirst, compiled⟩ := Compiled.bind_eq_ok.mp compiled
    obtain ⟨start, starts, startMeans⟩ := initStmt_renders _ _ init structured.1.1 here first isFirst
    have inside := ((initStmt_like isFirst).exits (frame :: outer)).trans (Scope.exits_inside rfl rfl _)
    simp only [Compiled.bind_eq_ok] at compiled
    obtain ⟨operand, isOperand, test, isTest, rest, isRest, ends⟩ := compiled
    cases ends
    obtain ⟨yes, no, isYes, isNo, means⟩ := branches_renders isRest
      (block_renders _ thenBranch structured.1.2)
      (fun other isOther => by
        split at isOther
        · cases isOther
          exact elseStmt_renders (frame :: outer) first.frame elseBranch structured.2
        · cases isOther)
      (fun missing => by
        cases elseBranch with
        | none => simp only [Meaning.branch]; rfl
        | some node => cases missing)
    rw [Scope.exits_inside rfl rfl] at startMeans
    rw [inside] at means
    refine ⟨start.andThen (.choose test yes no), ?_, startMeans.append means⟩
    exact Compiled.bind_eq_ok.mpr ⟨_, starts, Compiled.bind_eq_ok.mpr ⟨_, isOperand,
      Compiled.bind_eq_ok.mpr ⟨_, isTest, Compiled.bind_eq_ok.mpr ⟨_, isYes,
        Compiled.bind_eq_ok.mpr ⟨_, isNo, rfl⟩⟩⟩⟩⟩
  | .forLoop init cond post body span, structured => by
    simp only [Stmt.structured, Bool.and_eq_true] at structured
    simp only [stmt, Meaning.stmt]
    refine .within (inScope_renders fun here piece compiled => ?_) frame
    obtain ⟨first, isFirst, compiled⟩ := Compiled.bind_eq_ok.mp compiled
    obtain ⟨start, starts, startMeans⟩ := initStmt_renders _ _ init structured.1.1 here first isFirst
    have offers := (initStmt_like isFirst).exits_offering ⟨true, labels⟩ rfl (frame :: outer)
    simp only [Compiled.bind_eq_ok] at compiled
    obtain ⟨test, isTest, rest, isRest, ends⟩ := compiled
    cases ends
    have again := block_renders ({ first.frame with loop := some ⟨true, labels⟩ } :: frame :: outer) body
      structured.2
    have next := postStmt_renders (frame :: outer) { first.frame with loop := some ⟨true, labels⟩ } post
      structured.1.2
    rw [offers] at again next
    obtain ⟨action, after, isAction, isAfter, means⟩ :=
      loop_renders ((Scope.exits_below (frame :: outer)).inside _) isRest again next
    rw [Scope.exits_inside rfl rfl] at startMeans
    refine ⟨start.andThen (.loop test labels action after), ?_, startMeans.append means⟩
    exact Compiled.bind_eq_ok.mpr ⟨_, starts, Compiled.bind_eq_ok.mpr ⟨_, isTest,
      Compiled.bind_eq_ok.mpr ⟨_, isAction, Compiled.bind_eq_ok.mpr ⟨_, isAfter, rfl⟩⟩⟩⟩
  | .switch init tag clauses span, structured => by
    simp only [Stmt.structured, Bool.and_eq_true] at structured
    simp only [stmt, Meaning.stmt]
    refine .within (inScope_renders fun here piece compiled => ?_) frame
    obtain ⟨first, isFirst, compiled⟩ := Compiled.bind_eq_ok.mp compiled
    obtain ⟨start, starts, startMeans⟩ := initStmt_renders _ _ init structured.1 here first isFirst
    have offers := (initStmt_like isFirst).exits_offering ⟨false, labels⟩ rfl (frame :: outer)
    simp only [Compiled.bind_eq_ok] at compiled
    obtain ⟨operand, isTag, type, isType, default, isDefault, listed, isListed, codes, isCodes, ends⟩ :=
      compiled
    cases ends
    obtain ⟨bodies, isBodies, means⟩ := switchBodies_renders _ clauses structured.2 _ codes isCodes
    rw [offers] at means
    rw [Scope.exits_inside rfl rfl] at startMeans
    have lengths := (switchCases_length isListed).trans (switchBodies_length isCodes).symm
    refine ⟨_, ?_, startMeans.append (.switch ((Scope.exits_below (frame :: outer)).inside _) means
      lengths)⟩
    exact Compiled.bind_eq_ok.mpr ⟨_, starts, Compiled.bind_eq_ok.mpr ⟨_, isTag,
      Compiled.bind_eq_ok.mpr ⟨_, isType, Compiled.bind_eq_ok.mpr ⟨_, isDefault,
        Compiled.bind_eq_ok.mpr ⟨_, isListed, Compiled.bind_eq_ok.mpr ⟨_, isBodies, rfl⟩⟩⟩⟩⟩⟩
  | .expr node, _ => by
    intro here piece compiled
    simp only [stmt] at compiled
    obtain ⟨operand, isOperand, ends⟩ := Compiled.bind_eq_ok.mp compiled
    simp only [Meaning.stmt]
    refine ⟨_, Compiled.bind_eq_ok.mpr ⟨operand, isOperand, ?_⟩, expr_means operand ends _ here⟩
    split at ends <;> cases ends <;> rfl
  | .assign lhs op rhs span, _ => by
    simp only [Meaning.stmt]
    exact assignment_renders _
  | .incDec target increment span, _ => by
    intro here piece compiled
    simp only [stmt, Compiled.bind_eq_ok] at compiled
    obtain ⟨found, isPlace, type, isType, fragment, updated, ends⟩ := compiled
    cases ends
    obtain ⟨action, means, realizes⟩ := update_renders isPlace isType rfl _ here fragment updated
    simp only [Meaning.stmt]
    exact ⟨action, Compiled.bind_eq_ok.mpr ⟨_, means, rfl⟩, realizes⟩
  | .decl (.var specs span), _ => by
    simp only [stmt, decl, Meaning.stmt]
    exact varSpecs_renders specs frame _
  | .decl (.const specs span), _ => by
    simp only [stmt, decl, Meaning.stmt]
    exact frame_renders _ _
  | .decl (.type specs span), _ => by
    simp only [stmt, decl, Meaning.stmt]
    exact frame_renders _ _

theorem initStmt_renders (outer : Scope) (frame : Frame) : (node : Option Stmt) →
    Stmt.structuredIn node = true → Renders (Scope.exits (frame :: outer))
      (fun here => initStmt outer frame here node) (Meaning.optional outer frame node)
  | none, _ => by
    intro here piece compiled
    simp only [initStmt] at compiled
    cases compiled
    exact ⟨.skip, by simp only [Meaning.optional]; rfl, .nil _ here⟩
  | some node, structured => by
    simp only [initStmt, Meaning.optional]
    exact stmt_renders outer frame [] node (by simpa only [Stmt.structuredIn] using structured)

theorem postStmt_renders (outer : Scope) (frame : Frame) : (node : Option Stmt) →
    Stmt.structuredIn node = true → Renders (Scope.exits (frame :: outer))
      (fun here => postStmt outer frame here node) (Meaning.optional outer frame node)
  | none, _ => by
    intro here piece compiled
    simp only [postStmt] at compiled
    cases compiled
    exact ⟨.skip, by simp only [Meaning.optional]; rfl, .nil _ here⟩
  | some node, structured => by
    simp only [postStmt, Meaning.optional]
    split
    · intro here piece compiled
      cases compiled
    · exact stmt_renders outer frame [] node (by simpa only [Stmt.structuredIn] using structured)

theorem elseStmt_renders (outer : Scope) (frame : Frame) : (node : Option Stmt) →
    Stmt.structuredIn node = true → Renders.fragment (Scope.exits (frame :: outer))
      (fun here => elseStmt outer frame here node) (Meaning.branch outer frame node)
  | none, _ => by
    intro here piece compiled
    simp only [elseStmt] at compiled
    cases compiled
    exact ⟨.skip, by simp only [Meaning.branch]; rfl, .nil _ here⟩
  | some node, structured => by
    have structured : node.structured = true := by simpa only [Stmt.structuredIn] using structured
    simp only [elseStmt, Meaning.branch]
    split
    · intro here fragment compiled
      obtain ⟨piece, isPiece, ends⟩ := Compiled.bind_eq_ok.mp compiled
      cases ends
      obtain ⟨action, means, realizes⟩ := stmt_renders outer frame [] node structured here piece isPiece
      exact ⟨action, by rw [means]; rfl, realizes⟩
    · refine inScope_renders ?_
      rw [← Scope.exits_inside rfl rfl]
      exact stmt_renders _ _ [] node structured

theorem stmts_renders (outer : Scope) (frame : Frame) (clause : Bool) : (nodes : List Stmt) →
    Stmt.structuredAll nodes = true → Renders (Scope.exits (frame :: outer))
      (fun here => stmts outer frame here clause nodes) (Meaning.stmts outer frame clause nodes)
  | [], _ => by
    intro here piece compiled
    simp only [stmts] at compiled
    cases compiled
    exact ⟨.skip, by simp only [Meaning.stmts]; rfl, .nil _ here⟩
  | node :: rest, structured => by
    simp only [Stmt.structuredAll, Bool.and_eq_true] at structured
    intro here piece compiled
    simp only [stmts] at compiled
    simp only [Meaning.stmts]
    split at compiled
    · rename_i falls
      cases compiled
      exact ⟨.skip, by rw [if_pos falls]; rfl, .nil _ here⟩
    · rename_i falls
      rw [if_neg falls]
      simp only [Compiled.bind_eq_ok] at compiled
      obtain ⟨first, isFirst, others, isOthers, ends⟩ := compiled
      cases ends
      obtain ⟨action, means, realizes⟩ := stmt_renders outer frame [] node structured.1 here first isFirst
      obtain ⟨more, meansMore, realizesMore⟩ :=
        stmts_renders outer first.frame clause rest structured.2 _ others isOthers
      rw [(stmt_like node isFirst).exits] at realizesMore
      exact ⟨action.andThen more, Compiled.bind_eq_ok.mpr ⟨_, means, Compiled.bind_eq_ok.mpr
        ⟨_, meansMore, rfl⟩⟩, realizes.append realizesMore⟩

theorem block_renders (scope : Scope) : (body : Block) → body.structured = true →
    Renders.fragment scope.exits (fun here => block scope here body) (Meaning.block scope body)
  | .mk statements span, structured => by
    simp only [block, Meaning.block]
    exact scopedStmts_renders (stmts_renders scope _ false statements
      (by simpa only [Block.structured] using structured))

theorem switchBodies_renders (scope : Scope) : (clauses : List CaseClause) →
    CaseClause.structuredAll clauses = true → ∀ here codes, switchBodies scope here clauses = .ok codes →
      ∃ bodies, Meaning.clauseBodies scope clauses = .ok bodies ∧
        ClausesMean scope.exits here codes bodies
  | [], _ => by
    intro here codes compiled
    simp only [switchBodies] at compiled
    cases compiled
    exact ⟨[], by simp only [Meaning.clauseBodies]; rfl, .nil⟩
  | .mk list statements span :: rest, structured => by
    simp only [CaseClause.structuredAll, Bool.and_eq_true] at structured
    intro here codes compiled
    simp only [switchBodies] at compiled
    split at compiled
    · cases compiled
    · simp only [Compiled.bind_eq_ok] at compiled
      obtain ⟨body, isBody, others, isOthers, ends⟩ := compiled
      cases ends
      obtain ⟨action, means, realizes⟩ := scopedStmts_renders
        (stmts_renders scope _ true statements structured.1) here body isBody
      obtain ⟨bodies, meansOthers, clauses⟩ :=
        switchBodies_renders scope rest structured.2 _ others isOthers
      refine ⟨_, ?_, .cons realizes clauses⟩
      simp only [Meaning.clauseBodies]
      exact Compiled.bind_eq_ok.mpr ⟨_, means, Compiled.bind_eq_ok.mpr ⟨_, meansOthers, rfl⟩⟩

end

theorem function_renders {scope : Scope} {head : FuncHead} {body : Block} {template : Template}
    (structured : body.structured = true) (compiled : function scope head span body = .ok template) :
    ∃ action lines, Meaning.function scope head span body = .ok action ∧
      template.program.lines = lines.toArray ∧ Means (fun _ _ => none) 0 lines action := by
  obtain ⟨statements, last⟩ := body
  simp only [function, Compiled.bind_eq_ok] at compiled
  obtain ⟨signature, isHead, ⟨params, results, frame⟩, isFrame, piece, isPiece, ends⟩ := compiled
  cases ends
  obtain ⟨loop, func⟩ := functionFrame_loop isFrame
  obtain ⟨action, means, realizes⟩ := stmts_renders scope frame false statements
    (by simpa only [Block.structured] using structured) 0 piece isPiece
  have closed : Scope.exits (frame :: scope) = fun _ _ => none :=
    funext fun kind => funext (Scope.exits_function loop func scope kind)
  refine ⟨action, piece.lines, ?_, rfl, closed ▸ realizes⟩
  simp only [Meaning.function]
  exact Compiled.bind_eq_ok.mpr ⟨_, isHead, Compiled.bind_eq_ok.mpr ⟨_, isFrame,
    Compiled.bind_eq_ok.mpr ⟨_, means, rfl⟩⟩⟩

end Compile

end MiniGo
