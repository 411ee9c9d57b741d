import MiniGo.Proofs.Statements
/-!
Environments that are pushed and not popped again. The code of a whole statement pops what it pushes,
so where an instruction stands inside a statement can be told from the pushes before it.
-/

namespace MiniGo

/-- What an instruction adds to the environments in use. Jumps that leave environments do not count:
they go to a place that is outside of them. -/
def Line.opens (line : Line) : Int :=
  match line.instr with
  | .push _ _ => 1
  | .pop => -1
  | _ => 0

def nesting (lines : List Line) : Int := (lines.map Line.opens).sum

@[simp] theorem nesting_nil : nesting [] = 0 := rfl

@[simp] theorem nesting_cons (line : Line) (lines : List Line) :
    nesting (line :: lines) = line.opens + nesting lines := by
  simp [nesting]

@[simp] theorem nesting_append (first second : List Line) :
    nesting (first ++ second) = nesting first + nesting second := by
  simp [nesting]

@[simp] theorem Line.close_opens (line : Line) (level breakTo continueTo : Nat) :
    (line.close level breakTo continueTo).opens = line.opens := by
  rcases line with ⟨instr, span⟩
  cases instr <;> rfl

@[simp] theorem nesting_close (lines : List Line) (level breakTo continueTo : Nat) :
    nesting (lines.map (·.close level breakTo continueTo)) = nesting lines := by
  induction lines with
  | nil => rfl
  | cons line lines ih => simp [ih]

def Fragment.Balanced (fragment : Fragment) : Prop := nesting fragment.lines = 0

namespace Fragment.Balanced

variable {first second : Fragment}

theorem nil : Balanced {} := rfl

theorem append (balanced : first.Balanced) (other : second.Balanced) : (first ++ second).Balanced := by
  rw [Balanced] at balanced other ⊢
  rw [append_lines, nesting_append, balanced, other, Int.add_zero]

theorem dead (fragment : Fragment) : fragment.dead.Balanced := rfl

theorem close (balanced : first.Balanced) (level breakTo continueTo : Nat) :
    (first.close level breakTo continueTo).Balanced := by
  rw [Balanced] at balanced ⊢
  exact (nesting_close _ _ _ _).trans balanced

theorem one {instr : Instr} {span : Span} (flat : Line.opens ⟨instr, span⟩ = 0) :
    (Fragment.one instr span).Balanced := by
  rw [Balanced, one_lines, nesting_cons, flat]
  rfl

end Fragment.Balanced

open Fragment (Balanced)

theorem inScope_balanced {owned : Bool} {span : Span} {here : Nat}
    {compile : Frame → Nat → Compiled Piece} {fragment : Fragment}
    (compiled : inScope owned span here compile = .ok fragment)
    (inside : ∀ frame here piece, compile frame here = .ok piece → piece.Balanced) :
    fragment.Balanced := by
  simp only [inScope, Compiled.bind_eq_ok] at compiled
  obtain ⟨piece, found, rest⟩ := compiled
  have balanced : nesting piece.lines = 0 := inside _ _ piece found
  split at rest
  · split at rest
    · cases rest
    · cases rest
      simp [Fragment.Balanced, balanced, Line.opens]
  · split at rest
    · cases rest
    · cases rest
      exact balanced

theorem exitStmt_balanced {scope : Scope} {kind : ExitKind} {label : Option Ident} {span : Span}
    {fragment : Fragment} (compiled : exitStmt scope kind label span = .ok fragment) :
    fragment.Balanced := by
  unfold exitStmt at compiled
  dsimp only at compiled
  split at compiled <;> cases compiled
  exact .one rfl

theorem branches_balanced {cond : Cond} {here : Nat} {condSpan span : Span}
    {thenPart : Nat → Compiled Fragment} {elsePart : Option (Nat → Compiled Fragment)}
    {fragment : Fragment} (compiled : branches cond here condSpan span thenPart elsePart = .ok fragment)
    (thenInside : ∀ here part, thenPart here = .ok part → part.Balanced)
    (elseInside : ∀ other, elsePart = some other → ∀ here part, other here = .ok part →
      part.Balanced) : fragment.Balanced := by
  cases cond with
  | const value =>
    simp only [branches, Compiled.bind_eq_ok] at compiled
    obtain ⟨first, foundFirst, compiled⟩ := compiled
    have kept : (if value then first else first.dead).Balanced := by
      cases value
      · exact .dead _
      · exact thenInside _ _ foundFirst
    cases elsePart with
    | none =>
      cases compiled
      exact kept
    | some other =>
      simp only [Compiled.bind_eq_ok] at compiled
      obtain ⟨second, foundSecond, ends⟩ := compiled
      cases ends
      refine kept.append ?_
      cases value
      · exact elseInside other rfl _ _ foundSecond
      · exact .dead _
  | code code =>
    simp only [branches, Compiled.bind_eq_ok] at compiled
    obtain ⟨first, foundFirst, compiled⟩ := compiled
    have firstBalanced := thenInside _ _ foundFirst
    cases elsePart with
    | none =>
      cases compiled
      exact (Balanced.one rfl).append firstBalanced
    | some other =>
      simp only [Compiled.bind_eq_ok] at compiled
      obtain ⟨second, foundSecond, ends⟩ := compiled
      cases ends
      exact (((Balanced.one rfl).append firstBalanced).append (.one rfl)).append
        (elseInside other rfl _ _ foundSecond)

theorem loop_balanced {cond : Cond} {level here : Nat} {span : Span} {body : Nat → Compiled Fragment}
    {post : Nat → Compiled Piece} {piece : Piece}
    (compiled : loop cond level here span body post = .ok piece)
    (bodyInside : ∀ here part, body here = .ok part → part.Balanced)
    (postInside : ∀ here part, post here = .ok part → part.Balanced) : piece.Balanced := by
  unfold loop at compiled
  split at compiled
  · simp only [Compiled.bind_eq_ok] at compiled
    obtain ⟨part, -, last, -, ends⟩ := compiled
    cases ends
    rfl
  · simp only [Compiled.bind_eq_ok] at compiled
    obtain ⟨part, foundBody, last, foundPost, ends⟩ := compiled
    cases ends
    refine (Balanced.append ?_ ?_).append (.one rfl)
    · split
      · exact .one rfl
      · exact .nil
    · exact ((bodyInside _ _ foundBody).append (postInside _ _ foundPost)).close _ _ _

theorem Compile.rangeLoop_balanced {kind : RangeKind} {keyType : Ty} {slots : RangeSlots} {subject : Code}
    {key value : Option Place} {body : Fragment} {level here : Nat} {span : Span}
    (balanced : body.Balanced) :
    (Compile.rangeLoop kind keyType slots subject key value body level here span).Balanced := by
  unfold Compile.rangeLoop
  refine ((((Balanced.one rfl).append (.one rfl)).append (balanced.close _ _ _)).append ?_).append
    (.one rfl)
  split
  · exact .nil
  · exact .one rfl

theorem ClauseCode.join_balanced {codes : List ClauseCode} (breakTo : Nat)
    (inside : ∀ code ∈ codes, code.body.Balanced) : (ClauseCode.join breakTo codes).Balanced := by
  induction codes with
  | nil => exact .nil
  | cons code rest ih =>
    rw [List.forall_mem_cons] at inside
    exact (inside.1.append (.one rfl)).append (ih inside.2)

theorem dispatched_balanced {level here : Nat} {span : Span} {codes : List ClauseCode}
    {dispatch : List Nat → Nat → Instr} (inside : ∀ code ∈ codes, code.body.Balanced)
    (flat : ∀ starts breakTo, Line.opens ⟨dispatch starts breakTo, span⟩ = 0) :
    (dispatched level here span codes dispatch).Balanced :=
  (Balanced.one (flat _ _)).append ((ClauseCode.join_balanced _ inside).close _ _ _)

namespace Compile

def typeSwitchBody (scope : Scope) (parked : Option (Ident × Slot)) (type : Ty) (here : Nat)
    (span : Span) (statements : List Stmt) : Compiled Fragment :=
  match parked with
  | none => scopedStmts scope here false span statements
  | some (ident, subject) =>
    inScope true span here fun inner here => do
      let (slot, inner) ← inner.declareVar ident.name type ident.span
      let copy : Fragment := match slot with
        | some slot => .one (.adopt [(subject, slot)]) span
        | none => {}
      let body ← stmts scope inner (here + copy.length) false statements
      pure ((copy ++ body.toFragment).within body.frame)

theorem typeSwitchBodies_cons (scope : Scope) (parked : Option (Ident × Slot)) (types : List Ty)
    (here : Nat) (list : Option (List Expr)) (statements : List Stmt) (span : Span)
    (rest : List CaseClause) :
    typeSwitchBodies scope parked types here (.mk list statements span :: rest) =
      if statements.getLast?.any Stmt.isFallthrough then fault (.misplacedFallthrough .typeSwitch) span
      else typeSwitchBody scope parked (types.headD .any) here span statements >>= fun body =>
        typeSwitchBodies scope parked types.tail (here + body.length + 1) rest >>= fun others =>
          pure ({ start := here, body, span } :: others) := by
  simp only [typeSwitchBodies, typeSwitchBody]
  cases parked <;> rfl

def selectBody (scope : Scope) (parked : Option (Slot × Slot)) (receive : Option Receive) (here : Nat)
    (span : Span) (statements : List Stmt) : Compiled Fragment :=
  match receive, parked with
  | some (.define value flag elem), some (valueSlot, flagSlot) =>
    inScope (value.isSome || flag.isSome) span here fun inner here => do
      let (slots, inner) ← inner.declareParams [(value, elem), (flag, .bool)]
      let pairs := ([valueSlot, flagSlot].zip slots).filterMap fun (source, slot) =>
        slot.map (source, ·)
      let copy : Fragment := if value.isSome || flag.isSome then .one (.adopt pairs) span else {}
      let body ← stmts scope inner (here + copy.length) false statements
      pure ((copy ++ body.toFragment).within body.frame)
  | some (.assign value flag), some parked => do
    let body ← scopedStmts scope (here + 1) false span statements
    pure (Fragment.one (.unpark parked value flag) span ++ body)
  | _, _ => scopedStmts scope here false span statements

theorem selectBodies_cons (scope : Scope) (parked : Option (Slot × Slot))
    (receives : List (Option Receive)) (here : Nat) (comm : Option Stmt) (statements : List Stmt)
    (span : Span) (rest : List CommClause) :
    selectBodies scope parked receives here (.mk comm statements span :: rest) =
      (selectBody scope parked receives.head?.join here span statements >>= fun body =>
        selectBodies scope parked receives.tail (here + body.length + 1) rest >>= fun others =>
          pure ({ start := here, body, span } :: others)) := by
  simp only [selectBodies, selectBody, ClauseCode.next]
  generalize receives.head?.join = receive
  rcases receive with _ | _ | _ | _ <;> cases parked <;> simp only [bind_assoc, pure_bind]

theorem varSpecs_balanced {outer : Scope} {frame : Frame} {here : Nat} {piece : Piece}
    {specs : List ValueSpec} (compiled : varSpecs outer frame here specs = .ok piece) :
    piece.Balanced := by
  induction specs generalizing frame here piece with
  | nil =>
    simp only [varSpecs] at compiled
    cases compiled
    rfl
  | cons spec rest ih =>
    obtain ⟨names, written, values, span⟩ := spec
    simp only [varSpecs, Compiled.bind_eq_ok] at compiled
    obtain ⟨declared, -, items, -, ⟨types, codes⟩, -, first, inits, others, second, ends⟩ := compiled
    simp only [declareInit, Compiled.bind_eq_ok] at inits
    obtain ⟨⟨slots, middle⟩, -, same⟩ := inits
    cases same
    cases ends
    exact (Balanced.one rfl).append (ih second)

theorem decl_balanced {outer : Scope} {frame : Frame} {here : Nat} {piece : Piece}
    {declaration : Decl} (compiled : decl outer frame here declaration = .ok piece) :
    piece.Balanced := by
  cases declaration with
  | var specs span =>
    simp only [decl] at compiled
    exact varSpecs_balanced compiled
  | const specs span | type specs span =>
    simp only [decl, Compiled.bind_eq_ok] at compiled
    obtain ⟨after, -, ends⟩ := compiled
    cases ends
    rfl
  | func name head body span =>
    simp only [decl, Compiled.bind_eq_ok] at compiled
    obtain ⟨signature, -, ⟨slot, middle⟩, -, template, -, ends⟩ := compiled
    cases slot <;> cases ends
    · rfl
    · exact .one rfl

/-- Statements whose code pops what it pushes, with or without a scope of their own. -/
structure StatementsBalanced (statements : List Stmt) : Prop where
  plain : ∀ {outer frame here clause piece}, stmts outer frame here clause statements = .ok piece →
    piece.Balanced
  enclosed : ∀ {scope here clause span fragment},
    scopedStmts scope here clause span statements = .ok fragment → fragment.Balanced

namespace StatementsBalanced

variable {statements : List Stmt} {scope : Scope} {here : Nat} {span : Span} {fragment : Fragment}

theorem typeSwitchBody {parked : Option (Ident × Slot)} {type : Ty}
    (balanced : StatementsBalanced statements)
    (compiled : Compile.typeSwitchBody scope parked type here span statements = .ok fragment) :
    fragment.Balanced := by
  cases parked with
  | none => exact balanced.enclosed compiled
  | some entry =>
    simp only [Compile.typeSwitchBody] at compiled
    refine inScope_balanced compiled fun frame here piece content => ?_
    simp only [Compiled.bind_eq_ok] at content
    obtain ⟨⟨slot, inner⟩, -, last, found, ends⟩ := content
    cases ends
    refine Balanced.append ?_ (balanced.plain found)
    cases slot
    · exact .nil
    · exact .one rfl

theorem selectBody {parked : Option (Slot × Slot)} {receive : Option Receive}
    (balanced : StatementsBalanced statements)
    (compiled : Compile.selectBody scope parked receive here span statements = .ok fragment) :
    fragment.Balanced := by
  unfold Compile.selectBody at compiled
  split at compiled
  · refine inScope_balanced compiled fun frame here piece content => ?_
    simp only [Compiled.bind_eq_ok] at content
    obtain ⟨⟨slots, inner⟩, -, last, found, ends⟩ := content
    cases ends
    refine Balanced.append ?_ (balanced.plain found)
    split
    · exact .one rfl
    · exact .nil
  · simp only [Compiled.bind_eq_ok] at compiled
    obtain ⟨part, found, ends⟩ := compiled
    cases ends
    exact (Balanced.one rfl).append (balanced.enclosed found)
  · exact balanced.enclosed compiled

end StatementsBalanced

mutual

theorem stmts_balanced {outer : Scope} {frame : Frame} {here : Nat} {clause : Bool} {piece : Piece} :
    (nodes : List Stmt) → stmts outer frame here clause nodes = .ok piece → piece.Balanced
  | [], compiled => by
    simp only [stmts] at compiled
    cases compiled
    rfl
  | node :: rest, compiled => by
    simp only [stmts] at compiled
    split at compiled
    · cases compiled
      rfl
    · simp only [Compiled.bind_eq_ok] at compiled
      obtain ⟨first, foundFirst, others, foundOthers, ends⟩ := compiled
      cases ends
      exact Balanced.append (stmt_balanced node foundFirst) (stmts_balanced rest foundOthers)

theorem scopedStmts_balanced {scope : Scope} {here : Nat} {clause : Bool} {span : Span}
    {fragment : Fragment} : (nodes : List Stmt) →
    scopedStmts scope here clause span nodes = .ok fragment → fragment.Balanced
  | [], compiled => by
    simp only [scopedStmts] at compiled
    cases compiled
    rfl
  | node :: rest, compiled => by
    simp only [scopedStmts] at compiled
    refine inScope_balanced compiled fun frame here piece content => ?_
    split at content
    · cases content
      rfl
    · simp only [Compiled.bind_eq_ok] at content
      obtain ⟨first, foundFirst, others, foundOthers, ends⟩ := content
      cases ends
      exact Balanced.append (stmt_balanced node foundFirst) (stmts_balanced rest foundOthers)

theorem block_balanced {scope : Scope} {here : Nat} {fragment : Fragment} : (body : Block) →
    block scope here body = .ok fragment → fragment.Balanced
  | .mk statements span, compiled => by
    simp only [block] at compiled
    exact scopedStmts_balanced statements compiled

theorem initStmt_balanced {outer : Scope} {frame : Frame} {here : Nat} {piece : Piece} :
    (node : Option Stmt) → initStmt outer frame here node = .ok piece → piece.Balanced
  | none, compiled => by
    simp only [initStmt] at compiled
    cases compiled
    rfl
  | some node, compiled => by
    simp only [initStmt] at compiled
    exact stmt_balanced node compiled

theorem postStmt_balanced {outer : Scope} {frame : Frame} {here : Nat} {piece : Piece} :
    (node : Option Stmt) → postStmt outer frame here node = .ok piece → piece.Balanced
  | none, compiled => by
    simp only [postStmt] at compiled
    cases compiled
    rfl
  | some node, compiled => by
    simp only [postStmt] at compiled
    split at compiled
    · cases compiled
    · exact stmt_balanced node compiled

theorem elseStmt_balanced {outer : Scope} {frame : Frame} {here : Nat} {fragment : Fragment} :
    (node : Option Stmt) → elseStmt outer frame here node = .ok fragment → fragment.Balanced
  | none, compiled => by
    simp only [elseStmt] at compiled
    cases compiled
    rfl
  | some node, compiled => by
    simp only [elseStmt] at compiled
    split at compiled
    · simp only [Compiled.bind_eq_ok] at compiled
      obtain ⟨piece, found, ends⟩ := compiled
      cases ends
      exact stmt_balanced node found
    · exact inScope_balanced compiled fun frame here piece content => stmt_balanced node content

theorem switchBodies_balanced {scope : Scope} {here : Nat} {codes : List ClauseCode} :
    (clauses : List CaseClause) → switchBodies scope here clauses = .ok codes →
    ∀ code ∈ codes, code.body.Balanced
  | [], compiled => by
    simp only [switchBodies] at compiled
    cases compiled
    simp
  | .mk list statements span :: rest, compiled => by
    simp only [switchBodies] at compiled
    split at compiled
    · cases compiled
    · simp only [Compiled.bind_eq_ok] at compiled
      obtain ⟨body, foundBody, others, foundOthers, ends⟩ := compiled
      cases ends
      exact List.forall_mem_cons.mpr
        ⟨scopedStmts_balanced statements foundBody, switchBodies_balanced rest foundOthers⟩

theorem typeSwitchBodies_balanced {scope : Scope} {parked : Option (Ident × Slot)} {types : List Ty}
    {here : Nat} {codes : List ClauseCode} : (clauses : List CaseClause) →
    typeSwitchBodies scope parked types here clauses = .ok codes →
    ∀ code ∈ codes, code.body.Balanced
  | [], compiled => by
    simp only [typeSwitchBodies] at compiled
    cases compiled
    simp
  | .mk list statements span :: rest, compiled => by
    rw [typeSwitchBodies_cons] at compiled
    split at compiled
    · cases compiled
    · simp only [Compiled.bind_eq_ok] at compiled
      obtain ⟨body, foundBody, others, foundOthers, ends⟩ := compiled
      cases ends
      exact List.forall_mem_cons.mpr
        ⟨StatementsBalanced.typeSwitchBody ⟨stmts_balanced statements, scopedStmts_balanced statements⟩
          foundBody, typeSwitchBodies_balanced rest foundOthers⟩

theorem selectBodies_balanced {scope : Scope} {parked : Option (Slot × Slot)}
    {receives : List (Option Receive)} {here : Nat} {codes : List ClauseCode} :
    (clauses : List CommClause) → selectBodies scope parked receives here clauses = .ok codes →
    ∀ code ∈ codes, code.body.Balanced
  | [], compiled => by
    simp only [selectBodies] at compiled
    cases compiled
    simp
  | .mk comm statements span :: rest, compiled => by
    simp only [selectBodies_cons, Compiled.bind_eq_ok] at compiled
    obtain ⟨body, foundBody, others, foundOthers, ends⟩ := compiled
    cases ends
    exact List.forall_mem_cons.mpr
      ⟨StatementsBalanced.selectBody ⟨stmts_balanced statements, scopedStmts_balanced statements⟩
        foundBody, selectBodies_balanced rest foundOthers⟩

theorem stmt_balanced {outer : Scope} {frame : Frame} {here : Nat} {labels : List String}
    {piece : Piece} : (node : Stmt) → stmt outer frame here labels node = .ok piece → piece.Balanced
  | .labeled label body span, compiled => by
    simp only [stmt] at compiled
    exact stmt_balanced body compiled
  | .decl declaration, compiled => by
    simp only [stmt] at compiled
    exact decl_balanced compiled
  | .assign lhs op values span, compiled => by
    simp only [stmt] at compiled
    cases op with
    | define =>
      simp only [define, Compiled.bind_eq_ok] at compiled
      obtain ⟨values, -, types, -, definition, -, compiled⟩ := compiled
      split at compiled
      · cases compiled
      · simp only [Compiled.bind_eq_ok] at compiled
        obtain ⟨codes, -, ends⟩ := compiled
        cases ends
        exact .one rfl
    | assign =>
      simp only [MiniGo.assign, Compiled.bind_eq_ok] at compiled
      obtain ⟨targets, -, values, -, fragment, ⟨codes, -, made⟩, ends⟩ := compiled
      cases made
      cases ends
      exact .one rfl
    | compound op =>
      dsimp only at compiled
      split at compiled
      · cases compiled
      · simp only [Compiled.bind_eq_ok] at compiled
        obtain ⟨-, -, targets, -, compiled⟩ := compiled
        split at compiled
        · simp only [Compiled.bind_eq_ok] at compiled
          obtain ⟨type, -, items, -, compiled⟩ := compiled
          split at compiled
          · simp only [update, Compiled.bind_eq_ok] at compiled
            obtain ⟨fragment, ⟨operand, -, made⟩, ends⟩ := compiled
            cases made
            cases ends
            exact .one rfl
          · cases compiled
        · cases compiled
  | .expr node, compiled => by
    simp only [stmt, Compiled.bind_eq_ok] at compiled
    obtain ⟨operand, -, ends⟩ := compiled
    split at ends <;> cases ends
    · rfl
    · refine .one ?_
      unfold Operand.toInstr
      split <;> rfl
  | .ret values span, compiled => by
    simp only [stmt, Compiled.bind_eq_ok] at compiled
    obtain ⟨⟨hops, info⟩, -, compiled⟩ := compiled
    dsimp only at compiled
    split at compiled
    · split at compiled
      · cases compiled
      · cases compiled
        exact .one rfl
    · simp only [returnValues, Compiled.bind_eq_ok] at compiled
      obtain ⟨items, -, fragment, ⟨codes, -, made⟩, ends⟩ := compiled
      cases made
      cases ends
      exact .one rfl
  | .empty _, compiled => by
    simp only [stmt] at compiled
    cases compiled
    rfl
  | .bad _, compiled | .caseClause _, compiled | .commClause _, compiled => by
    simp only [stmt] at compiled
    cases compiled
  | .block body, compiled => by
    simp only [stmt, Compiled.bind_eq_ok] at compiled
    obtain ⟨fragment, found, ends⟩ := compiled
    cases ends
    exact block_balanced body found
  | .branch kind label span, compiled => by
    simp only [stmt, Compiled.bind_eq_ok] at compiled
    obtain ⟨fragment, found, ends⟩ := compiled
    cases ends
    cases kind with
    | «break» | «continue» => exact exitStmt_balanced found
    | «fallthrough» | goto => cases found
  | .incDec .., compiled => by
    simp only [stmt, update, Compiled.bind_eq_ok] at compiled
    obtain ⟨target, -, type, -, fragment, ⟨operand, -, made⟩, ends⟩ := compiled
    cases made
    cases ends
    exact .one rfl
  | .defer .., compiled => by
    simp only [stmt, Compiled.bind_eq_ok] at compiled
    obtain ⟨found, -, invoke, -, ends⟩ := compiled
    cases ends
    rfl
  | .go .., compiled => by
    simp only [stmt, Compiled.bind_eq_ok] at compiled
    obtain ⟨invoke, -, ends⟩ := compiled
    cases ends
    rfl
  | .send .., compiled => by
    simp only [stmt, Compiled.bind_eq_ok] at compiled
    obtain ⟨channel, -, type, -, elem, -, value, -, code, -, ends⟩ := compiled
    cases ends
    rfl
  | .ifElse init cond thenBranch elseBranch span, compiled => by
    simp only [stmt, Compiled.bind_eq_ok] at compiled
    obtain ⟨fragment, found, ends⟩ := compiled
    cases ends
    refine inScope_balanced found fun frame here piece content => ?_
    simp only [Compiled.bind_eq_ok] at content
    obtain ⟨first, foundFirst, operand, -, test, -, rest, foundRest, ends⟩ := content
    cases ends
    refine Balanced.append (initStmt_balanced init foundFirst) (branches_balanced foundRest
      (fun here part => block_balanced thenBranch) ?_)
    intro other same here part foundPart
    split at same
    · cases same
      exact elseStmt_balanced elseBranch foundPart
    · cases same
  | .forLoop init cond post body span, compiled => by
    simp only [stmt, Compiled.bind_eq_ok] at compiled
    obtain ⟨fragment, found, ends⟩ := compiled
    cases ends
    refine inScope_balanced found fun frame here piece content => ?_
    simp only [Compiled.bind_eq_ok] at content
    obtain ⟨first, foundFirst, test, -, rest, foundRest, ends⟩ := content
    cases ends
    exact Balanced.append (initStmt_balanced init foundFirst) (loop_balanced foundRest
      (fun here part => block_balanced body) fun here part => postStmt_balanced post)
  | .range key value isDefine subject body span, compiled => by
    simp only [stmt, Compiled.bind_eq_ok] at compiled
    obtain ⟨fragment, found, ends⟩ := compiled
    cases ends
    refine inScope_balanced found fun frame here piece content => ?_
    simp only [Compiled.bind_eq_ok] at content
    obtain ⟨operand, -, type, -, ⟨kind, keyType, valueType⟩, -, content⟩ := content
    dsimp only at content
    split at content
    · cases content
    · simp only [Compiled.bind_eq_ok] at content
      obtain ⟨⟨keyPlace, middle⟩, -, ⟨valuePlace, last⟩, -, part, foundPart, ends⟩ := content
      cases ends
      exact rangeLoop_balanced (block_balanced body foundPart)
  | .switch init tag clauses span, compiled => by
    simp only [stmt, Compiled.bind_eq_ok] at compiled
    obtain ⟨fragment, found, ends⟩ := compiled
    cases ends
    refine inScope_balanced found fun frame here piece content => ?_
    simp only [Compiled.bind_eq_ok] at content
    obtain ⟨first, foundFirst, tag, -, type, -, default, -, cases, -, codes, foundCodes, ends⟩ :=
      content
    cases ends
    exact Balanced.append (initStmt_balanced init foundFirst)
      (dispatched_balanced (switchBodies_balanced clauses foundCodes) fun _ _ => rfl)
  | .typeSwitch init binding subject clauses span, compiled => by
    simp only [stmt, Compiled.bind_eq_ok] at compiled
    obtain ⟨fragment, found, ends⟩ := compiled
    cases ends
    refine inScope_balanced found fun frame here piece content => ?_
    simp only [Compiled.bind_eq_ok] at content
    obtain ⟨first, foundFirst, operand, -, code, -, default, -, types, -, codes, foundCodes, ends⟩ :=
      content
    cases ends
    exact Balanced.append (initStmt_balanced init foundFirst)
      (dispatched_balanced (typeSwitchBodies_balanced clauses foundCodes) fun _ _ => rfl)
  | .select clauses span, compiled => by
    simp only [stmt, Compiled.bind_eq_ok] at compiled
    obtain ⟨default, -, fragment, found, ends⟩ := compiled
    cases ends
    refine inScope_balanced found fun frame here piece content => ?_
    simp only [Compiled.bind_eq_ok] at content
    obtain ⟨comms, -, codes, foundCodes, ends⟩ := content
    cases ends
    exact dispatched_balanced (selectBodies_balanced clauses foundCodes) fun _ _ => rfl

end

theorem statements_balanced (statements : List Stmt) : StatementsBalanced statements :=
  ⟨stmts_balanced statements, scopedStmts_balanced statements⟩

end Compile

end MiniGo
