import MiniGo.Invoke
/-!
Pieces of instruction lists. A piece is compiled for the position it will stand at, so its jumps
are final except for the exits of statements around it.
-/

namespace MiniGo

/-- Instructions, and whether some statement compiled with them defers a call. -/
structure Fragment where
  lines : List Line := []
  defers : Bool := false

/-- A fragment together with the innermost frame after it. -/
structure Piece extends Fragment where
  frame : Frame

namespace Fragment

def length (fragment : Fragment) : Nat := fragment.lines.length

def append (first second : Fragment) : Fragment :=
  ⟨first.lines ++ second.lines, first.defers || second.defers⟩

instance : Append Fragment := ⟨append⟩

def one (instr : Instr) (span : Span) : Fragment := ⟨[⟨instr, span⟩], false⟩

/-- Keeps what the compilation of dead code leaves behind: no instruction, only the flag. -/
def dead (fragment : Fragment) : Fragment := ⟨[], fragment.defers⟩

/-- Gives the exits of the statement at a level their positions. -/
def close (fragment : Fragment) (level breakTo continueTo : Nat) : Fragment :=
  ⟨fragment.lines.map (·.close level breakTo continueTo), fragment.defers⟩

def within (fragment : Fragment) (frame : Frame) : Piece := { fragment with frame }

end Fragment

namespace Piece

def none (frame : Frame) : Piece := { frame }

def one (frame : Frame) (instr : Instr) (span : Span) : Piece := (Fragment.one instr span).within frame

end Piece

/-- Compiles in a scope of its own. An owned scope is wrapped in the push and pop of an environment
that is sized by what the scope declared; a scope that is not owned must declare nothing. -/
def inScope (owned : Bool) (span : Span) (here : Nat) (compile : Frame → Nat → Compiled Piece) :
    Compiled Fragment := do
  let piece ← compile { owned } (if owned then here + 1 else here)
  let objects := piece.frame.objects
  let words := piece.frame.words
  if owned then
    if objects + words == 0 then fault .nothingDeclared span
    pure (Fragment.one (.push objects words) span ++ piece.toFragment ++ Fragment.one .pop span)
  else if objects + words != 0 then fault (.undeclaredScope objects words) span
  else pure piece.toFragment

def exitStmt (scope : Scope) (kind : ExitKind) (label : Option Ident) (span : Span) :
    Compiled Fragment :=
  let keyword : Keyword := match kind with
    | .break => .break
    | .continue => .continue
  match scope.exit? kind (label.map (·.name)), label with
  | some (hops, level), _ => pure (.one (.leave hops (.exit level kind)) span)
  | none, some label => fault (.undefinedLabel keyword label.name) span
  | none, none => fault (.outsideContext keyword) span

def branchStmt (scope : Scope) (kind : BranchKind) (label : Option Ident) (span : Span) :
    Compiled Fragment :=
  match kind with
  | .break => exitStmt scope .break label span
  | .continue => exitStmt scope .continue label span
  | .fallthrough => fault (.misplacedFallthrough .outOfPlace) span
  | .goto => fault .gotoBranch span

/-- The function around a statement that needs one. -/
def enclosing (scope : Scope) (keyword : Keyword) (span : Span) : Compiled (Nat × FuncInfo) :=
  match scope.function? with
  | some found => pure found
  | none => fault (.outsideContext keyword) span

/-- A condition with both branches compiled, each for the position it would stand at. The else
branch of a live condition follows the then branch and the jump over it. -/
def branches (cond : Cond) (here : Nat) (condSpan span : Span) (thenPart : Nat → Compiled Fragment)
    (elsePart : Option (Nat → Compiled Fragment)) : Compiled Fragment := do
  match cond with
  | .const value => do
    let first ← thenPart here
    let kept := if value then first else first.dead
    match elsePart with
    | none => pure kept
    | some elsePart => do
      let second ← elsePart (here + kept.length)
      pure (kept ++ if value then second.dead else second)
  | .code cond => do
    let first ← thenPart (here + 1)
    let after := here + 1 + first.length
    match elsePart with
    | none => pure (Fragment.one (.jumpUnless cond after) condSpan ++ first)
    | some elsePart => do
      let second ← elsePart (after + 1)
      let finish := after + 1 + second.length
      pure (Fragment.one (.jumpUnless cond (after + 1)) condSpan ++ first ++
        Fragment.one (.goto finish) span ++ second)

/-- A loop from its test on. A body whose test is never true is compiled and dropped. -/
def loop (cond : Cond) (level here : Nat) (span : Span) (body : Nat → Compiled Fragment)
    (post : Nat → Compiled Piece) : Compiled Piece := do
  match cond with
  | .const false => do
    let body ← body here
    let post ← post (here + body.length)
    pure ((body.dead ++ post.toFragment.dead).within post.frame)
  | cond => do
    let start := match cond with
      | .code _ => here + 1
      | .const _ => here
    let body ← body start
    let continueTo := start + body.length
    let post ← post continueTo
    let breakTo := continueTo + post.length + 1
    let test : Fragment := match cond with
      | .code cond => .one (.jumpUnless cond breakTo) span
      | .const _ => {}
    let inner := (body ++ post.toFragment).close level breakTo continueTo
    pure ((test ++ inner ++ Fragment.one (.goto here) span).within post.frame)

structure ClauseCode where
  start : Nat
  body : Fragment
  fallsThrough : Bool := false
  span : Span

namespace ClauseCode

/-- Position of the next clause: each clause ends with one jump. -/
def next (clause : ClauseCode) : Nat := clause.start + clause.body.length + 1

def finish (here : Nat) : List ClauseCode → Nat
  | [] => here
  | clause :: rest => finish clause.next rest

/-- All clauses in a row, each with its jump to the end or to the next clause. -/
def join (breakTo : Nat) : List ClauseCode → Fragment
  | [] => {}
  | clause :: rest =>
    let target := if clause.fallsThrough then clause.next else breakTo
    clause.body ++ Fragment.one (.goto target) clause.span ++ join breakTo rest

end ClauseCode

/-- The one default clause among clauses that are marked default or not. -/
def defaultClause (statement : ClauseStmt) : List (Bool × Span) → Compiled (Option Nat)
  | clauses => go clauses 0 none
where
  go : List (Bool × Span) → Nat → Option Nat → Compiled (Option Nat)
    | [], _, found => pure found
    | (isDefault, span) :: rest, index, found =>
      if !isDefault then go rest (index + 1) found
      else if found.isSome then fault (.multipleDefaults statement) span
      else go rest (index + 1) (some index)

/-- A dispatching instruction followed by its clauses. -/
def dispatched (level here : Nat) (span : Span) (clauses : List ClauseCode)
    (dispatch : List Nat → Nat → Instr) : Fragment :=
  let breakTo := ClauseCode.finish (here + 1) clauses
  let instr := dispatch (clauses.map (·.start)) breakTo
  Fragment.one instr span ++ (ClauseCode.join breakTo clauses).close level breakTo 0

/-- Pairs every element of the i-th list with the i-th position. -/
def tagged {α : Type} : List (List α) → List Nat → List (α × Nat)
  | items :: rest, start :: starts => items.map (·, start) ++ tagged rest starts
  | _, _ => []

/-- The position that a default clause starts at, or else the end. -/
def fallback (default : Option Nat) (starts : List Nat) (breakTo : Nat) : Nat :=
  (default.bind (starts[·]?)).getD breakTo

end MiniGo
