import MiniGo.Compile
import MiniGo.Machine
/-!
What statements mean. The meaning of a statement follows its tree: a block opens a scope, a condition
runs one branch, a loop tests, runs its body and then its post statement, a switch evaluates its tag once
and then its cases in order. A statement completes normally, or with an exit for a statement around it,
with a return, or with a failure. Names are resolved by the compiler, and expressions are evaluated as
everywhere; positions and jumps have no part in this.
-/

namespace MiniGo

inductive Completion
  | normal
  | exit (kind : ExitKind) (label : Option String)
  | ret
  | failed (error : RuntimeError)

/-- How a statement completes, and the environment found then. -/
structure Ending where
  completion : Completion
  env : EnvRef

/-- What is done in an environment, given a way to make calls and a bound for the rounds of every
loop. -/
abbrev Action := Caller → Nat → EnvRef → Run Ending

def Cond.holds (cond : Cond) (call : Caller) (env : EnvRef) : Run Bool :=
  match cond with
  | .const value => pure value
  | .code test => do
    let value ← eval call env test
    Run.asBool value

namespace Action

def stop (completion : Completion) : Action := fun _ _ env => pure ⟨completion, env⟩

def skip : Action := stop .normal

/-- Evaluates something and goes on with what it gives; a failure completes the statement. -/
def doing {α : Type} (part : Caller → EnvRef → Run α) (next : α → Action) : Action :=
  fun call rounds env => do
    match ← Run.attempt (part call env) with
    | .ok value => next value call rounds env
    | .error error => pure ⟨.failed error, env⟩

def after (first : Action) (next : Completion → Action) : Action := fun call rounds env => do
  let ending ← first call rounds env
  next ending.completion call rounds ending.env

def andThen (first second : Action) : Action :=
  first.after fun
    | .normal => second
    | completion => stop completion

/-- Runs in an environment of its own, which is left however the body completes. -/
def enclosed (objects words : Nat) (body : Action) : Action := fun call rounds env => do
  let inner ← Run.update (·.push env objects words)
  Run.modify (·.drop env)
  let ending ← body call rounds inner
  let outer ← Run.update (·.leave ending.env 1)
  pure ⟨ending.completion, outer⟩

def choose (cond : Cond) (yes no : Action) : Action :=
  doing cond.holds fun truth => if truth then yes else no

/-- What follows in a loop with some labels: an exit that names the loop, or no loop, is its own. -/
def inLoop (labels : List String) (normal resume : Action) : Completion → Action
  | .normal => normal
  | .exit kind label =>
    if label.all labels.contains then
      match kind with
      | .break => skip
      | .continue => resume
    else stop (.exit kind label)
  | completion => stop completion

/-- A loop of at most so many rounds, from its test on, or from its post statement on if it is resumed
there. -/
def looping (cond : Cond) (labels : List String) (body post : Action) : Nat → Bool → Action
  | 0, _ => fun _ _ _ => Run.exhausted
  | rounds + 1, resumed =>
    let finish := post.after (inLoop labels (looping cond labels body post rounds false)
      (looping cond labels body post rounds true))
    if resumed then finish
    else doing cond.holds fun truth => if truth then body.after (inLoop labels finish finish) else skip

def loop (cond : Cond) (labels : List String) (body post : Action) : Action :=
  fun call rounds env => looping cond labels body post rounds false call rounds env

/-- Clause bodies from a chosen one on; a body that ends in `fallthrough` is followed by the next. -/
def clauses : List (Action × Bool) → Action
  | [] => skip
  | (body, falls) :: rest => if falls then body.andThen (clauses rest) else body

def anyEquals (call : Caller) (env : EnvRef) (tag : Value) : List Code → Run Bool
  | [] => pure false
  | code :: rest => do
    let value ← eval call env code
    if value.equals tag then pure true else anyEquals call env tag rest

/-- The number of the first clause that lists a value equal to the tag, or else of the default. -/
def findClause (call : Caller) (env : EnvRef) (tag : Value) (default : Option Nat) :
    Nat → List (List Code) → Run (Option Nat)
  | _, [] => pure default
  | number, codes :: rest => do
    if ← anyEquals call env tag codes then pure (some number)
    else findClause call env tag default (number + 1) rest

def findBody (tag : Code) (cases : List (List Code)) (default : Option Nat) (call : Caller)
    (env : EnvRef) : Run (Option Nat) := do
  let tag ← eval call env tag
  findClause call env tag default 0 cases

/-- What follows in a switch with some labels: a `break` that names it, or no statement, completes
it. -/
def inSwitch (labels : List String) : Completion → Action
  | .exit .break label => if label.all labels.contains then skip else stop (.exit .break label)
  | completion => stop completion

def switch (tag : Code) (cases : List (List Code)) (default : Option Nat) (labels : List String)
    (bodies : List (Action × Bool)) : Action :=
  (doing (findBody tag cases default) fun
    | some number => clauses (bodies.drop number)
    | none => skip).after (inSwitch labels)

def deliver (hops : Nat) (results : List Slot) (values : Values) (call : Caller) (env : EnvRef) :
    Run Unit := do
  let values ← evalValues call env values
  let target ← Run.read (·.up env hops)
  Step.storeSlots target results values

def returning (hops : Nat) (results : List Slot) (values : Values) : Action :=
  doing (deliver hops results values) fun _ => stop .ret

def evaluate (values : Values) (call : Caller) (env : EnvRef) : Run Unit := do
  let _ ← evalValues call env values
  pure ()

def assign (places : List Place) (values : Values) (call : Caller) (env : EnvRef) : Run Unit := do
  let locations ← Location.ofPlaces call env places
  let values ← evalValues call env values
  Location.storeAll locations values

/-- Finds the place once, and stores what the operator gives for its value and the operand. -/
def update (op : BinaryOp) (place : Place) (operand : Code) (call : Caller) (env : EnvRef) :
    Run Unit := do
  let location ← Location.ofPlace call env place
  let current ← location.load
  let operand ← eval call env operand
  let value ← Run.ofExcept (Value.binary op current operand)
  location.store value

def init (slots : List (Option Slot)) (values : Values) (call : Caller) (env : EnvRef) : Run Unit := do
  let values ← evalValues call env values
  Step.storeInit env slots values

def effect (part : Caller → EnvRef → Run Unit) : Action := doing part fun _ => skip

def execute (body : Action) (call : Caller) (rounds : Nat) (root : EnvRef) : Run Unit := do
  Run.modify (·.retain root)
  let ending ← body call rounds root
  Run.modify (·.drop ending.env)
  match ending.completion with
  | .failed error => Run.fail error
  | _ => pure ()

end Action

/-- What a statement means, and the innermost frame after it. -/
structure Meaning where
  action : Action
  frame : Frame

namespace Meaning

/-- The meaning in a scope of its own, which has an environment if it is owned. -/
def inScope (owned : Bool) (meaning : Frame → Compiled Meaning) : Compiled Action := do
  let body ← meaning { owned }
  if owned then pure (.enclosed body.frame.objects body.frame.words body.action)
  else pure body.action

def define (frame : Frame) (lhs : List Expr) (rhs : Rhs) (span : Span) : Compiled Meaning := do
  let types ← rhs.types
  let definition ← Definition.addAll { frame } lhs types
  let values ← rhs.toValues definition.targets span
  pure ⟨.effect (Action.assign definition.places values), definition.frame⟩

def update (scope : Scope) (op : BinaryOp) (target : Expr) (operand : Compiled Operand) (span : Span) :
    Compiled Action := do
  let place ← Compile.place scope target
  let type ← compoundType op place span
  let operand ← operand
  let operand ← operand.convertTo type
  pure (.effect (Action.update op place operand.toCode))

def assignment (outer : Scope) (frame : Frame) (lhs rhs : List Expr) (span : Span) :
    AssignOp → Compiled Meaning
  | .define => do
    let rhs ← Compile.rhs (frame :: outer) lhs.length span rhs
    define frame lhs rhs span
  | .assign => do
    let places ← Compile.places (frame :: outer) lhs
    let rhs ← Compile.rhs (frame :: outer) places.length span rhs
    let values ← rhs.toValues (places.map Place.type?) span
    pure ⟨.effect (Action.assign places values), frame⟩
  | .compound op =>
    match lhs, rhs with
    | [target], [node] => do
      let action ← update (frame :: outer) op target (Compile.expr (frame :: outer) node) span
      pure ⟨action, frame⟩
    | _, _ => fault (.compoundArity op) span

def varSpecs (outer : Scope) (frame : Frame) : List ValueSpec → Compiled Meaning
  | [] => pure ⟨.skip, frame⟩
  | .mk names written values span :: rest => do
    let declared ← Compile.declaredType (frame :: outer) written span
    let operands ← Compile.operands (frame :: outer) (fun _ => pure) none values
    let (types, values) ← initValues declared names.length operands span
    let (slots, frame) ← frame.declareVars (names.zip types)
    let others ← varSpecs outer frame rest
    pure ⟨(Action.effect (Action.init slots values)).andThen others.action, others.frame⟩

mutual

def stmt (outer : Scope) (frame : Frame) (labels : List String) : Stmt → Compiled Meaning
  | .empty _ => pure ⟨.skip, frame⟩
  | .labeled label body _ => stmt outer frame (labels ++ [label.name]) body
  | .block body => do
    let action ← block (frame :: outer) body
    pure ⟨action, frame⟩
  | .branch .break label _ => pure ⟨.stop (.exit .break (label.map (·.name))), frame⟩
  | .branch .continue label _ => pure ⟨.stop (.exit .continue (label.map (·.name))), frame⟩
  | .ret values span => do
    let (hops, info) ← enclosing (frame :: outer) .ret span
    if values.isEmpty then pure ⟨.stop .ret, frame⟩
    else
      let operands ← Compile.operands (frame :: outer) (fun _ => pure) none values
      let values ← returnAll info.results operands span
      pure ⟨.returning hops info.results values, frame⟩
  | .ifElse init cond thenBranch elseBranch _ => do
    let action ← inScope (init.any Stmt.isDefine) fun inner => do
      let first ← optional (frame :: outer) inner init
      let operand ← Compile.expr (first.frame :: frame :: outer) cond
      let test ← operand.toCond
      let yes ← block (first.frame :: frame :: outer) thenBranch
      let no ← branch (frame :: outer) first.frame elseBranch
      pure ⟨first.action.andThen (.choose test yes no), first.frame⟩
    pure ⟨action, frame⟩
  | .forLoop init cond post body _ => do
    let action ← inScope (init.any Stmt.isDefine) fun inner => do
      let first ← optional (frame :: outer) inner init
      let inner := { first.frame with loop := some ⟨true, labels⟩ }
      let test ← Compile.loopCond (inner :: frame :: outer) cond
      let body ← block (inner :: frame :: outer) body
      let post ← optional (frame :: outer) inner post
      pure ⟨first.action.andThen (.loop test labels body post.action), post.frame⟩
    pure ⟨action, frame⟩
  | .switch init tag clauses span => do
    let action ← inScope (init.any Stmt.isDefine) fun inner => do
      let first ← optional (frame :: outer) inner init
      let inner := { first.frame with loop := some ⟨false, labels⟩ }
      let tag ← Compile.switchTag (inner :: frame :: outer) span tag
      let tagType ← tag.type
      let default ← defaultClause .switch (clauses.map fun clause => (clause.list.isNone, clause.span))
      let cases ← Compile.switchCases (inner :: frame :: outer) tagType clauses
      let bodies ← clauseBodies (inner :: frame :: outer) clauses
      pure ⟨first.action.andThen (.switch tag.toCode cases default labels bodies), inner⟩
    pure ⟨action, frame⟩
  | .expr node => do
    let operand ← Compile.expr (frame :: outer) node
    pure ⟨if operand.isConst then .skip else .effect (Action.evaluate operand.toValues), frame⟩
  | .assign lhs op rhs span => assignment outer frame lhs rhs span op
  | .incDec target increment span => do
    let op : BinaryOp := if increment then .add else .sub
    let action ← update (frame :: outer) op target (pure (.const (.int 1) .int {})) span
    pure ⟨action, frame⟩
  | .decl (.var specs _) => varSpecs outer frame specs
  | .decl (.const specs _) => do
    let frame ← Compile.constSpecs outer frame specs
    pure ⟨.skip, frame⟩
  | .decl (.type specs _) => do
    let frame ← Compile.typeSpecs outer frame specs
    pure ⟨.skip, frame⟩
  | other => fault .badStatement other.span

/-- Statements in the current scope. The `fallthrough` that a clause ends in is not a statement. -/
def stmts (outer : Scope) (frame : Frame) (clause : Bool) : List Stmt → Compiled Meaning
  | [] => pure ⟨.skip, frame⟩
  | node :: rest =>
    if clause && rest.isEmpty && node.isFallthrough then pure ⟨.skip, frame⟩
    else do
      let first ← stmt outer frame [] node
      let others ← stmts outer first.frame clause rest
      pure ⟨first.action.andThen others.action, others.frame⟩

def block (scope : Scope) : Block → Compiled Action
  | .mk statements _ =>
    inScope (statements.any Stmt.declares) fun inner => stmts scope inner false statements

def branch (outer : Scope) (frame : Frame) : Option Stmt → Compiled Action
  | none => pure .skip
  | some node =>
    if node.isBranchBody then do
      let meaning ← stmt outer frame [] node
      pure meaning.action
    else inScope node.declares fun inner => stmt (frame :: outer) inner [] node

def optional (outer : Scope) (frame : Frame) : Option Stmt → Compiled Meaning
  | none => pure ⟨.skip, frame⟩
  | some node => stmt outer frame [] node

def clauseBodies (scope : Scope) : List CaseClause → Compiled (List (Action × Bool))
  | [] => pure []
  | .mk _ statements _ :: rest => do
    let body ← inScope (statements.any Stmt.declares) fun inner => stmts scope inner true statements
    let others ← clauseBodies scope rest
    pure ((body, statements.getLast?.any Stmt.isFallthrough) :: others)

end

def function (scope : Scope) (head : FuncHead) (span : Span) (body : Block) : Compiled Action := do
  let signature ← scope.resolveHead span head
  let (_, _, frame) ← Compile.functionFrame head signature
  let meaning ← stmts scope frame false body.statements
  pure meaning.action

end Meaning

mutual

def Stmt.structured : Stmt → Bool
  | .empty _ | .branch .. | .expr _ | .assign .. | .incDec .. | .ret .. => true
  | .decl (.func ..) => false
  | .decl _ => true
  | .labeled _ body _ => body.structured
  | .block body => body.structured
  | .ifElse init _ thenBranch elseBranch _ =>
    Stmt.structuredIn init && thenBranch.structured && Stmt.structuredIn elseBranch
  | .forLoop init _ post body _ =>
    Stmt.structuredIn init && Stmt.structuredIn post && body.structured
  | .switch init _ clauses _ => Stmt.structuredIn init && CaseClause.structuredAll clauses
  | _ => false

def Stmt.structuredIn : Option Stmt → Bool
  | none => true
  | some node => node.structured

def Stmt.structuredAll : List Stmt → Bool
  | [] => true
  | node :: rest => node.structured && Stmt.structuredAll rest

def Block.structured : Block → Bool
  | .mk statements _ => Stmt.structuredAll statements

def CaseClause.structuredAll : List CaseClause → Bool
  | [] => true
  | .mk _ statements _ :: rest => Stmt.structuredAll statements && CaseClause.structuredAll rest

end

end MiniGo
