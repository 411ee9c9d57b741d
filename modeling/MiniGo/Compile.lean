import MiniGo.Assign
/-!
Compilation of expressions, statements and declarations.

Expressions are compiled in a scope and never change it. Statements are compiled against the frames
around them (`outer`), the innermost frame, which they may extend with declarations, and the
position of their first instruction (`here`).
-/

namespace MiniGo

/-- What a receiving select clause does with the received value. -/
inductive Receive
  | discard
  | define (value flag : Option Ident) (elem : Ty)
  | assign (value : Place) (flag : Option Place)

namespace Compile

/-- Names of a receiving clause that declares them; a blank name declares nothing. -/
def receiveNames (lhs : List Expr) (span : Span) : Compiled (Option Ident × Option Ident) :=
  let named (ident : Ident) := if ident.isBlank then none else some ident
  match lhs.map Expr.ident? with
  | [some value] => pure (named value, none)
  | [some value, some flag] => pure (named value, named flag)
  | _ => fault .nonNameDefine span

/-- A place that a value of a type is stored through. -/
def checkPlace (place : Place) (type : Ty) (span : Span) : Compiled Unit :=
  match place.type? with
  | some target => if type.assignableTo target then pure () else fault (.incompatible target type) span
  | none => pure ()

/-- How a range loop goes over a type: the types of its key and of its value, if it has one. -/
def rangeShape (type : Ty) (span subjectSpan : Span) : Compiled (RangeKind × Ty × Option Ty) :=
  match type with
  | .int => pure (.int, .int, none)
  | .slice elem => pure (.slice, .int, some elem)
  | .string => pure (.string, .int, some .int)
  | .map key value => pure (.map, key, some value)
  | .chan _ _ => do
    let elem ← Operand.recvElem type span
    pure (.chan, elem, none)
  | other => fault (.notRangeable other) subjectSpan

def rangeSlots (frame : Frame) (subject key : Ty) : RangeSlots × Frame :=
  let (subject, frame) := frame.allocate subject
  let (keys, frame) := frame.allocate (.slice key)
  let (index, frame) := frame.allocate .int
  let (limit, frame) := frame.allocate .int
  let (step, frame) := frame.allocate .int
  (⟨subject, keys, index, limit, step⟩, frame)

/-- A range loop around its body, which is already compiled for the position `here + 2`. -/
def rangeLoop (kind : RangeKind) (keyType : Ty) (slots : RangeSlots) (subject : Code)
    (key value : Option Place) (body : Fragment) (level here : Nat) (span : Span) : Fragment :=
  let next := here + 1
  let finish := here + 2 + body.length
  let step : Fragment := if kind == .chan then {} else .one (.rangeStep slots) span
  let continueTo := if kind == .chan then next else finish
  let breakTo := finish + step.length + 1
  Fragment.one (.rangeStart kind keyType slots subject) span ++
    Fragment.one (.rangeNext kind slots key value breakTo) span ++
    body.close level breakTo continueTo ++ step ++ Fragment.one (.goto next) span

/-- The types listed by each clause of a type switch; none stands for `nil`. -/
def clauseTypes (scope : Scope) : List CaseClause → Compiled (List (List (Option Ty)))
  | [] => pure []
  | clause :: rest => do
    let types ← (clause.list.getD []).mapM scope.typeOperand
    let others ← clauseTypes scope rest
    pure (types :: others)

/-- The type that the variable of a type switch has in a clause. -/
def boundType : List (Option Ty) → Ty
  | [some type] => type
  | _ => .any

/-- Takes a slot for the subject of a type switch that binds it to a variable. -/
def parkSubject (frame : Frame) : Option Ident → Option (Ident × Slot) × Frame
  | none => (none, frame)
  | some ident =>
    let (slot, frame) := frame.allocate .any
    (some (ident, slot), frame)

/-- Takes slots for a value that a clause of a select receives, and for its flag. -/
def parkReceived (frame : Frame) (receives : Bool) : Option (Slot × Slot) × Frame :=
  if receives then
    let (value, frame) := frame.allocate .any
    let (flag, frame) := frame.allocate .bool
    (some (value, flag), frame)
  else (none, frame)

/-- The communications of a select, each with the position that its clause starts at. -/
def selectTargets : List (Option (Comm × Receive)) → List Nat → List (Comm × Nat)
  | some (comm, _) :: rest, start :: starts => (comm, start) :: selectTargets rest starts
  | none :: rest, _ :: starts => selectTargets rest starts
  | _, _ => []

def caseValue (tag : Ty) (operand : Operand) (span : Span) : Compiled Code := do
  let type ← operand.type
  if type.assignableTo tag || (tag == .float && operand.isConst) then
    let operand ← operand.convertTo tag
    pure operand.toCode
  else if tag.assignableTo type then pure operand.toCode
  else fault (.switchCase type tag) span

/-- A constant, which must be what a `const` specification gives. -/
def constValue (declared : Option Ty) (name : Ident) (operand : Operand) : Compiled (Const × Ty) := do
  let operand ← operand.declaredAs declared
  let type ← operand.type
  match operand.const? with
  | some value => pure (value, type)
  | none => fault (.notConstant name.name) operand.span

def declaredType (scope : Scope) (written : Option TypeExpr) (span : Span) : Compiled (Option Ty) :=
  match written with
  | none => pure none
  | some written => do
    let type ← scope.resolve span written
    pure (some type)

def typeSpecs (outer : Scope) (frame : Frame) : List TypeSpec → Compiled Frame
  | [] => pure frame
  | spec :: rest => do
    let type ← Scope.resolve (frame :: outer) spec.span spec.type
    let frame ← frame.declareSymbol spec.name.name (.type type) spec.name.span
    typeSpecs outer frame rest

/-- The frame of a function with its parameters and results declared. -/
def functionFrame (head : FuncHead) (signature : Signature) :
    Compiled (List (Option Slot) × List Slot × Frame) := do
  let (params, frame) ←
    Frame.declareParams { owned := true } ((head.params.map (·.name)).zip signature.params)
  let (results, frame) ←
    frame.declareResults ((head.results.map (·.name)).zip signature.results)
  let named := head.results.any (·.name.isSome)
  pure (params, results, { frame with func := some ⟨results, named⟩ })

def template (signature : Signature) (params : List (Option Slot)) (results : List Slot)
    (body : Piece) : Template :=
  .mk signature ⟨body.lines.toArray, body.defers⟩ params results body.frame.objects body.frame.words

mutual

def expr (scope : Scope) : Expr → Compiled Operand
  | .ident ident => Operand.ofIdent scope ident
  | .int value span => pure (.const (.int value) .int span)
  | .float value span => pure (.const (.float value) .float span)
  | .bool value span => pure (.const (.bool value) .bool span)
  | .string value span => pure (.const (.str value) .string span)
  | .binary op left right span => do
    let left ← expr scope left
    let right ← expr scope right
    if op.isLogical then left.logical op right span else left.binary op right span
  | .unary op operand span => do
    let operand ← expr scope operand
    operand.unary op span
  | .call callee args ellipsis span => do
    match ← scope.callee callee with
    | .conversion target => conversion scope target span args
    | .builtin builtin => do
      builtin.checkUse ellipsis args.length span
      if builtin == .make then make scope ellipsis span args
      else
        let args ← operands scope (builtin.checkArgument ellipsis args.length span) none args
        builtin.toOperand ellipsis args span
    | .function => do
      let callee ← expr scope callee
      let signature ← Invoke.signature callee span
      let args ← operands scope (fun _ => pure) none args
      let invoke ← Invoke.function callee signature args ellipsis span
      pure invoke.toOperand
  | .func head body span => do
    let template ← function scope head span body
    pure (.single template.signature.toTy (.closure template) span)
  | .index base index span => do
    let base ← expr scope base
    let container ← base.type
    let type ← Operand.indexType container span
    let index ← expr scope index
    let index ← index.convertTo type
    Operand.element container base index span
  | .sliceLit elem elems span => do
    let elem ← scope.resolve span elem
    let items ← operands scope (fun _ item => item.convertTo elem) none elems
    pure (.single (.slice elem) (.sliceLit elem (items.map Operand.toCode)) span)
  | .mapLit key value entries span => do
    let key ← scope.resolve span key
    if !key.isKey then fault (.invalidKey key) span
    let value ← scope.resolve span value
    let entries ← mapEntries scope key value entries
    pure (.single (.map key value) (.mapLit key value entries) span)
  | .typeAssert operand written span => do
    let subject ← expr scope operand
    let subject ← subject.interfaceCode operand.span
    let target ← scope.resolve span written
    pure (.single target (.typeAssert target subject) span)
  | .type written span => do
    let type ← scope.resolve span written
    fault (.typeAsValue type) span

/-- A call of a type, which converts its one argument. -/
def conversion (scope : Scope) (target : Ty) (span : Span) : List Expr → Compiled Operand
  | [arg] => do
    let arg ← expr scope arg
    arg.conversion target span
  | _ => fault (.conversionArity target) span

/-- A call of `make`, whose first argument is a type. -/
def make (scope : Scope) (ellipsis : Bool) (span : Span) : List Expr → Compiled Operand
  | [] => Builtin.toOperand .make ellipsis [] span
  | written :: sizes => do
    let type ← Builtin.madeType scope written sizes.length span
    let count := sizes.length + 1
    let sizes ← operands scope (Builtin.checkArgument .make ellipsis count span) none sizes
    Builtin.made type sizes span

/-- Operands in order, each checked as soon as it is compiled, with the first one at hand. -/
def operands (scope : Scope) (check : Option Operand → Operand → Compiled Operand)
    (first : Option Operand) : List Expr → Compiled (List Operand)
  | [] => pure []
  | node :: rest => do
    let operand ← expr scope node
    let operand ← check first operand
    let others ← operands scope check (first.or (some operand)) rest
    pure (operand :: others)

def mapEntries (scope : Scope) (key value : Ty) : List (Expr × Expr) → Compiled (List (Code × Code))
  | [] => pure []
  | (keyNode, valueNode) :: rest => do
    let keyOperand ← expr scope keyNode
    let keyOperand ← keyOperand.convertTo key
    let valueOperand ← expr scope valueNode
    let valueOperand ← valueOperand.convertTo value
    let others ← mapEntries scope key value rest
    pure ((keyOperand.toCode, valueOperand.toCode) :: others)

/-- The forms with a second, boolean value: a map element, a receive and a type assertion. -/
def commaOk (scope : Scope) : Expr → Compiled (Option Operand)
  | .index base index span => do
    let base ← expr scope base
    match ← base.type with
    | .map key value => do
      let index ← expr scope index
      let index ← index.convertTo key
      pure (some (.multi [value, .bool] (.mapLookup value base.toCode index.toCode) span))
    | _ => pure none
  | .unary .recv channel span => do
    let channel ← expr scope channel
    let type ← channel.type
    let elem ← Operand.recvElem type span
    pure (some (.multi [elem, .bool] (.receiveOk channel.toCode) span))
  | .typeAssert operand written span => do
    let subject ← expr scope operand
    let subject ← subject.interfaceCode operand.span
    let target ← scope.resolve span written
    pure (some (.multi [target, .bool] (.typeAssertOk target subject) span))
  | _ => pure none

def place (scope : Scope) : Expr → Compiled Place
  | .ident ident => identPlace scope ident
  | .index base index span => do
    let base ← expr scope base
    let container ← base.type
    let type ← elementIndexType container span
    let index ← expr scope index
    let index ← index.convertTo type
    pure (.element container base.toCode index.toCode)
  | other => fault .assignToExpression other.span

def places (scope : Scope) : List Expr → Compiled (List Place)
  | [] => pure []
  | target :: rest => do
    let first ← place scope target
    let others ← places scope rest
    pure (first :: others)

/-- The right-hand side of an assignment to `count` targets. -/
def rhs (scope : Scope) (count : Nat) (span : Span) : List Expr → Compiled Rhs
  | [single] => do
    let pair ← if count = 2 then commaOk scope single else pure none
    match pair with
    | some pair => pure (.multi pair)
    | none => do
      let operand ← expr scope single
      Rhs.ofSingle operand count span
  | [] => if count = 0 then pure (.each []) else fault (.assignmentMismatch count 0) span
  | node :: rest => do
    if rest.length + 1 ≠ count then fault (.assignmentMismatch count (rest.length + 1)) span
    let first ← expr scope node
    let others ← operands scope (fun _ => pure) none rest
    pure (.each (first :: others))

def prepareCall (scope : Scope) (keyword : Keyword) : Expr → Compiled Invoke
  | .call callee args ellipsis span => do
    match ← scope.callee callee with
    | .conversion target => fault (.conversionCall keyword target) span
    | .builtin builtin => do
      if ellipsis then fault (.builtinSpread builtin) span
      if !builtin.discards then fault (.discardedResult builtin) span
      builtin.checkUse ellipsis args.length span
      let args ← operands scope (builtin.checkArgument ellipsis args.length span) none args
      builtin.invoke args span
    | .function => do
      let callee ← expr scope callee
      let signature ← Invoke.signature callee span
      let args ← operands scope (fun _ => pure) none args
      Invoke.function callee signature args ellipsis span
  | other => fault (.notCall keyword) other.span

/-- A function body, compiled from position zero in a frame of its own. -/
def function (scope : Scope) (head : FuncHead) (span : Span) : Block → Compiled Template
  | .mk statements _ => do
    let signature ← scope.resolveHead span head
    let (params, results, frame) ← functionFrame head signature
    let body ← stmts scope frame 0 false statements
    pure (template signature params results body)

def stmt (outer : Scope) (frame : Frame) (here : Nat) (labels : List String) : Stmt → Compiled Piece
  | .empty _ => pure (.none frame)
  | .bad span => fault .badStatement span
  | .caseClause clause => fault (.misplacedClause clause.list.isNone) clause.span
  | .commClause clause => fault (.misplacedClause clause.comm.isNone) clause.span
  | .labeled label body _ => stmt outer frame here (labels ++ [label.name]) body
  | .block body => do
    let fragment ← block (frame :: outer) here body
    pure (fragment.within frame)
  | .branch kind label span => do
    let fragment ← branchStmt (frame :: outer) kind label span
    pure (fragment.within frame)
  | .expr node => do
    let operand ← expr (frame :: outer) node
    if operand.isConst then pure (.none frame) else pure (.one frame operand.toInstr operand.span)
  | .assign lhs op rhsNodes span => do
    match op with
    | .define => do
      let values ← rhs (frame :: outer) lhs.length span rhsNodes
      define frame lhs values span
    | .assign => do
      let targets ← places (frame :: outer) lhs
      let values ← rhs (frame :: outer) targets.length span rhsNodes
      let fragment ← assign targets values span
      pure (fragment.within frame)
    | .compound op => do
      if lhs.length ≠ 1 || rhsNodes.length ≠ 1 then fault (.compoundArity op) span
      checkCompound op span
      match ← places (frame :: outer) lhs with
      | [target] => do
        let type ← compoundType op target span
        match ← operands (frame :: outer) (fun _ => pure) none rhsNodes with
        | [operand] => do
          let fragment ← update op target type operand span
          pure (fragment.within frame)
        | _ => fault (.compoundArity op) span
      | _ => fault (.compoundArity op) span
  | .incDec target increment span => do
    let op : BinaryOp := if increment then .add else .sub
    let target ← place (frame :: outer) target
    let type ← compoundType op target span
    let fragment ← update op target type (.const (.int 1) .int {}) span
    pure (fragment.within frame)
  | .decl declaration => decl outer frame here declaration
  | .ret values span => do
    let (hops, info) ← enclosing (frame :: outer) .ret span
    if values.isEmpty then
      if 0 < info.results.length ∧ !info.named then
        fault (.returnArity info.results.length 0) span
      pure (.one frame (.interrupt .ret) span)
    else
      let operands ← operands (frame :: outer) (fun _ => pure) none values
      let fragment ← returnValues hops info.results operands span
      pure (fragment.within frame)
  | .defer call span => do
    let _ ← enclosing (frame :: outer) .defer span
    let invoke ← prepareCall (frame :: outer) .defer call
    pure { Piece.one frame (.defer invoke.call) span with defers := true }
  | .go call span => do
    let invoke ← prepareCall ({ owned := true } :: frame :: outer) .go call
    pure (.one frame (.go invoke.call) span)
  | .send channel value span => do
    let channel ← expr (frame :: outer) channel
    let type ← channel.type
    let elem ← Operand.sendElem type span
    let value ← expr (frame :: outer) value
    let value ← value.convertTo elem
    pure (.one frame (.send channel.toCode value.toCode) span)
  | .ifElse init cond thenBranch elseBranch span => do
    let fragment ← inScope (init.any Stmt.isDefine) span here fun inner here => do
      let first ← initStmt (frame :: outer) inner here init
      let operand ← expr (first.frame :: frame :: outer) cond
      let test ← operand.toCond
      let thenPart := fun here => block (first.frame :: frame :: outer) here thenBranch
      let elsePart :=
        if elseBranch.isSome then some fun here => elseStmt (frame :: outer) first.frame here elseBranch
        else none
      let rest ← branches test (here + first.length) cond.span span thenPart elsePart
      pure ((first.toFragment ++ rest).within first.frame)
    pure (fragment.within frame)
  | .forLoop init cond post body span => do
    let fragment ← inScope (init.any Stmt.isDefine) span here fun inner here => do
      let first ← initStmt (frame :: outer) inner here init
      let inner := { first.frame with loop := some ⟨true, labels⟩ }
      let test ← loopCond (inner :: frame :: outer) cond
      let level := outer.length + 1
      let rest ← loop test level (here + first.length) span
        (fun here => block (inner :: frame :: outer) here body)
        (fun here => postStmt (frame :: outer) inner here post)
      pure ((first.toFragment ++ rest.toFragment).within rest.frame)
    pure (fragment.within frame)
  | .range key value isDefine subject body span => do
    let fragment ← inScope true span here fun inner here => do
      let operand ← expr (inner :: frame :: outer) subject
      let type ← operand.type
      let (kind, keyType, valueType) ← rangeShape type span subject.span
      if value.isSome && valueType.isNone then fault (.oneIterationVariable type) span
      let (keyPlace, inner) ← rangeTarget (frame :: outer) inner keyType isDefine key
      let (valuePlace, inner) ← rangeTarget (frame :: outer) inner (valueType.getD .any) isDefine value
      let (slots, inner) := rangeSlots inner type keyType
      let inner := { inner with loop := some ⟨true, labels⟩ }
      let body ← block (inner :: frame :: outer) (here + 2) body
      let level := outer.length + 1
      let rest :=
        rangeLoop kind keyType slots operand.toCode keyPlace valuePlace body level here span
      pure (rest.within inner)
    pure (fragment.within frame)
  | .switch init tag clauses span => do
    let fragment ← inScope (init.any Stmt.isDefine) span here fun inner here => do
      let first ← initStmt (frame :: outer) inner here init
      let inner := { first.frame with loop := some ⟨false, labels⟩ }
      let tag ← switchTag (inner :: frame :: outer) span tag
      let tagType ← tag.type
      let default ← defaultClause .switch (clauses.map fun clause => (clause.list.isNone, clause.span))
      let cases ← switchCases (inner :: frame :: outer) tagType clauses
      let here := here + first.length
      let codes ← switchBodies (inner :: frame :: outer) (here + 1) clauses
      let level := outer.length + 1
      let rest := dispatched level here span codes fun starts breakTo =>
        .switch tag.toCode (tagged cases starts) (fallback default starts breakTo)
      pure ((first.toFragment ++ rest).within inner)
    pure (fragment.within frame)
  | .typeSwitch init binding subject clauses span => do
    let binding := binding.filter (!·.isBlank)
    let owned := init.any Stmt.isDefine || binding.isSome
    let fragment ← inScope owned span here fun inner here => do
      let first ← initStmt (frame :: outer) inner here init
      let inner := { first.frame with loop := some ⟨false, labels⟩ }
      let operand ← expr (inner :: frame :: outer) subject
      let subject ← operand.interfaceCode subject.span
      let default ←
        defaultClause .typeSwitch (clauses.map fun clause => (clause.list.isNone, clause.span))
      let types ← clauseTypes (inner :: frame :: outer) clauses
      let (parked, inner) := parkSubject inner binding
      let here := here + first.length
      let codes ←
        typeSwitchBodies (inner :: frame :: outer) parked (types.map boundType) (here + 1) clauses
      let level := outer.length + 1
      let rest := dispatched level here span codes fun starts breakTo =>
        .typeSwitch subject (tagged types starts) (fallback default starts breakTo)
          (parked.map (·.2))
      pure ((first.toFragment ++ rest).within inner)
    pure (fragment.within frame)
  | .select clauses span => do
    let default ← defaultClause .select (clauses.map fun clause => (clause.comm.isNone, clause.span))
    let receives := clauses.any fun clause =>
      match clause.comm with
      | some (.assign ..) => true
      | _ => false
    let fragment ← inScope receives span here fun inner here => do
      let inner := { inner with loop := some ⟨false, labels⟩ }
      let comms ← selectComms (inner :: frame :: outer) clauses
      let (parked, inner) := parkReceived inner receives
      let codes ←
        selectBodies (inner :: frame :: outer) parked (comms.map (·.map (·.2))) (here + 1) clauses
      let level := outer.length + 1
      let rest := dispatched level here span codes fun starts _ =>
        .select (selectTargets comms starts) (default.bind (starts[·]?)) parked
      pure (rest.within inner)
    pure (fragment.within frame)

/-- Statements in the current scope. In the body of a clause, a final `fallthrough` belongs to the
clause and is not a statement. -/
def stmts (outer : Scope) (frame : Frame) (here : Nat) (clause : Bool) : List Stmt → Compiled Piece
  | [] => pure (.none frame)
  | node :: rest =>
    if clause && rest.isEmpty && node.isFallthrough then pure (.none frame)
    else do
      let first ← stmt outer frame here [] node
      let others ← stmts outer first.frame (here + first.length) clause rest
      pure ((first.toFragment ++ others.toFragment).within others.frame)

/-- Statements in a scope of their own, which has an environment if they declare a name. -/
def scopedStmts (scope : Scope) (here : Nat) (clause : Bool) (span : Span) :
    List Stmt → Compiled Fragment
  | [] => pure {}
  | node :: rest =>
    inScope ((node :: rest).any Stmt.declares) span here fun inner here =>
      if clause && rest.isEmpty && node.isFallthrough then pure (.none inner)
      else do
        let first ← stmt scope inner here [] node
        let others ← stmts scope first.frame (here + first.length) clause rest
        pure ((first.toFragment ++ others.toFragment).within others.frame)

def block (scope : Scope) (here : Nat) : Block → Compiled Fragment
  | .mk statements span => scopedStmts scope here false span statements

/-- The statement after `else`: a block, another condition, or one statement in a scope of its
own. -/
def elseStmt (outer : Scope) (frame : Frame) (here : Nat) : Option Stmt → Compiled Fragment
  | none => pure {}
  | some node =>
    if node.isBranchBody then do
      let piece ← stmt outer frame here [] node
      pure piece.toFragment
    else inScope node.declares node.span here fun inner here => stmt (frame :: outer) inner here [] node

def initStmt (outer : Scope) (frame : Frame) (here : Nat) : Option Stmt → Compiled Piece
  | none => pure (.none frame)
  | some node => stmt outer frame here [] node

/-- The post statement of a loop, which must not declare variables. -/
def postStmt (outer : Scope) (frame : Frame) (here : Nat) : Option Stmt → Compiled Piece
  | none => pure (.none frame)
  | some node => if node.isDefine then fault .declareInPost node.span else stmt outer frame here [] node

/-- The condition of a loop; a missing one always holds. -/
def loopCond (scope : Scope) : Option Expr → Compiled Cond
  | none => pure (.const true)
  | some node => do
    let operand ← expr scope node
    operand.toCond

def switchTag (scope : Scope) (span : Span) : Option Expr → Compiled Operand
  | none => pure (.const (.bool true) .bool span)
  | some node => expr scope node

/-- A variable of a range loop: declared by the loop, or any place. -/
def rangeTarget (outer : Scope) (frame : Frame) (type : Ty) (isDefine : Bool) :
    Option Expr → Compiled (Option Place × Frame)
  | none => pure (none, frame)
  | some target =>
    if isDefine then
      match target.ident? with
      | none => fault .nonNameDefine target.span
      | some ident => do
        let (slot, frame) ← frame.declareVar ident.name type ident.span
        pure (slot.map (.slot 0 ·), frame)
    else do
      let found ← place (frame :: outer) target
      checkPlace found type target.span
      match found with
      | .blank => pure (none, frame)
      | found => pure (some found, frame)

def switchCases (scope : Scope) (tag : Ty) : List CaseClause → Compiled (List (List Code))
  | [] => pure []
  | .mk none _ _ :: rest => do
    let others ← switchCases scope tag rest
    pure ([] :: others)
  | .mk (some list) _ _ :: rest => do
    let codes ← caseValues scope tag list
    let others ← switchCases scope tag rest
    pure (codes :: others)

def caseValues (scope : Scope) (tag : Ty) : List Expr → Compiled (List Code)
  | [] => pure []
  | node :: rest => do
    let operand ← expr scope node
    let code ← caseValue tag operand node.span
    let others ← caseValues scope tag rest
    pure (code :: others)

def switchBodies (scope : Scope) (here : Nat) : List CaseClause → Compiled (List ClauseCode)
  | [] => pure []
  | .mk _ statements span :: rest => do
    let fallsThrough := statements.getLast?.any Stmt.isFallthrough
    if fallsThrough && rest.isEmpty then fault (.misplacedFallthrough .finalCase) span
    let body ← scopedStmts scope here true span statements
    let code : ClauseCode := { start := here, body, fallsThrough, span }
    let others ← switchBodies scope code.next rest
    pure (code :: others)

/-- With a binding, each clause declares the variable and copies the parked subject into it. -/
def typeSwitchBodies (scope : Scope) (parked : Option (Ident × Slot)) (types : List Ty) (here : Nat) :
    List CaseClause → Compiled (List ClauseCode)
  | [] => pure []
  | .mk _ statements span :: rest => do
    if statements.getLast?.any Stmt.isFallthrough then fault (.misplacedFallthrough .typeSwitch) span
    let body ← match parked with
      | none => scopedStmts scope here false span statements
      | some (ident, subject) =>
        inScope true span here fun inner here => do
          let (slot, inner) ← inner.declareVar ident.name (types.headD .any) ident.span
          let copy : Fragment := match slot with
            | some slot => .one (.adopt [(subject, slot)]) span
            | none => {}
          let body ← stmts scope inner (here + copy.length) false statements
          pure ((copy ++ body.toFragment).within body.frame)
    let code : ClauseCode := { start := here, body, span }
    let others ← typeSwitchBodies scope parked types.tail code.next rest
    pure (code :: others)

/-- The communication of each clause of a select; none for the default. -/
def selectComms (scope : Scope) : List CommClause → Compiled (List (Option (Comm × Receive)))
  | [] => pure []
  | .mk none _ _ :: rest => do
    let others ← selectComms scope rest
    pure (none :: others)
  | .mk (some node) _ _ :: rest => do
    let found ← comm scope node
    let others ← selectComms scope rest
    pure (some found :: others)

def comm (scope : Scope) : Stmt → Compiled (Comm × Receive)
  | .send channel value span => do
    let channel ← expr scope channel
    let type ← channel.type
    let elem ← Operand.sendElem type span
    let value ← expr scope value
    let value ← value.convertTo elem
    pure (.send channel.toCode value.toCode, .discard)
  | .expr (.unary .recv node _) => do
    let channel ← expr scope node
    let type ← channel.type
    let _ ← Operand.recvElem type node.span
    pure (.recv channel.toCode, .discard)
  | .assign lhs op [.unary .recv node _] span => do
    if lhs.isEmpty || 2 < lhs.length then fault .invalidComm span
    match op with
    | .compound _ => fault .invalidComm span
    | .define => do
      let channel ← expr scope node
      let type ← channel.type
      let elem ← Operand.recvElem type span
      let (value, flag) ← receiveNames lhs span
      pure (.recv channel.toCode, .define value flag elem)
    | .assign => do
      let channel ← expr scope node
      let type ← channel.type
      let elem ← Operand.recvElem type span
      let (value, flag) ← receivePlaces scope elem span lhs
      pure (.recv channel.toCode, .assign value flag)
  | other => fault .invalidComm other.span

def receivePlaces (scope : Scope) (elem : Ty) (span : Span) :
    List Expr → Compiled (Place × Option Place)
  | [] => pure (.blank, none)
  | [target] => do
    let value ← place scope target
    checkPlace value elem span
    pure (value, none)
  | target :: second :: _ => do
    let value ← place scope target
    checkPlace value elem span
    let flag ← place scope second
    checkPlace flag .bool span
    pure (value, some flag)

/-- Each clause of a select takes the parked value as its communication says. -/
def selectBodies (scope : Scope) (parked : Option (Slot × Slot)) (receives : List (Option Receive))
    (here : Nat) : List CommClause → Compiled (List ClauseCode)
  | [] => pure []
  | .mk _ statements span :: rest => do
    let body ← match receives.head?.join, parked with
      | some (.define value flag elem), some (valueSlot, flagSlot) =>
        inScope (value.isSome || flag.isSome) span here fun inner here => do
          let (slots, inner) ← inner.declareParams [(value, elem), (flag, .bool)]
          let pairs := ([valueSlot, flagSlot].zip slots).filterMap fun (source, slot) =>
            slot.map (source, ·)
          let copy : Fragment :=
            if value.isSome || flag.isSome then .one (.adopt pairs) span else {}
          let body ← stmts scope inner (here + copy.length) false statements
          pure ((copy ++ body.toFragment).within body.frame)
      | some (.assign value flag), some parked => do
        let body ← scopedStmts scope (here + 1) false span statements
        pure (Fragment.one (.unpark parked value flag) span ++ body)
      | _, _ => scopedStmts scope here false span statements
    let code : ClauseCode := { start := here, body, span }
    let others ← selectBodies scope parked receives.tail code.next rest
    pure (code :: others)

def decl (outer : Scope) (frame : Frame) (here : Nat) : Decl → Compiled Piece
  | .var specs _ => varSpecs outer frame here specs
  | .const specs _ => do
    let frame ← constSpecs outer frame specs
    pure (.none frame)
  | .type specs _ => do
    let frame ← typeSpecs outer frame specs
    pure (.none frame)
  | .func name head body span => do
    let signature ← Scope.resolveHead (frame :: outer) span head
    let (slot, frame) ← frame.declareVar name.name signature.toTy name.span
    let template ← function (frame :: outer) head span body
    match slot with
    | some slot => pure (.one frame (.bind slot template) span)
    | none => pure (.none frame)

def varSpecs (outer : Scope) (frame : Frame) (here : Nat) : List ValueSpec → Compiled Piece
  | [] => pure (.none frame)
  | .mk names written values span :: rest => do
    let declared ← declaredType (frame :: outer) written span
    let operands ← operands (frame :: outer) (fun _ => pure) none values
    let (types, values) ← initValues declared names.length operands span
    let first ← declareInit frame names types values span
    let others ← varSpecs outer first.frame (here + first.length) rest
    pure ((first.toFragment ++ others.toFragment).within others.frame)

def constSpecs (outer : Scope) (frame : Frame) : List ValueSpec → Compiled Frame
  | [] => pure frame
  | .mk names written values span :: rest => do
    if values.length ≠ names.length then fault (.constArity names.length values.length) span
    let declared ← declaredType (frame :: outer) written span
    let frame ← constValues outer frame declared names values
    constSpecs outer frame rest

/-- Constants of one specification; each is in scope for the ones after it. -/
def constValues (outer : Scope) (frame : Frame) (declared : Option Ty) (names : List Ident) :
    List Expr → Compiled Frame
  | [] => pure frame
  | node :: rest =>
    match names with
    | [] => pure frame
    | name :: names => do
      let operand ← expr (frame :: outer) node
      let (value, type) ← constValue declared name operand
      let frame ← frame.declareSymbol name.name (.const value type) name.span
      constValues outer frame declared names rest

end

end Compile

end MiniGo
