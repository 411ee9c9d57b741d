import MiniGo.CompiledFile
/-!
Where the lines of a function are compiled. For each of its lines, in order, these relations give the
frames that the compiler is in there, and the frames that own the environments around the line as they
are when everything in them has been declared.
-/

namespace MiniGo

/-- The frames around a line: those that names are looked up in there, the innermost first, and those
that own an environment in their final form. -/
structure Site where
  scope : Scope
  finals : List Frame

/-- The final frames of the environments in a scope that is opened inside of others. -/
def Frame.opening (last : Frame) (finals : List Frame) : List Frame :=
  if last.owned then last :: finals else finals

namespace Site

/-- The lines of a scope around those of its content. No name is looked up where an environment is
left. -/
def wrapped (owned : Bool) (outside : Site) (last : Frame) (content : List Site) : List Site :=
  if owned then
    outside :: content ++ [⟨{ owned := true } :: outside.scope, last :: outside.finals⟩]
  else content

/-- The lines of a condition and of the branches that are kept. -/
def branched (test : Cond) (hasElse : Bool) (site : Site) (first second : List Site) : List Site :=
  match test with
  | .const true => first
  | .const false => second
  | .code _ => site :: first ++ if hasElse then site :: second else []

def looped (test : Cond) (site : Site) (body post : List Site) : List Site :=
  match test with
  | .const false => []
  | .const true => body ++ post ++ [site]
  | .code _ => site :: (body ++ post ++ [site])

/-- The lines of clauses after the instruction that dispatches to them: each ends with a jump. -/
def dispatched (site : Site) (clauses : List (List Site)) : List Site :=
  site :: clauses.flatMap (· ++ [site])

end Site

/-- A statement whose lines are all compiled in the frames that the statement is in. -/
def Stmt.isPlain : Stmt → Bool
  | .empty _ | .branch _ _ _ | .expr _ | .assign _ _ _ _ | .incDec _ _ _ | .ret _ _ | .defer _ _
  | .go _ _ | .send _ _ _ | .decl (.const _ _) | .decl (.type _ _) => true
  | _ => false

namespace Compile

mutual

inductive StmtSites : Scope → Frame → List Frame → List String → Stmt → List Site → Prop
  | plain {outer frame finals here labels node piece} :
    node.isPlain = true →
    stmt outer frame here labels node = .ok piece →
    StmtSites outer frame finals labels node (.replicate piece.lines.length ⟨frame :: outer, finals⟩)
  | labeled {outer frame finals labels label body span sites} :
    StmtSites outer frame finals (labels ++ [label.name]) body sites →
    StmtSites outer frame finals labels (.labeled label body span) sites
  | block {outer frame finals labels body sites} :
    BlockSites (frame :: outer) finals body sites →
    StmtSites outer frame finals labels (.block body) sites
  | variables {outer frame finals labels specs span sites} :
    SpecsSites outer frame finals specs sites →
    StmtSites outer frame finals labels (.decl (.var specs span)) sites
  /-- A function sees its own name. -/
  | func {outer frame finals labels head body span slot grown} {name : Ident}
      {signature : Signature} :
    Scope.resolveHead (frame :: outer) span head = .ok signature →
    frame.declareVar name.name signature.toTy name.span = .ok (slot, grown) →
    StmtSites outer frame finals labels (.decl (.func name head body span))
      (.replicate slot.toList.length ⟨grown :: outer, finals⟩)
  | ifElse {outer frame finals here labels init cond thenBranch elseBranch span first operand test
      opening thenSites elseSites} :
    initStmt (frame :: outer) { owned := init.any Stmt.isDefine } here init = .ok first →
    expr (first.frame :: frame :: outer) cond = .ok operand →
    operand.toCond = .ok test →
    OptionSites (frame :: outer) { owned := init.any Stmt.isDefine } (first.frame.opening finals) init
      opening →
    BlockSites (first.frame :: frame :: outer) (first.frame.opening finals) thenBranch thenSites →
    ElseSites (frame :: outer) first.frame (first.frame.opening finals) elseBranch elseSites →
    StmtSites outer frame finals labels (.ifElse init cond thenBranch elseBranch span)
      (Site.wrapped (init.any Stmt.isDefine) ⟨frame :: outer, finals⟩ first.frame
        (opening ++ Site.branched test elseBranch.isSome
          ⟨first.frame :: frame :: outer, first.frame.opening finals⟩ thenSites elseSites))
  | forLoop {outer frame finals here there labels init cond post body span first test last
      inner opening bodySites postSites} :
    initStmt (frame :: outer) { owned := init.any Stmt.isDefine } here init = .ok first →
    inner = { first.frame with loop := some ⟨true, labels⟩ } →
    loopCond (inner :: frame :: outer) cond = .ok test →
    postStmt (frame :: outer) inner there post = .ok last →
    OptionSites (frame :: outer) { owned := init.any Stmt.isDefine } (last.frame.opening finals) init
      opening →
    BlockSites (inner :: frame :: outer) (last.frame.opening finals) body bodySites →
    OptionSites (frame :: outer) inner (last.frame.opening finals) post postSites →
    StmtSites outer frame finals labels (.forLoop init cond post body span)
      (Site.wrapped (init.any Stmt.isDefine) ⟨frame :: outer, finals⟩ last.frame
        (opening ++ Site.looped test ⟨inner :: frame :: outer, last.frame.opening finals⟩ bodySites
          postSites))
  /-- The operands of a range loop are compiled before its variables are declared. -/
  | range {outer frame finals labels key value isDefine subject body span operand type kind
      keyType valueType keyPlace keyFrame valuePlace valueFrame slots lastFrame last sites} :
    expr ({ owned := true } :: frame :: outer) subject = .ok operand →
    operand.type = .ok type →
    rangeShape type span subject.span = .ok (kind, keyType, valueType) →
    rangeTarget (frame :: outer) { owned := true } keyType isDefine key = .ok (keyPlace, keyFrame) →
    rangeTarget (frame :: outer) keyFrame (valueType.getD .any) isDefine value =
      .ok (valuePlace, valueFrame) →
    rangeSlots valueFrame type keyType = (slots, lastFrame) →
    last = { lastFrame with loop := some ⟨true, labels⟩ } →
    BlockSites (last :: frame :: outer) (last :: finals) body sites →
    StmtSites outer frame finals labels (.range key value isDefine subject body span)
      (Site.wrapped true ⟨frame :: outer, finals⟩ last
        (.replicate 2 ⟨{ owned := true } :: frame :: outer, last :: finals⟩ ++ sites ++
          .replicate (if kind == .chan then 1 else 2)
            ⟨{ owned := true } :: frame :: outer, last :: finals⟩))
  | switch {outer frame finals here labels init tag clauses span first inner opening sites} :
    initStmt (frame :: outer) { owned := init.any Stmt.isDefine } here init = .ok first →
    inner = { first.frame with loop := some ⟨false, labels⟩ } →
    OptionSites (frame :: outer) { owned := init.any Stmt.isDefine } (inner.opening finals) init
      opening →
    SwitchSites (inner :: frame :: outer) (inner.opening finals) clauses sites →
    StmtSites outer frame finals labels (.switch init tag clauses span)
      (Site.wrapped (init.any Stmt.isDefine) ⟨frame :: outer, finals⟩ inner
        (opening ++ Site.dispatched ⟨inner :: frame :: outer, inner.opening finals⟩ sites))
  | typeSwitch {outer frame finals here labels init binding subject clauses span first inner types parked
      last bound owned opening sites} :
    bound = binding.filter (!·.isBlank) →
    owned = (init.any Stmt.isDefine || bound.isSome) →
    initStmt (frame :: outer) { owned } here init = .ok first →
    inner = { first.frame with loop := some ⟨false, labels⟩ } →
    clauseTypes (inner :: frame :: outer) clauses = .ok types →
    parkSubject inner bound = (parked, last) →
    OptionSites (frame :: outer) { owned } (last.opening finals) init opening →
    TypeSwitchSites (last :: frame :: outer) (last.opening finals) (parked.map (·.1))
      (types.map boundType) clauses sites →
    StmtSites outer frame finals labels (.typeSwitch init binding subject clauses span)
      (Site.wrapped owned ⟨frame :: outer, finals⟩ last
        (opening ++ Site.dispatched ⟨inner :: frame :: outer, last.opening finals⟩ sites))
  | select {outer frame finals labels clauses span receives inner comms parked last sites} :
    receives = (clauses.any fun clause =>
      match clause.comm with
      | some (.assign ..) => true
      | _ => false) →
    inner = { owned := receives, loop := some ⟨false, labels⟩ } →
    selectComms (inner :: frame :: outer) clauses = .ok comms →
    parkReceived inner receives = (parked, last) →
    SelectSites ⟨inner :: frame :: outer, last.opening finals⟩ (last :: frame :: outer) parked.isSome
      (comms.map (·.map (·.2))) clauses sites →
    StmtSites outer frame finals labels (.select clauses span)
      (Site.wrapped receives ⟨frame :: outer, finals⟩ last
        (Site.dispatched ⟨inner :: frame :: outer, last.opening finals⟩ sites))

inductive StmtsSites : Scope → Frame → List Frame → Bool → List Stmt → List Site → Prop
  | nil {outer frame finals clause} : StmtsSites outer frame finals clause [] []
  | falls {outer frame finals node} :
    node.isFallthrough = true →
    StmtsSites outer frame finals true [node] []
  | cons {outer frame finals here clause node rest first sites others} :
    (clause && rest.isEmpty && node.isFallthrough) = false →
    stmt outer frame here [] node = .ok first →
    StmtSites outer frame finals [] node sites →
    StmtsSites outer first.frame finals clause rest others →
    StmtsSites outer frame finals clause (node :: rest) (sites ++ others)

inductive ScopedSites : Scope → List Frame → Bool → List Stmt → List Site → Prop
  | nil {scope finals clause} : ScopedSites scope finals clause [] []
  | cons {scope finals here clause node rest piece sites} :
    stmts scope { owned := (node :: rest).any Stmt.declares } here clause (node :: rest) =
      .ok piece →
    StmtsSites scope { owned := (node :: rest).any Stmt.declares } (piece.frame.opening finals) clause
      (node :: rest) sites →
    ScopedSites scope finals clause (node :: rest)
      (Site.wrapped ((node :: rest).any Stmt.declares) ⟨scope, finals⟩ piece.frame sites)

inductive BlockSites : Scope → List Frame → Block → List Site → Prop
  | mk {scope finals statements span sites} :
    ScopedSites scope finals false statements sites →
    BlockSites scope finals (.mk statements span) sites

/-- A statement that may be missing, in the frames around it. -/
inductive OptionSites : Scope → Frame → List Frame → Option Stmt → List Site → Prop
  | none {outer frame finals} : OptionSites outer frame finals none []
  | some {outer frame finals node sites} :
    StmtSites outer frame finals [] node sites →
    OptionSites outer frame finals (some node) sites

inductive ElseSites : Scope → Frame → List Frame → Option Stmt → List Site → Prop
  | none {outer frame finals} : ElseSites outer frame finals none []
  | body {outer frame finals node sites} :
    node.isBranchBody = true →
    StmtSites outer frame finals [] node sites →
    ElseSites outer frame finals (some node) sites
  | scoped {outer frame finals here node piece sites} :
    node.isBranchBody = false →
    stmt (frame :: outer) { owned := node.declares } here [] node = .ok piece →
    StmtSites (frame :: outer) { owned := node.declares } (piece.frame.opening finals) [] node
      sites →
    ElseSites outer frame finals (some node)
      (Site.wrapped node.declares ⟨frame :: outer, finals⟩ piece.frame sites)

/-- The bodies of the clauses of a switch. -/
inductive SwitchSites : Scope → List Frame → List CaseClause → List (List Site) → Prop
  | nil {scope finals} : SwitchSites scope finals [] []
  | cons {scope finals list statements span rest sites others} :
    ScopedSites scope finals true statements sites →
    SwitchSites scope finals rest others →
    SwitchSites scope finals (.mk list statements span :: rest) (sites :: others)

/-- The bodies of the clauses of a type switch, each with a variable of its own if there is one. -/
inductive TypeSwitchSites :
    Scope → List Frame → Option Ident → List Ty → List CaseClause → List (List Site) → Prop
  | nil {scope finals binding types} : TypeSwitchSites scope finals binding types [] []
  | plain {scope finals types list statements span rest sites others} :
    ScopedSites scope finals false statements sites →
    TypeSwitchSites scope finals none types.tail rest others →
    TypeSwitchSites scope finals none types (.mk list statements span :: rest) (sites :: others)
  | bound {scope finals here types list statements span rest slot grown piece sites others}
      {ident : Ident} :
    Frame.declareVar { owned := true } ident.name (types.headD .any) ident.span =
      .ok (slot, grown) →
    stmts scope grown here false statements = .ok piece →
    StmtsSites scope grown (piece.frame :: finals) false statements sites →
    TypeSwitchSites scope finals (some ident) types.tail rest others →
    TypeSwitchSites scope finals (some ident) types (.mk list statements span :: rest)
      (Site.wrapped true ⟨scope, finals⟩ piece.frame
        (.replicate slot.toList.length ⟨{ owned := true } :: scope, piece.frame :: finals⟩ ++
          sites) :: others)

/-- The bodies of the clauses of a select. The places that a clause stores what it receives to are
compiled with its communication. -/
inductive SelectSites :
    Site → Scope → Bool → List (Option Receive) → List CommClause → List (List Site) → Prop
  | nil {site scope parks receives} : SelectSites site scope parks receives [] []
  | plain {site scope parks receives node statements span rest sites others} :
    (parks = true → ∀ receive, receives.head?.join = some receive → receive = .discard) →
    ScopedSites scope site.finals false statements sites →
    SelectSites site scope parks receives.tail rest others →
    SelectSites site scope parks receives (.mk node statements span :: rest) (sites :: others)
  | define {site scope here receives node statements span rest value flag elem owned slots grown piece
      sites others} :
    receives.head?.join = some (.define value flag elem) →
    owned = (value.isSome || flag.isSome) →
    Frame.declareParams { owned } [(value, elem), (flag, .bool)] = .ok (slots, grown) →
    stmts scope grown here false statements = .ok piece →
    StmtsSites scope grown (piece.frame.opening site.finals) false statements
      sites →
    SelectSites site scope true receives.tail rest others →
    SelectSites site scope true receives (.mk node statements span :: rest)
      (Site.wrapped owned ⟨scope, site.finals⟩ piece.frame
        (.replicate owned.toNat
          ⟨{ owned } :: scope, piece.frame.opening site.finals⟩ ++ sites) :: others)
  | assign {site scope receives node statements span rest value flag sites others} :
    receives.head?.join = some (.assign value flag) →
    ScopedSites scope site.finals false statements sites →
    SelectSites site scope true receives.tail rest others →
    SelectSites site scope true receives (.mk node statements span :: rest)
      ((site :: sites) :: others)

/-- Specifications of variables. The initial values of one are compiled before it is declared. -/
inductive SpecsSites : Scope → Frame → List Frame → List ValueSpec → List Site → Prop
  | nil {outer frame finals} : SpecsSites outer frame finals [] []
  | cons {outer frame finals here spec rest first others} :
    varSpecs outer frame here [spec] = .ok first →
    SpecsSites outer first.frame finals rest others →
    SpecsSites outer frame finals (spec :: rest)
      (.replicate first.lines.length ⟨frame :: outer, finals⟩ ++ others)

end

/-- The lines of a function that is compiled in a scope inside of environments with given final
frames. -/
inductive FunctionSites (scope : Scope) (finals : List Frame) (head : FuncHead) (span : Span) :
    Block → List Site → Prop
  | mk {statements bodySpan signature params results frame piece sites} :
    scope.resolveHead span head = .ok signature →
    functionFrame head signature = .ok (params, results, frame) →
    stmts scope frame 0 false statements = .ok piece →
    StmtsSites scope frame (piece.frame :: finals) false statements sites →
    FunctionSites scope finals head span (.mk statements bodySpan) sites

/-- The variables of a file. -/
inductive FileVarsSites (finals : List Frame) : Frame → SourceFile → List Site → Prop
  | nil {frame} : FileVarsSites finals frame [] []
  | var {frame specs span rest first sites others} :
    varSpecs [] frame 0 specs = .ok first →
    SpecsSites [] frame finals specs sites →
    FileVarsSites finals first.frame rest others →
    FileVarsSites finals frame (.var specs span :: rest) (sites ++ others)
  | other {frame declaration rest sites} :
    (∀ specs span, declaration ≠ .var specs span) →
    FileVarsSites finals frame rest sites →
    FileVarsSites finals frame (declaration :: rest) sites

/-- The lines of a file: those that bind its functions, those of its variables and those that call its
`init` functions. Functions see every name of the file. -/
inductive FileSites (source : SourceFile) (natives : List (String × Signature)) : List Site → Prop
  | mk {start scope : FileScope} {vars : Piece} {binds inits : Fragment} {sites : List Site} :
    FileScope.declareNatives {} natives = .ok start →
    start.declareAll source = .ok scope →
    fileVars scope.frame source = .ok vars →
    fileFuncs [vars.frame] (fun slot template => slot.map (.bind · template)) scope.funcs =
      .ok binds →
    fileFuncs [vars.frame] (fun _ template => some (.callInit template)) scope.inits = .ok inits →
    FileVarsSites [vars.frame] scope.frame source sites →
    FileSites source natives
      (.replicate binds.lines.length ⟨[vars.frame], [vars.frame]⟩ ++ sites ++
        .replicate inits.lines.length ⟨[vars.frame], [vars.frame]⟩)

/-- A program that has been compiled, and where each of its lines was: the program of a file, or that
of a function in some scope. -/
inductive Lays : Program → List Site → Prop
  | file {source : SourceFile} {natives : List (String × Signature)} {file : CompiledFile}
      {sites : List Site} :
    Compile.file source natives = .ok file →
    FileSites source natives sites →
    Lays file.program sites
  | function {scope : Scope} {finals : List Frame} {head : FuncHead} {span : Span} {body : Block}
      {template : Template} {sites : List Site} :
    Compile.function scope head span body = .ok template →
    FunctionSites scope finals head span body sites →
    Lays template.program sites

end Compile

end MiniGo
