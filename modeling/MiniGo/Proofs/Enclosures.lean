import MiniGo.Proofs.Branching
/-!
A statement inside another one. When the compilations of two statements differ in a branch, so do those
of a statement around them. What the statement around offers to the one inside is read off the scope
that the one inside is compiled in.
-/

namespace MiniGo

/-- Two statements that the statements around them take alike. -/
structure Stmt.Twins (left right : Stmt) : Prop where
  declares : left.declares = false
  declares' : right.declares = false
  isDefine : left.isDefine = false
  isDefine' : right.isDefine = false
  isFallthrough : left.isFallthrough = false
  isFallthrough' : right.isFallthrough = false
  isBranchBody : left.isBranchBody = right.isBranchBody
  span : left.span = right.span

theorem Shell.fill_twins (shell : Shell) {left right : Stmt} :
    (shell.fill left).Twins (shell.fill right) := by
  cases shell <;> exact ⟨rfl, rfl, rfl, rfl, rfl, rfl, rfl, rfl⟩

namespace Row

variable {row : Row} {left right : Stmt}

theorem fill_declares (plain : left.declares = false) :
    (row.fill left).any Stmt.declares = row.declares := by
  simp [fill, declares, plain]

theorem fill_falls (twins : left.Twins right) :
    (row.fill left).getLast?.any Stmt.isFallthrough =
      (row.fill right).getLast?.any Stmt.isFallthrough := by
  unfold fill
  cases after : row.after with
  | nil => simp [twins.isFallthrough, twins.isFallthrough']
  | cons next rest => simp

end Row

theorem Frame.Like.offer {frame : Frame} {owned : Bool} (like : frame.Like { owned }) (info : LoopInfo) :
    ({ frame with loop := some info } : Frame).Like { owned, loop := some info } :=
  ⟨like.owned, rfl, like.func⟩

namespace Scope

variable {frame : Frame} {scope : Scope} {kind : ExitKind} {label : Option String} {owned : Bool}

theorem exit?_plain (like : frame.Like { owned }) :
    exit? kind label (frame :: scope) =
      (exit? kind label scope).map fun (hops, level) => (owned.toNat + hops, level) := by
  have cost : frame.cost = owned.toNat := by
    rw [Frame.cost, like.owned]
    cases owned <;> rfl
  simp only [exit?, like.loop, like.func, Option.any_none, Option.isSome_none, Bool.false_eq_true,
    if_false, cost]

theorem exit?_plain_plain {inner : Frame} {entered : Bool} (like : inner.Like { owned := entered })
    (outerLike : frame.Like { owned }) :
    exit? kind label (inner :: frame :: scope) = (exit? kind label scope).map fun (hops, level) =>
      (owned.toNat + entered.toNat + hops, level) := by
  rw [exit?_plain like, exit?_plain outerLike, Option.map_map]
  congr 1
  funext ⟨hops, level⟩
  simp only [Function.comp_apply, Prod.mk.injEq, and_true]
  omega

theorem exit?_loop {continues : Bool} {labels : List String}
    (like : frame.Like { owned, loop := some ⟨continues, labels⟩ }) :
    exit? kind label (frame :: scope) =
      if (kind == .break || continues) && label.all labels.contains then some (0, scope.length)
      else (exit? kind label scope).map fun (hops, level) => (owned.toNat + hops, level) := by
  have cost : frame.cost = owned.toNat := by
    rw [Frame.cost, like.owned]
    cases owned <;> rfl
  simp only [exit?, like.loop, like.func, Option.any_some, Option.isSome_none, Bool.false_eq_true,
    if_false, cost]

theorem exit?_plain_loop {inner : Frame} {entered continues : Bool} {labels : List String}
    (like : inner.Like { owned := entered })
    (outerLike : frame.Like { owned, loop := some ⟨continues, labels⟩ }) :
    exit? kind label (inner :: frame :: scope) =
      if (kind == .break || continues) && label.all labels.contains then
        some (entered.toNat, scope.length)
      else (exit? kind label scope).map fun (hops, level) =>
        (owned.toNat + entered.toNat + hops, level) := by
  rw [exit?_plain like, exit?_loop outerLike]
  split
  · rfl
  · rw [Option.map_map]
    congr 1
    funext ⟨hops, level⟩
    simp only [Function.comp_apply, Prod.mk.injEq, and_true]
    omega

end Scope

namespace Shell

/-- The exit that the statement inside finds, given the scope around the shell. -/
def exit? (kind : ExitKind) (label : Option String) (labels : List String) (scope : Scope)
    (shell : Shell) : Option (Nat × Nat) :=
  if shell.offers kind && label.all labels.contains then some (shell.enters.toNat, scope.length)
  else (scope.exit? kind label).map fun (hops, level) => (shell.depth + hops, level)

/-- The condition of the shell, where it is compiled, is constant and excludes the statement inside. -/
def Excludes (outer : Scope) (frame : Frame) (labels : List String) : Shell → Prop
  | ifThen init cond .. => ∃ here first operand,
    Compile.initStmt (frame :: outer) { owned := init.any Stmt.isDefine } here init = .ok first ∧
      Compile.expr (first.frame :: frame :: outer) cond = .ok operand ∧
      operand.toCond = .ok (.const false)
  | ifElse init cond .. => ∃ here first operand,
    Compile.initStmt (frame :: outer) { owned := init.any Stmt.isDefine } here init = .ok first ∧
      Compile.expr (first.frame :: frame :: outer) cond = .ok operand ∧
      operand.toCond = .ok (.const true)
  | forBody init cond .. | forPost init cond .. => ∃ here first,
    Compile.initStmt (frame :: outer) { owned := init.any Stmt.isDefine } here init = .ok first ∧
      Compile.loopCond ({ first.frame with loop := some ⟨true, labels⟩ } :: frame :: outer) cond =
        .ok (.const false)
  | _ => False

end Shell

namespace Compile

variable {aim : Aim} {at' span : Span} {here : Nat} {depth : Int} {left right : Stmt}

/-- The frame of a scope past some of its statements. -/
inductive Past (outer : Scope) : List Stmt → Frame → Frame → Prop
  | nil {frame} : Past outer [] frame frame
  | cons {frame here node rest piece after} :
    stmt outer frame here [] node = .ok piece →
    Past outer rest piece.frame after →
    Past outer (node :: rest) frame after

theorem Past.like {outer : Scope} {nodes : List Stmt} {frame after : Frame}
    (past : Past outer nodes frame after) : after.Like frame := by
  induction past with
  | nil => exact .refl _
  | cons compiled _ ih => exact ih.trans (stmt_like _ compiled)

/-- The code of a statement differs in the branch when it is compiled past some others. -/
def Within (aim : Aim) (at' : Span) (depth : Int) (left right : Stmt) (outer : Scope)
    (before : List Stmt) (frame : Frame) : Prop :=
  ∀ inner here, Past outer before frame inner →
    Compared aim.stops (aim.Split at' here depth) (stmt outer inner here [] left)
      (stmt outer inner here [] right)

theorem stmts_split {outer : Scope} {frame : Frame} {clause : Bool} {row : Row}
    (twins : left.Twins right) (within : Within aim at' depth left right outer row.before frame) :
    Compared aim.stops (aim.Split at' here depth) (stmts outer frame here clause (row.fill left))
      (stmts outer frame here clause (row.fill right)) := by
  obtain ⟨before, after⟩ := row
  simp only [Row.fill]
  induction before generalizing frame here with
  | nil =>
    simp only [List.nil_append, stmts, twins.isFallthrough, twins.isFallthrough', Bool.and_false,
      Bool.false_eq_true, if_false]
    refine (within frame here .nil).bind fun first second split => ?_
    rw [split.frame, show first.length = second.length from split.length_eq]
    exact .shared fun others _ => .ok ⟨split.toApart.append_right _, rfl⟩
  | cons node rest ih =>
    have notLast (other : Stmt) : (rest ++ other :: after).isEmpty = false := by simp
    simp only [List.cons_append, stmts, notLast, Bool.and_false, Bool.false_and, Bool.false_eq_true,
      if_false]
    refine .shared fun first found => ?_
    have inside : Within aim at' depth left right outer rest first.frame :=
      fun inner here past => within inner here (.cons found past)
    refine (ih inside).bind fun second other split => ?_
    exact .ok ⟨.after (stmt_balanced node found) split.toApart, split.frame⟩

theorem scopedStmts_eq {scope : Scope} {clause : Bool} (row : Row) (node : Stmt) :
    scopedStmts scope here clause span (row.fill node) =
      inScope ((row.fill node).any Stmt.declares) span here fun inner here =>
        stmts scope inner here clause (row.fill node) := by
  obtain ⟨before, after⟩ := row
  cases before <;> simp only [Row.fill, List.nil_append, List.cons_append, scopedStmts, stmts]

theorem scopedStmts_apart {scope : Scope} {clause : Bool} {row : Row} (twins : left.Twins right)
    (within : Within aim at' depth left right scope row.before { owned := row.declares }) :
    Compared aim.stops (aim.Apart at' here (row.declares.toNat + depth))
      (scopedStmts scope here clause span (row.fill left))
      (scopedStmts scope here clause span (row.fill right)) := by
  rw [scopedStmts_eq, scopedStmts_eq, Row.fill_declares twins.declares,
    Row.fill_declares twins.declares']
  exact inScope_apart (stmts_split twins within)

theorem block_apart {scope : Scope} {row : Row} (twins : left.Twins right)
    (within : Within aim at' depth left right scope row.before { owned := row.declares }) :
    Compared aim.stops (aim.Apart at' here (row.declares.toNat + depth))
      (block scope here (.mk (row.fill left) span)) (block scope here (.mk (row.fill right) span)) := by
  simp only [block]
  exact scopedStmts_apart twins within

theorem adopting_apart {scope : Scope} {owned : Bool} {row : Row}
    {copies : Frame → Compiled (Fragment × Frame)}
    (twins : left.Twins right)
    (copied : ∀ frame copy after, copies frame = .ok (copy, after) → copy.Balanced)
    (within : ∀ copy after, copies { owned } = .ok (copy, after) →
      Within aim at' depth left right scope row.before after) :
    Compared aim.stops (aim.Apart at' here (owned.toNat + depth))
      (inScope owned span here fun inner here => do
        let (copy, inner) ← copies inner
        let body ← stmts scope inner (here + copy.length) false (row.fill left)
        pure ((copy ++ body.toFragment).within body.frame))
      (inScope owned span here fun inner here => do
        let (copy, inner) ← copies inner
        let body ← stmts scope inner (here + copy.length) false (row.fill right)
        pure ((copy ++ body.toFragment).within body.frame)) := by
  refine inScope_apart ?_
  refine .shared fun value found => ?_
  obtain ⟨copy, after⟩ := value
  refine (stmts_split twins (within _ _ found)).bind fun first second split => ?_
  exact .ok ⟨.after (copied _ _ _ found) split.toApart, split.frame⟩

def adoptSubject (type : Ty) (span : Span) (ident : Ident) (subject : Slot) (inner : Frame) :
    Compiled (Fragment × Frame) := do
  let (slot, inner) ← inner.declareVar ident.name type ident.span
  let copy : Fragment := match slot with
    | some slot => .one (.adopt [(subject, slot)]) span
    | none => {}
  pure (copy, inner)

/-- The frame that a clause of a type switch begins with. -/
def TypeSwitchStart (parked : Option (Ident × Slot)) (type : Ty) (row : Row) (start : Frame) : Prop :=
  match parked with
  | none => start = { owned := row.declares }
  | some (ident, _) => ∃ slot,
    Frame.declareVar { owned := true } ident.name type ident.span = .ok (slot, start)

theorem TypeSwitchStart.like {parked : Option (Ident × Slot)} {type : Ty} {row : Row} {start : Frame}
    (starts : TypeSwitchStart parked type row start) :
    start.Like { owned := parked.isSome || row.declares } := by
  cases parked with
  | none => exact starts ▸ .refl _
  | some binding =>
    obtain ⟨slot, declared⟩ := starts
    exact Frame.declareVar_like declared

theorem typeSwitchBody_apart {scope : Scope} {parked : Option (Ident × Slot)} {type : Ty} {row : Row}
    (twins : left.Twins right) (within : ∀ start, TypeSwitchStart parked type row start →
      Within aim at' depth left right scope row.before start) :
    Compared aim.stops (aim.Apart at' here ((parked.isSome || row.declares).toNat + depth))
      (typeSwitchBody scope parked type here span (row.fill left))
      (typeSwitchBody scope parked type here span (row.fill right)) := by
  cases parked with
  | none => exact scopedStmts_apart twins (within _ rfl)
  | some binding =>
    obtain ⟨ident, subject⟩ := binding
    have moved := @adopting_apart aim at' span here depth left right scope true row
      (adoptSubject type span ident subject) twins ?_ fun copy after found => ?_
    · simp only [adoptSubject, bind_assoc, pure_bind] at moved
      exact moved
    · intro frame copy after found
      simp only [adoptSubject, Compiled.bind_eq_ok] at found
      obtain ⟨⟨slot, inner⟩, -, ends⟩ := found
      cases ends
      cases slot
      · exact .nil
      · exact .one rfl
    · simp only [adoptSubject, Compiled.bind_eq_ok] at found
      obtain ⟨⟨slot, inner⟩, declared, ends⟩ := found
      cases ends
      exact within _ ⟨slot, declared⟩

def selectEnters (row : Row) (receive : Option Receive) (parked : Option (Slot × Slot)) : Bool :=
  match receive, parked with
  | some (.define value flag _), some _ => value.isSome || flag.isSome
  | _, _ => row.declares

/-- A clause takes what has been received over under the names that it gives. -/
def adoptReceived (value flag : Option Ident) (elem : Ty) (span : Span) (parked : Slot × Slot)
    (inner : Frame) : Compiled (Fragment × Frame) := do
  let (slots, inner) ← inner.declareParams [(value, elem), (flag, .bool)]
  let pairs := ([parked.1, parked.2].zip slots).filterMap fun (source, slot) => slot.map (source, ·)
  let copy : Fragment := if value.isSome || flag.isSome then .one (.adopt pairs) span else {}
  pure (copy, inner)

/-- The frame that a clause of a select begins with. -/
def SelectStart (row : Row) (receive : Option Receive) (parked : Option (Slot × Slot))
    (start : Frame) : Prop :=
  match receive, parked with
  | some (.define value flag elem), some _ => ∃ slots,
    Frame.declareParams { owned := value.isSome || flag.isSome } [(value, elem), (flag, .bool)] =
      .ok (slots, start)
  | _, _ => start = { owned := row.declares }

theorem SelectStart.like {row : Row} {receive : Option Receive} {parked : Option (Slot × Slot)}
    {start : Frame} (starts : SelectStart row receive parked start) :
    start.Like { owned := selectEnters row receive parked } := by
  unfold SelectStart at starts
  unfold selectEnters
  split at starts
  · obtain ⟨slots, declared⟩ := starts
    exact Frame.declareParams_like declared
  · exact starts ▸ .refl _

theorem selectBody_apart {scope : Scope} {parked : Option (Slot × Slot)} {receive : Option Receive}
    {row : Row} (twins : left.Twins right) (within : ∀ start, SelectStart row receive parked start →
      Within aim at' depth left right scope row.before start) :
    Compared aim.stops (aim.Apart at' here ((selectEnters row receive parked).toNat + depth))
      (selectBody scope parked receive here span (row.fill left))
      (selectBody scope parked receive here span (row.fill right)) := by
  rcases receive with _ | ⟨_ | ⟨value, flag, elem⟩ | ⟨value, flag⟩⟩
  · exact scopedStmts_apart twins (within _ rfl)
  · exact scopedStmts_apart twins (within _ rfl)
  · cases parked with
    | none => exact scopedStmts_apart twins (within _ rfl)
    | some parked =>
      have moved := @adopting_apart aim at' span here depth left right scope
        (value.isSome || flag.isSome) row (adoptReceived value flag elem span parked) twins ?_
        fun copy after found => ?_
      · simp only [adoptReceived, bind_assoc, pure_bind] at moved
        exact moved
      · intro frame copy after found
        simp only [adoptReceived, Compiled.bind_eq_ok] at found
        obtain ⟨⟨slots, inner⟩, -, ends⟩ := found
        cases ends
        split
        · exact .one rfl
        · exact .nil
      · simp only [adoptReceived, Compiled.bind_eq_ok] at found
        obtain ⟨⟨slots, inner⟩, declared, ends⟩ := found
        cases ends
        exact within _ ⟨slots, declared⟩
  · cases parked with
    | none => exact scopedStmts_apart twins (within _ rfl)
    | some parked =>
      simp only [selectBody]
      exact (scopedStmts_apart twins (within _ rfl)).bind
        fun first second apart => .ok (.after (.one rfl) apart)

theorem switchBodies_row {scope : Scope} {clauses : List CaseClause} {codes : List ClauseCode}
    (compiled : switchBodies scope here clauses = .ok codes) : ClauseCode.Row here codes := by
  induction clauses generalizing here codes with
  | nil =>
    simp only [switchBodies] at compiled
    cases compiled
    trivial
  | cons clause rest ih =>
    obtain ⟨list, statements, span⟩ := clause
    simp only [switchBodies] at compiled
    split at compiled
    · cases compiled
    · simp only [Compiled.bind_eq_ok] at compiled
      obtain ⟨body, -, others, found, ends⟩ := compiled
      cases ends
      exact ⟨rfl, ih found⟩

theorem typeSwitchBodies_row {scope : Scope} {parked : Option (Ident × Slot)} {types : List Ty}
    {clauses : List CaseClause} {codes : List ClauseCode}
    (compiled : typeSwitchBodies scope parked types here clauses = .ok codes) :
    ClauseCode.Row here codes := by
  induction clauses generalizing here codes types with
  | nil =>
    simp only [typeSwitchBodies] at compiled
    cases compiled
    trivial
  | cons clause rest ih =>
    obtain ⟨list, statements, span⟩ := clause
    rw [typeSwitchBodies_cons] at compiled
    split at compiled
    · cases compiled
    · simp only [Compiled.bind_eq_ok] at compiled
      obtain ⟨body, -, others, found, ends⟩ := compiled
      cases ends
      exact ⟨rfl, ih found⟩

theorem selectBodies_row {scope : Scope} {parked : Option (Slot × Slot)}
    {receives : List (Option Receive)}
    {clauses : List CommClause} {codes : List ClauseCode}
    (compiled : selectBodies scope parked receives here clauses = .ok codes) :
    ClauseCode.Row here codes := by
  induction clauses generalizing here codes receives with
  | nil =>
    simp only [selectBodies] at compiled
    cases compiled
    trivial
  | cons clause rest ih =>
    obtain ⟨comm, statements, span⟩ := clause
    simp only [selectBodies_cons, Compiled.bind_eq_ok] at compiled
    obtain ⟨body, -, others, found, ends⟩ := compiled
    cases ends
    exact ⟨rfl, ih found⟩

theorem switchBodies_clauses {scope : Scope} {row : Row} {first last : List CaseClause}
    {list : Option (List Expr)} (twins : left.Twins right)
    (within : Within aim at' depth left right scope row.before { owned := row.declares }) :
    Compared aim.stops (aim.Clauses at' (row.declares.toNat + depth) here)
      (switchBodies scope here (first ++ .mk list (row.fill left) span :: last))
      (switchBodies scope here (first ++ .mk list (row.fill right) span :: last)) := by
  induction first generalizing here with
  | nil =>
    simp only [List.nil_append, switchBodies, Row.fill_falls twins]
    split
    · exact .same _
    · refine (scopedStmts_apart twins within).bind fun body other apart => ?_
      simp only [ClauseCode.next, apart.length_eq]
      refine .shared fun codes found => .ok (.this apart ?_)
      rw [apart.length_eq]
      exact switchBodies_row found
  | cons clause rest ih =>
    obtain ⟨list, statements, span⟩ := clause
    have isEmpty (clause : CaseClause) : (rest ++ clause :: last).isEmpty = false := by simp
    simp only [List.cons_append, switchBodies, isEmpty, Bool.and_false, Bool.false_eq_true, if_false]
    exact .shared fun body found => ih.bind fun codes others clauses =>
      .ok (.later (scopedStmts_balanced statements found) clauses)

theorem typeSwitchBodies_clauses {scope : Scope} {parked : Option (Ident × Slot)} {types : List Ty}
    {row : Row} {first last : List CaseClause} {list : Option (List Expr)} (twins : left.Twins right)
    (within : ∀ start, TypeSwitchStart parked (types[first.length]?.getD .any) row start →
      Within aim at' depth left right scope row.before start) :
    Compared aim.stops (aim.Clauses at' ((parked.isSome || row.declares).toNat + depth) here)
      (typeSwitchBodies scope parked types here (first ++ .mk list (row.fill left) span :: last))
      (typeSwitchBodies scope parked types here (first ++ .mk list (row.fill right) span :: last)) := by
  induction first generalizing here types with
  | nil =>
    simp only [List.nil_append, typeSwitchBodies_cons, Row.fill_falls twins]
    split
    · exact .same _
    · rw [List.length_nil, ← List.head?_eq_getElem?, ← List.headD_eq_head?_getD] at within
      refine (typeSwitchBody_apart twins within).bind fun body other apart => ?_
      rw [apart.length_eq]
      refine .shared fun codes found => .ok (.this apart ?_)
      rw [apart.length_eq]
      exact typeSwitchBodies_row found
  | cons clause rest ih =>
    obtain ⟨list, statements, span⟩ := clause
    simp only [List.cons_append, typeSwitchBodies_cons]
    split
    · exact .same _
    · refine .shared fun body found => (ih ?_).bind fun codes others clauses =>
        .ok (.later ((statements_balanced statements).typeSwitchBody found) clauses)
      rwa [List.getElem?_tail]

theorem selectBodies_clauses {scope : Scope} {parked : Option (Slot × Slot)}
    {receives : List (Option Receive)} {row : Row} {first last : List CommClause} {comm : Option Stmt}
    {enters : Bool} (twins : left.Twins right)
    (opens : selectEnters row receives[first.length]?.join parked = enters)
    (within : ∀ start, SelectStart row receives[first.length]?.join parked start →
      Within aim at' depth left right scope row.before start) :
    Compared aim.stops (aim.Clauses at' (enters.toNat + depth) here)
      (selectBodies scope parked receives here (first ++ .mk comm (row.fill left) span :: last))
      (selectBodies scope parked receives here (first ++ .mk comm (row.fill right) span :: last)) := by
  induction first generalizing here receives with
  | nil =>
    simp only [List.nil_append, selectBodies_cons]
    rw [List.length_nil, ← List.head?_eq_getElem?] at opens within
    subst opens
    refine (selectBody_apart twins within).bind fun body other apart => ?_
    rw [apart.length_eq]
    refine .shared fun codes found => .ok (.this apart ?_)
    rw [apart.length_eq]
    exact selectBodies_row found
  | cons clause rest ih =>
    obtain ⟨comm, statements, span⟩ := clause
    simp only [List.cons_append, selectBodies_cons]
    refine .shared fun body found => (ih ?_ ?_).bind fun codes others clauses =>
      .ok (.later ((statements_balanced statements).selectBody found) clauses)
    · rwa [List.getElem?_tail]
    · rwa [List.getElem?_tail]

section Clauses

variable {scope : Scope} {list : Option (List Expr)} {comm' : Option Stmt} {last : List CaseClause}

theorem switchCases_fill {tag : Ty} (first : List CaseClause) (body other : List Stmt) :
    switchCases scope tag (first ++ .mk list body span :: last) =
      switchCases scope tag (first ++ .mk list other span :: last) := by
  induction first with
  | nil => cases list <;> simp only [List.nil_append, switchCases]
  | cons clause rest ih =>
    obtain ⟨_ | values, statements, span⟩ := clause <;> simp only [List.cons_append, switchCases, ih]

theorem clauseTypes_fill (first : List CaseClause) (body other : List Stmt) :
    clauseTypes scope (first ++ .mk list body span :: last) =
      clauseTypes scope (first ++ .mk list other span :: last) := by
  induction first with
  | nil => rfl
  | cons clause rest ih => simp only [List.cons_append, clauseTypes, ih]

theorem selectComms_fill {last : List CommClause} (first : List CommClause) (body other : List Stmt) :
    selectComms scope (first ++ .mk comm' body span :: last) =
      selectComms scope (first ++ .mk comm' other span :: last) := by
  induction first with
  | nil => cases comm' <;> simp only [List.nil_append, selectComms]
  | cons clause rest ih =>
    obtain ⟨_ | node, statements, span⟩ := clause <;> simp only [List.cons_append, selectComms, ih]

theorem selectComms_get {last : List CommClause} {body : List Stmt} {first : List CommClause}
    {comms : List (Option (Comm × Receive))}
    (compiled : selectComms scope (first ++ .mk comm' body span :: last) = .ok comms) :
    (comm' = none ∧ comms[first.length]? = some none) ∨
      ∃ node found, comm' = some node ∧ comm scope node = .ok found ∧
        comms[first.length]? = some (some found) := by
  induction first generalizing comms with
  | nil =>
    cases comm' with
    | none =>
      simp only [List.nil_append, selectComms, Compiled.bind_eq_ok] at compiled
      obtain ⟨others, -, ends⟩ := compiled
      cases ends
      exact .inl ⟨rfl, rfl⟩
    | some node =>
      simp only [List.nil_append, selectComms, Compiled.bind_eq_ok] at compiled
      obtain ⟨found, foundComm, others, -, ends⟩ := compiled
      cases ends
      exact .inr ⟨node, found, rfl, foundComm, rfl⟩
  | cons clause rest ih =>
    obtain ⟨_ | node, statements, span⟩ := clause
    · simp only [List.cons_append, selectComms, Compiled.bind_eq_ok] at compiled
      obtain ⟨others, found, ends⟩ := compiled
      cases ends
      simpa using ih found
    · simp only [List.cons_append, selectComms, Compiled.bind_eq_ok] at compiled
      obtain ⟨_, -, others, found, ends⟩ := compiled
      cases ends
      simpa using ih found

theorem receiveNames_isSome {lhs : List Expr} {value flag : Option Ident}
    (named : receiveNames lhs span = .ok (value, flag)) :
    (value.isSome || flag.isSome) = lhs.any (!·.isBlank) := by
  have isNamed (ident : Ident) : (if ident.isBlank then none else some ident).isSome =
      !ident.isBlank := by
    cases ident.isBlank <;> rfl
  unfold receiveNames at named
  dsimp only at named
  split at named
  · rename_i first same
    cases named
    obtain ⟨target, rfl, isFirst⟩ := List.map_eq_singleton_iff.mp same
    simp [isNamed, Expr.isBlank, isFirst]
  · rename_i first second same
    cases named
    obtain ⟨target, rest, rfl, isFirst, same⟩ := List.map_eq_cons_iff.mp same
    obtain ⟨other, rfl, isSecond⟩ := List.map_eq_singleton_iff.mp same
    simp [isNamed, Expr.isBlank, isFirst, isSecond]
  · cases named

theorem comm_enters {node : Stmt} {found : Comm × Receive} {row : Row} {parked : Option (Slot × Slot)}
    {body : List Stmt} (compiled : comm scope node = .ok found)
    (takes : CommClause.takes (.mk (some node) body span) = true → parked.isSome) :
    selectEnters row (some found.2) parked =
      Shell.enters (.selectClause [] (some node) row span [] span) := by
  unfold comm at compiled
  split at compiled
  · simp only [Compiled.bind_eq_ok] at compiled
    obtain ⟨channel, -, type, -, elem, -, value, -, value', -, ends⟩ := compiled
    cases ends
    rfl
  · simp only [Compiled.bind_eq_ok] at compiled
    obtain ⟨channel, -, type, -, elem, -, ends⟩ := compiled
    cases ends
    rfl
  · rename_i lhs op channel span' span
    obtain ⟨slots, rfl⟩ := Option.isSome_iff_exists.mp (takes rfl)
    cases op with
    | compound op =>
      dsimp only at compiled
      split at compiled <;> cases compiled
    | define =>
      dsimp only at compiled
      split at compiled
      · cases compiled
      · simp only [Compiled.bind_eq_ok] at compiled
        obtain ⟨channel, -, type, -, elem, -, ⟨value, flag⟩, named, ends⟩ := compiled
        cases ends
        exact receiveNames_isSome named
    | assign =>
      dsimp only at compiled
      split at compiled
      · cases compiled
      · simp only [Compiled.bind_eq_ok] at compiled
        obtain ⟨channel, -, type, -, elem, -, ⟨value, flag⟩, -, ends⟩ := compiled
        cases ends
        rfl
  · cases compiled

end Clauses

theorem initStmt_like {outer : Scope} {frame : Frame} {init : Option Stmt} {piece : Piece}
    (compiled : initStmt outer frame here init = .ok piece) : piece.frame.Like frame := by
  cases init with
  | none =>
    simp only [initStmt] at compiled
    cases compiled
    exact .refl _
  | some node =>
    simp only [initStmt] at compiled
    exact stmt_like node compiled

theorem elseStmt_apart {outer : Scope} {frame : Frame} (twins : left.Twins right)
    (within : ∀ here, Compared aim.stops (aim.Split at' here depth) (stmt outer frame here [] left)
      (stmt outer frame here [] right))
    (inner : Within aim at' depth left right (frame :: outer) [] { owned := false }) :
    Compared aim.stops (aim.Apart at' here depth) (elseStmt outer frame here (some left))
      (elseStmt outer frame here (some right)) := by
  simp only [elseStmt, twins.isBranchBody, twins.declares, twins.declares', twins.span]
  split
  · exact (within here).bind fun first second split => .ok split.toApart
  · rw [← Int.zero_add depth]
    refine @inScope_apart aim at' right.span here depth false _ _ ?_
    exact inner _ _ .nil

section Shells

variable {kind : ExitKind} {label : Option String} {labels : List String} {outer : Scope} {frame : Frame}

/-- The scope and the frame that the statement inside a shell is compiled in. -/
inductive Content (outer : Scope) (frame : Frame) (labels : List String) :
    Shell → Scope → Frame → Prop
  | labeled {name span} : Content outer frame labels (.labeled name span) outer frame
  | block {row span inner} :
    Past (frame :: outer) row.before { owned := row.declares } inner →
    Content outer frame labels (.block row span) (frame :: outer) inner
  | ifInit {cond thenBranch elseBranch span} :
    Content outer frame labels (.ifInit cond thenBranch elseBranch span) (frame :: outer)
      { owned := false }
  | ifThen {init cond row body elseBranch span here first inner} :
    initStmt (frame :: outer) { owned := init.any Stmt.isDefine } here init = .ok first →
    Past (first.frame :: frame :: outer) row.before { owned := row.declares } inner →
    Content outer frame labels (.ifThen init cond row body elseBranch span)
      (first.frame :: frame :: outer) inner
  | ifElse {init cond thenBranch span here first} :
    initStmt (frame :: outer) { owned := init.any Stmt.isDefine } here init = .ok first →
    Content outer frame labels (.ifElse init cond thenBranch span) (frame :: outer) first.frame
  | ifElseScoped {init cond thenBranch span here first} :
    initStmt (frame :: outer) { owned := init.any Stmt.isDefine } here init = .ok first →
    Content outer frame labels (.ifElse init cond thenBranch span) (first.frame :: frame :: outer)
      { owned := false }
  | forInit {cond post body span} :
    Content outer frame labels (.forInit cond post body span) (frame :: outer)
      { owned := false }
  | forBody {init cond post row body span here first inner} :
    initStmt (frame :: outer) { owned := init.any Stmt.isDefine } here init = .ok first →
    Past ({ first.frame with loop := some ⟨true, labels⟩ } :: frame :: outer) row.before
      { owned := row.declares } inner →
    Content outer frame labels (.forBody init cond post row body span)
      ({ first.frame with loop := some ⟨true, labels⟩ } :: frame :: outer) inner
  | forPost {init cond body span here first} :
    initStmt (frame :: outer) { owned := init.any Stmt.isDefine } here init = .ok first →
    Content outer frame labels (.forPost init cond body span) (frame :: outer)
      { first.frame with loop := some ⟨true, labels⟩ }
  | rangeBody {key value define subject row body span operand type kind keyType valueType keyPlace
      keyFrame valuePlace valueFrame last inner} :
    expr ({ owned := true } :: frame :: outer) subject = .ok operand →
    operand.type = .ok type →
    rangeShape type span subject.span = .ok (kind, keyType, valueType) →
    rangeTarget (frame :: outer) { owned := true } keyType define key = .ok (keyPlace, keyFrame) →
    rangeTarget (frame :: outer) keyFrame (valueType.getD .any) define value =
      .ok (valuePlace, valueFrame) →
    last = (rangeSlots valueFrame type keyType).2 →
    Past ({ last with loop := some ⟨true, labels⟩ } :: frame :: outer) row.before
      { owned := row.declares } inner →
    Content outer frame labels (.rangeBody key value define subject row body span)
      ({ last with loop := some ⟨true, labels⟩ } :: frame :: outer) inner
  | switchInit {tag clauses span} :
    Content outer frame labels (.switchInit tag clauses span) (frame :: outer) { owned := false }
  | switchClause {init tag before list row clause after span here first inner} :
    initStmt (frame :: outer) { owned := init.any Stmt.isDefine } here init = .ok first →
    Past ({ first.frame with loop := some ⟨false, labels⟩ } :: frame :: outer) row.before
      { owned := row.declares } inner →
    Content outer frame labels (.switchClause init tag before list row clause after span)
      ({ first.frame with loop := some ⟨false, labels⟩ } :: frame :: outer) inner
  | typeSwitchInit {binding subject clauses span} :
    Content outer frame labels (.typeSwitchInit binding subject clauses span) (frame :: outer)
      { owned := (binding.filter (!·.isBlank)).isSome }
  | typeSwitchClause {init binding subject before list row clause after span here first types park
      start inner} :
    initStmt (frame :: outer)
      { owned := init.any Stmt.isDefine || (binding.filter (!·.isBlank)).isSome } here init =
        .ok first →
    clauseTypes ({ first.frame with loop := some ⟨false, labels⟩ } :: frame :: outer)
      (before ++ .mk list (row.fill (.empty {})) clause :: after) = .ok types →
    park = parkSubject { first.frame with loop := some ⟨false, labels⟩ } (binding.filter (!·.isBlank)) →
    TypeSwitchStart park.1 ((types.map boundType)[before.length]?.getD .any) row start →
    Past (park.2 :: frame :: outer) row.before start inner →
    Content outer frame labels
      (.typeSwitchClause init binding subject before list row clause after span)
      (park.2 :: frame :: outer) inner
  | selectClause {before comm row clause after span owned comms park start inner} :
    (Shell.selectClause before comm row clause after span).owned = owned →
    selectComms ({ owned, loop := some ⟨false, labels⟩ } :: frame :: outer)
      (before ++ .mk comm (row.fill (.empty {})) clause :: after) = .ok comms →
    park = parkReceived { owned, loop := some ⟨false, labels⟩ } owned →
    SelectStart row (comms.map (·.map (·.2)))[before.length]?.join park.1 start →
    Past (park.2 :: frame :: outer) row.before start inner →
    Content outer frame labels (.selectClause before comm row clause after span)
      (park.2 :: frame :: outer) inner

/-- The statement inside a shell differs in the branch where it is compiled, and finds the exit there
that the shell lets it find. -/
def Inside (aim : Aim) (at' : Span) (depth : Int) (kind : ExitKind) (label : Option String)
    (labels : List String) (outer : Scope) (frame : Frame) (shell : Shell) (left right : Stmt) : Prop :=
  ∀ around inner here, Content outer frame labels shell around inner →
    Scope.exit? kind label (inner :: around) = shell.exit? kind label labels (frame :: outer) →
    Compared aim.stops (aim.Split at' here depth) (stmt around inner here (shell.labels labels) left)
      (stmt around inner here (shell.labels labels) right)

def Outside (aim : Aim) (at' : Span) (here : Nat) (depth : Int) (labels : List String) (outer : Scope)
    (frame : Frame) (shell : Shell) (left right : Stmt) : Prop :=
  Compared aim.stops (aim.Split at' here (shell.depth + depth))
    (stmt outer frame here labels (shell.fill left)) (stmt outer frame here labels (shell.fill right))

theorem labeled_split {name : Ident}
    (inside : Inside aim at' depth kind label labels outer frame (.labeled name span) left right) :
    Outside aim at' here depth labels outer frame (.labeled name span) left right := by
  simp only [Outside, Shell.fill, stmt]
  rw [show ((Shell.labeled name span).depth : Int) + depth = depth by
    simp [Shell.depth, Shell.owned, Shell.enters]]
  refine inside outer frame here .labeled ?_
  simp [Shell.exit?, Shell.offers, Shell.depth, Shell.owned, Shell.enters]

theorem block_split {row : Row} (twins : left.Twins right)
    (inside : Inside aim at' depth kind label labels outer frame (.block row span) left right) :
    Outside aim at' here depth labels outer frame (.block row span) left right := by
  simp only [Outside, Shell.fill, stmt]
  rw [show ((Shell.block row span).depth : Int) = row.declares.toNat by
    simp [Shell.depth, Shell.owned, Shell.enters]]
  refine (block_apart twins fun inner here past => inside _ inner here (.block past) ?_).bind
    fun first second apart => .ok ⟨apart, rfl⟩
  simp [Scope.exit?_plain past.like, Shell.exit?, Shell.offers, Shell.depth, Shell.owned, Shell.enters]

theorem exit?_init {shell : Shell} {owned : Bool} (offers : shell.offers kind = false)
    (depth : shell.depth = owned.toNat) :
    Scope.exit? kind label (({ owned } : Frame) :: frame :: outer) =
      shell.exit? kind label labels (frame :: outer) := by
  simp [Scope.exit?_plain (.refl _), Shell.exit?, offers, depth]

theorem ifInit_split {cond : Expr} {thenBranch : Block} {elseBranch : Option Stmt}
    (twins : left.Twins right) (inside : Inside aim at' depth kind label labels outer frame
      (.ifInit cond thenBranch elseBranch span) left right) :
    Outside aim at' here depth labels outer frame (.ifInit cond thenBranch elseBranch span) left
      right := by
  simp only [Outside, Shell.fill, stmt, Option.any_some, twins.isDefine, twins.isDefine', initStmt]
  refine (inScope_apart ?_).bind fun first second apart => .ok ⟨apart, rfl⟩
  refine (inside _ _ _ .ifInit (exit?_init rfl rfl)).bind fun first second split => ?_
  rw [split.frame, show first.length = second.length from split.length_eq]
  exact .shared fun operand _ => .shared fun test _ => .shared fun rest _ =>
    .ok ⟨split.toApart.append_right _, rfl⟩

theorem ifThen_split {init : Option Stmt} {cond : Expr} {row : Row} {body : Span}
    {elseBranch : Option Stmt} (twins : left.Twins right)
    (excludes : (Shell.ifThen init cond row body elseBranch span).Excludes outer frame labels →
      aim.Possible → aim.drops)
    (inside : Inside aim at' depth kind label labels outer frame
      (.ifThen init cond row body elseBranch span) left right) :
    Outside aim at' here depth labels outer frame (.ifThen init cond row body elseBranch span) left
      right := by
  simp only [Outside, Shell.fill, stmt]
  rw [show ((Shell.ifThen init cond row body elseBranch span).depth : Int) + depth =
    (init.any Stmt.isDefine).toNat + (row.declares.toNat + depth) by
      simp only [Shell.depth, Shell.owned, Shell.enters]; omega]
  refine (inScope_apart ?_).bind fun first second apart => .ok ⟨apart, rfl⟩
  refine .shared fun first found => .shared fun operand isOperand => .shared fun test isTest => ?_
  refine (branches_then
    (fun never => excludes ⟨_, first, operand, found, isOperand, never ▸ isTest⟩) fun here =>
    block_apart twins fun inner here past => inside _ inner here (.ifThen found past) ?_).bind
      fun rest other apart => .ok ⟨.after (initStmt_balanced init found) apart, rfl⟩
  simp [Scope.exit?_plain_plain past.like (initStmt_like found), Shell.exit?, Shell.offers, Shell.depth,
    Shell.owned, Shell.enters]

theorem ifElse_split {init : Option Stmt} {cond : Expr} {thenBranch : Block} (twins : left.Twins right)
    (excludes : (Shell.ifElse init cond thenBranch span).Excludes outer frame labels →
      aim.Possible → aim.drops)
    (inside : Inside aim at' depth kind label labels outer frame (.ifElse init cond thenBranch span) left
      right) :
    Outside aim at' here depth labels outer frame (.ifElse init cond thenBranch span) left right := by
  simp only [Outside, Shell.fill, stmt, Option.isSome_some, if_true]
  refine (inScope_apart ?_).bind fun first second apart => .ok ⟨apart, rfl⟩
  refine .shared fun first found => .shared fun operand isOperand => .shared fun test isTest => ?_
  refine (branches_else
    (fun always => excludes ⟨_, first, operand, found, isOperand, always ▸ isTest⟩)
    (fun here part => block_balanced thenBranch) fun here => elseStmt_apart twins
      (fun here => inside _ _ here (.ifElse found) ?_) ?_).bind
        fun rest other apart => .ok ⟨.after (initStmt_balanced init found) apart, rfl⟩
  · simp [Scope.exit?_plain (initStmt_like found), Shell.exit?, Shell.offers, Shell.depth, Shell.owned,
      Shell.enters]
  · rintro _ here ⟨⟩
    refine inside _ _ here (.ifElseScoped found) ?_
    simp [Scope.exit?_plain_plain (.refl _) (initStmt_like found), Shell.exit?, Shell.offers,
      Shell.depth, Shell.owned, Shell.enters]

theorem forInit_split {cond : Option Expr} {post : Option Stmt} {body : Block}
    (twins : left.Twins right) (inside : Inside aim at' depth kind label labels outer frame
      (.forInit cond post body span) left right) :
    Outside aim at' here depth labels outer frame (.forInit cond post body span) left right := by
  simp only [Outside, Shell.fill, stmt, Option.any_some, twins.isDefine, twins.isDefine', initStmt]
  refine (inScope_apart ?_).bind fun first second apart => .ok ⟨apart, rfl⟩
  refine (inside _ _ _ .forInit (exit?_init rfl rfl)).bind fun first second split => ?_
  rw [split.frame, show first.length = second.length from split.length_eq]
  exact .shared fun test _ => .shared fun rest _ => .ok ⟨split.toApart.append_right _, rfl⟩

theorem switchInit_split {tag : Option Expr} {clauses : List CaseClause} (twins : left.Twins right)
    (inside : Inside aim at' depth kind label labels outer frame (.switchInit tag clauses span) left
      right) :
    Outside aim at' here depth labels outer frame (.switchInit tag clauses span) left right := by
  simp only [Outside, Shell.fill, stmt, Option.any_some, twins.isDefine, twins.isDefine', initStmt]
  refine (inScope_apart ?_).bind fun first second apart => .ok ⟨apart, rfl⟩
  refine (inside _ _ _ .switchInit (exit?_init rfl rfl)).bind fun first second split => ?_
  rw [split.frame, show first.length = second.length from split.length_eq]
  exact .shared fun tag _ => .shared fun type _ => .shared fun default _ => .shared fun cases _ =>
    .shared fun codes _ => .ok ⟨split.toApart.append_right _, rfl⟩

theorem typeSwitchInit_split {binding : Option Ident} {subject : Expr} {clauses : List CaseClause}
    (twins : left.Twins right) (inside : Inside aim at' depth kind label labels outer frame
      (.typeSwitchInit binding subject clauses span) left right) :
    Outside aim at' here depth labels outer frame (.typeSwitchInit binding subject clauses span) left
      right := by
  simp only [Outside, Shell.fill, stmt, Option.any_some, twins.isDefine, twins.isDefine', initStmt,
    Bool.false_or]
  refine (inScope_apart ?_).bind fun first second apart => .ok ⟨apart, rfl⟩
  refine (inside _ _ _ .typeSwitchInit (exit?_init rfl rfl)).bind fun first second split => ?_
  rw [split.frame, show first.length = second.length from split.length_eq]
  exact .shared fun operand _ => .shared fun code _ => .shared fun default _ => .shared fun types _ =>
    .shared fun codes _ => .ok ⟨split.toApart.append_right _, rfl⟩

/-- Where a statement goes on: a loop with its post statement and then its test, a range loop with its
next round. -/
def GoesOn (outer : Scope) (frame : Frame) (here : Nat) (labels : List String) (view : View)
    (breakTo continueTo : Nat) : Stmt → Prop
  | .forLoop init cond post _ span => ∃ first test,
    let owned := init.any Stmt.isDefine
    let inner := { first.frame with loop := some ⟨true, labels⟩ }
    initStmt (frame :: outer) { owned } (here + owned.toNat) init = .ok first ∧
    loopCond (inner :: frame :: outer) cond = .ok test ∧
    Cycle test (outer.length + 1) (here + owned.toNat + first.length) span
      (fun here => postStmt (frame :: outer) inner here post) view breakTo continueTo
  | .range _ _ _ subject _ span => ∃ operand type kind shape,
    expr (({ owned := true } : Frame) :: frame :: outer) subject = .ok operand ∧
    operand.type = .ok type ∧ rangeShape type span subject.span = .ok (kind, shape) ∧
    Rounds kind (here + 2) span view breakTo continueTo
  | _ => True

/-- The exits of a statement. A `break` leads to the end of its code, before the environment of its own
is popped, if it has one. -/
structure Layout (outer : Scope) (frame : Frame) (here : Nat) (labels : List String) (node : Stmt)
    (piece : Piece) (breakTo continueTo : Nat) : Prop where
  finish : breakTo + node.ownsEnv.toNat = here + piece.length
  pops : node.ownsEnv = true → ∃ span, View.of here piece.lines breakTo ⟨.pop, span⟩
  goesOn : GoesOn outer frame here labels (.of here piece.lines) breakTo continueTo node

def Closes (aim : Aim) (at' : Span) (here : Nat) (depth : Int) (labels : List String) (outer : Scope)
    (frame : Frame) (shell : Shell) (left right : Stmt) : Prop :=
  Compared aim.stops
    (aim.Turned at' (outer.length + 1) here (shell.depth + depth)
      (Layout outer frame here labels (shell.fill left)))
    (stmt outer frame here labels (shell.fill left)) (stmt outer frame here labels (shell.fill right))

def forLayout (outer : Scope) (frame : Frame) (here : Nat) (labels : List String) (init : Option Stmt)
    (cond : Option Expr) (post : Option Stmt) (span : Span) (before : Fragment) (piece : Piece)
    (breakTo continueTo : Nat) : Prop :=
  ∃ first test,
    let inner := { first.frame with loop := some ⟨true, labels⟩ }
    initStmt (frame :: outer) { owned := init.any Stmt.isDefine } here init = .ok first ∧
    before = first.toFragment ∧ loopCond (inner :: frame :: outer) cond = .ok test ∧
    loopLayout test (outer.length + 1) (here + before.length) span
      (fun here => postStmt (frame :: outer) inner here post) piece breakTo continueTo

theorem forLayout_placed {init post : Option Stmt} {cond : Option Expr} {body : Block}
    {before : Fragment} {piece : Piece} {breakTo continueTo : Nat}
    (laid : forLayout outer frame (here + (init.any Stmt.isDefine).toNat) labels init cond post span
      before piece breakTo continueTo) :
    Layout outer frame here labels (.forLoop init cond post body span)
      (placed (init.any Stmt.isDefine) span frame before piece) breakTo continueTo := by
  obtain ⟨first, test, found, rfl, isTest, finish, cycle⟩ := laid
  obtain ⟨ends, pops⟩ := placed_finish finish
  exact ⟨ends, fun isOwned => ⟨span, pops isOwned⟩, first, test, found, isTest,
    cycle.mono fun _ _ => placed_view⟩

theorem forBody_closes {init post : Option Stmt} {cond : Option Expr} {row : Row} {body : Span}
    (twins : left.Twins right)
    (excludes : (Shell.forBody init cond post row body span).Excludes outer frame labels →
      aim.Possible → aim.drops)
    (inside : Inside aim at' depth kind label labels outer frame
      (.forBody init cond post row body span) left right) :
    Closes aim at' here depth labels outer frame (.forBody init cond post row body span) left right := by
  simp only [Closes, Shell.fill, stmt]
  rw [show ((Shell.forBody init cond post row body span).depth : Int) + depth =
    (init.any Stmt.isDefine).toNat + (row.declares.toNat + depth) by
      simp only [Shell.depth, Shell.owned, Shell.enters]; omega]
  refine inScope_following ?_ fun before piece breakTo continueTo => forLayout_placed
  refine .shared fun first found => .shared fun test isTest => ?_
  have like := initStmt_like found
  refine (loop_body (fun never => excludes ⟨_, first, found, never ▸ isTest⟩) fun here =>
    block_apart twins fun inner here past => inside _ inner here (.forBody found past) ?_).bind
      fun rest other turned =>
        .ok ⟨first.toFragment, rest, other, initStmt_balanced init found, turned.imp ?_, rfl, rfl⟩
  · rw [Scope.exit?_plain_loop past.like (like.offer ⟨true, labels⟩)]
    simp [Shell.exit?, Shell.offers, Shell.depth, Shell.owned, Shell.enters]
  · exact fun breakTo continueTo laid => ⟨first, test, found, rfl, isTest, laid⟩

theorem forPost_closes {init : Option Stmt} {cond : Option Expr} {body : Block}
    (twins : left.Twins right)
    (excludes : (Shell.forPost init cond body span).Excludes outer frame labels →
      aim.Possible → aim.drops)
    (inside : Inside aim at' depth kind label labels outer frame (.forPost init cond body span) left
      right) :
    Closes aim at' here depth labels outer frame (.forPost init cond body span) left right := by
  simp only [Closes, Shell.fill, stmt]
  refine inScope_following ?_ fun before piece breakTo continueTo => forLayout_placed
  refine .shared fun first found => .shared fun test isTest => ?_
  have like := (initStmt_like found).offer ⟨true, labels⟩
  refine (loop_post (fun never => excludes ⟨_, first, found, never ▸ isTest⟩)
    (fun here part => block_balanced body) fun here => ?_).bind fun rest other turned =>
      .ok ⟨first.toFragment, rest, other, initStmt_balanced init found, turned.imp ?_, rfl, rfl⟩
  · simp only [postStmt, twins.isDefine, twins.isDefine', Bool.false_eq_true, if_false]
    refine inside _ _ here (.forPost found) ?_
    rw [Scope.exit?_loop like]
    simp [Shell.exit?, Shell.offers, Shell.depth, Shell.owned, Shell.enters]
  · exact fun breakTo continueTo laid => ⟨first, test, found, rfl, isTest, laid⟩

theorem rangeTarget_like {type : Ty} {isDefine : Bool} {target : Option Expr} {place : Option Place}
    {after : Frame} (compiled : rangeTarget outer frame type isDefine target = .ok (place, after)) :
    after.Like frame := by
  unfold rangeTarget at compiled
  split at compiled
  · cases compiled
    exact .refl _
  · split at compiled
    · split at compiled
      · cases compiled
      · simp only [Compiled.bind_eq_ok] at compiled
        obtain ⟨⟨slot, declared⟩, isDeclared, ends⟩ := compiled
        cases ends
        exact Frame.declareVar_like isDeclared
    · simp only [Compiled.bind_eq_ok] at compiled
      obtain ⟨found, -, -, -, ends⟩ := compiled
      split at ends <;> cases ends <;> exact .refl _

theorem rangeSlots_like (frame : Frame) (subject key : Ty) :
    (rangeSlots frame subject key).2.Like frame := by
  unfold rangeSlots
  have first := Frame.allocate_like frame subject
  have second := (Frame.allocate_like _ (.slice key)).trans first
  have third := (Frame.allocate_like _ .int).trans second
  have fourth := (Frame.allocate_like _ .int).trans third
  exact (Frame.allocate_like _ .int).trans fourth

theorem rangeBody_closes {key value : Option Expr} {define : Bool} {subject : Expr} {row : Row}
    {body : Span} (twins : left.Twins right) (inside : Inside aim at' depth kind label labels outer frame
      (.rangeBody key value define subject row body span) left right) :
    Closes aim at' here depth labels outer frame (.rangeBody key value define subject row body span) left
      right := by
  simp only [Closes, Shell.fill, stmt]
  rw [show ((Shell.rangeBody key value define subject row body span).depth : Int) + depth =
    true.toNat + (row.declares.toNat + depth) by
      simp only [Shell.depth, Shell.owned, Shell.enters]; omega]
  refine @inScope_following aim at' span here _ true frame _ (fun before piece breakTo continueTo =>
    before = {} ∧ ∃ operand type kind shape,
      expr (({ owned := true } : Frame) :: frame :: outer) subject = .ok operand ∧
      operand.type = .ok type ∧ rangeShape type span subject.span = .ok (kind, shape) ∧
      rangeLayout kind (here + 1) span piece breakTo continueTo) _ _ _ ?_ ?_
  · refine .shared fun operand isOperand => .shared fun type isType => .shared fun shape isShape => ?_
    obtain ⟨rangeKind, keyType, valueType⟩ := shape
    dsimp only
    split
    · exact .same _
    refine .shared fun keyTarget isKey => .shared fun valueTarget isValue => ?_
    have like := (((rangeSlots_like valueTarget.2 type keyType).trans (rangeTarget_like isValue)).trans
      (rangeTarget_like isKey)).offer ⟨true, labels⟩
    refine (block_apart twins fun inner here past => inside _ inner here
      (.rangeBody isOperand isType isShape isKey isValue rfl past) ?_).bind
        fun first second apart => .ok (.plain ((rangeLoop_turned apart).imp ?_))
    · rw [Scope.exit?_plain_loop past.like like]
      simp [Shell.exit?, Shell.offers, Shell.depth, Shell.owned, Shell.enters]
    · exact fun breakTo continueTo laid =>
        ⟨rfl, operand, type, rangeKind, _, isOperand, isType, isShape, laid⟩
  · rintro _ piece breakTo continueTo ⟨rfl, operand, type, kind, shape, isOperand, isType, isShape,
      finish,
      rounds⟩
    obtain ⟨ends, pops⟩ := @placed_finish span here true frame {} piece breakTo finish
    exact ⟨ends, fun isOwned => ⟨span, pops isOwned⟩, operand, type, kind, shape, isOperand, isType,
      isShape, rounds.mono fun _ _ => @placed_view span here true frame {} piece _ _⟩

theorem switchClause_closes {init : Option Stmt} {tag : Option Expr} {first last : List CaseClause}
    {list : Option (List Expr)} {row : Row} {clause : Span} (twins : left.Twins right)
    (inside : Inside aim at' depth kind label labels outer frame
      (.switchClause init tag first list row clause last span) left right) :
    Closes aim at' here depth labels outer frame
      (.switchClause init tag first list row clause last span) left right := by
  simp only [Closes, Shell.fill, stmt]
  rw [show ((Shell.switchClause init tag first list row clause last span).depth : Int) + depth =
    (init.any Stmt.isDefine).toNat + (row.declares.toNat + depth) by
      simp only [Shell.depth, Shell.owned, Shell.enters]; omega]
  refine @inScope_following aim at' span here _ _ frame _ (fun before piece breakTo continueTo =>
    choiceLayout (here + (init.any Stmt.isDefine).toNat + before.length) piece breakTo continueTo) _ _ _
    ?_ ?_
  · refine .shared fun start found => .shared fun tag _ => .shared fun type _ => ?_
    simp only [List.map_append, List.map_cons, CaseClause.list, CaseClause.span,
      switchCases_fill first (row.fill left) (row.fill right)]
    refine .shared fun default _ => .shared fun cases _ => ?_
    have like := (initStmt_like found).offer ⟨false, labels⟩
    refine (switchBodies_clauses twins fun inner here past => inside _ inner here
      (.switchClause found past) ?_).bind
        fun codes others clauses => .ok ⟨start.toFragment, _, _, initStmt_balanced init found,
          dispatched_turned clauses fun _ _ => rfl, rfl, rfl⟩
    rw [Scope.exit?_plain_loop past.like like]
    simp [Shell.exit?, Shell.offers, Shell.depth, Shell.owned, Shell.enters]
  · intro before piece breakTo continueTo finish
    obtain ⟨ends, pops⟩ := placed_finish finish
    exact ⟨ends, fun isOwned => ⟨span, pops isOwned⟩, trivial⟩

theorem parkSubject_like (frame : Frame) (binding : Option Ident) :
    (parkSubject frame binding).2.Like frame := by
  cases binding
  · exact .refl _
  · exact Frame.allocate_like frame .any

theorem parkSubject_isSome (frame : Frame) (binding : Option Ident) :
    (parkSubject frame binding).1.isSome = binding.isSome := by
  cases binding <;> rfl

theorem typeSwitchClause_closes {init : Option Stmt} {binding : Option Ident} {subject : Expr}
    {first last : List CaseClause} {list : Option (List Expr)} {row : Row} {clause : Span}
    (twins : left.Twins right) (inside : Inside aim at' depth kind label labels outer frame
      (.typeSwitchClause init binding subject first list row clause last span) left right) :
    Closes aim at' here depth labels outer frame
      (.typeSwitchClause init binding subject first list row clause last span) left right := by
  simp only [Closes, Shell.fill, stmt]
  generalize isOwned : (init.any Stmt.isDefine || (binding.filter (!·.isBlank)).isSome) = owned
  rw [show ((Shell.typeSwitchClause init binding subject first list row clause last span).depth : Int) +
    depth = owned.toNat + (((binding.filter (!·.isBlank)).isSome || row.declares).toNat + depth) by
      simp only [Shell.depth, Shell.owned, Shell.enters, isOwned]; omega]
  refine @inScope_following aim at' span here _ owned frame _ (fun before piece breakTo continueTo =>
    choiceLayout (here + owned.toNat + before.length) piece breakTo continueTo) _ _ _ ?_ ?_
  · refine .shared fun start found => .shared fun operand _ => .shared fun code _ => ?_
    simp only [List.map_append, List.map_cons, CaseClause.list, CaseClause.span,
      clauseTypes_fill first (row.fill left) (row.fill right)]
    refine .shared fun default _ => .shared fun types isTypes => ?_
    rw [clauseTypes_fill first (row.fill right) (row.fill (.empty {}))] at isTypes
    have like := (parkSubject_like _ (binding.filter (!·.isBlank))).trans
      ((initStmt_like found).offer ⟨false, labels⟩)
    have parks := parkSubject_isSome { start.frame with loop := some ⟨false, labels⟩ }
      (binding.filter (!·.isBlank))
    rw [← parks]
    refine (typeSwitchBodies_clauses twins fun begun starts inner here past => inside _ inner here
      (.typeSwitchClause (isOwned ▸ found) isTypes rfl starts past) ?_).bind
        fun codes others clauses => .ok ⟨start.toFragment, _, _, initStmt_balanced init found,
          dispatched_turned clauses fun _ _ => rfl, rfl, rfl⟩
    rw [Scope.exit?_plain_loop (past.like.trans starts.like) like, parks]
    simp only [Shell.exit?, Shell.offers, Shell.depth, Shell.owned, Shell.enters, isOwned, Bool.or_false]
  · intro before piece breakTo continueTo finish
    obtain ⟨ends, pops⟩ := placed_finish finish
    refine ⟨?_, fun has => ⟨span, pops ?_⟩, trivial⟩
    · rw [Stmt.ownsEnv, isOwned]
      exact ends
    · rwa [Stmt.ownsEnv, isOwned] at has

theorem parkReceived_like (frame : Frame) (receives : Bool) :
    (parkReceived frame receives).2.Like frame := by
  cases receives
  · exact .refl _
  · exact (Frame.allocate_like _ .bool).trans (Frame.allocate_like frame .any)

theorem parkReceived_isSome (frame : Frame) (receives : Bool) :
    (parkReceived frame receives).1.isSome = receives := by
  cases receives <;> rfl

theorem stmt_select (clauses : List CommClause) :
    stmt outer frame here labels (.select clauses span) =
      (defaultClause .select (clauses.map fun clause => (clause.comm.isNone, clause.span)) >>=
        fun default =>
        inScope (clauses.any CommClause.takes) span here (fun inner here =>
          let inner := { inner with loop := some ⟨false, labels⟩ }
          selectComms (inner :: frame :: outer) clauses >>= fun comms =>
            let parking := parkReceived inner (clauses.any CommClause.takes)
            selectBodies (parking.2 :: frame :: outer) parking.1 (comms.map (·.map (·.2))) (here + 1)
              clauses >>= fun codes =>
                pure ((dispatched (outer.length + 1) here span codes fun starts _ =>
                  .select (selectTargets comms starts) (default.bind (starts[·]?))
                    parking.1).within parking.2)) >>= fun fragment => pure (fragment.within frame)) := by
  simp only [stmt]
  rfl

theorem selectClause_closes {first last : List CommClause} {comm' : Option Stmt} {row : Row}
    {clause : Span} (twins : left.Twins right) (inside : Inside aim at' depth kind label labels outer
      frame (.selectClause first comm' row clause last span) left right) :
    Closes aim at' here depth labels outer frame (.selectClause first comm' row clause last span) left
      right := by
  generalize isOwned : (Shell.selectClause first comm' row clause last span).owned = owned
  have receiving (body : List Stmt) :
      (first ++ .mk comm' body clause :: last).any CommClause.takes = owned := by
    rw [← isOwned, List.any_append, List.any_cons, Shell.owned, List.any_append, List.any_cons]
    rfl
  simp only [Closes, Shell.fill, stmt_select, receiving]
  rw [show ((Shell.selectClause first comm' row clause last span).depth : Int) + depth =
    owned.toNat + ((Shell.selectClause first comm' row clause last span).enters.toNat + depth) by
      rw [Shell.depth, isOwned]; omega]
  simp only [List.map_append, List.map_cons, CommClause.comm, CommClause.span]
  refine .shared fun default _ => ?_
  refine @inScope_following aim at' span here _ owned frame _ (fun before piece breakTo continueTo =>
    choiceLayout (here + owned.toNat + before.length) piece breakTo continueTo) _ _ _ ?_ ?_
  · simp only [selectComms_fill first (row.fill left) (row.fill right)]
    refine .shared fun comms found => ?_
    have isComms := found
    rw [selectComms_fill first (row.fill right) (row.fill (.empty {}))] at isComms
    have like := (parkReceived_like { owned, loop := some ⟨false, labels⟩ } owned).trans (.refl _)
    have opens : selectEnters row (comms.map (·.map (·.2)))[first.length]?.join
        (parkReceived { owned, loop := some ⟨false, labels⟩ } owned).1 =
          (Shell.selectClause first comm' row clause last span).enters := by
      obtain ⟨rfl, isNone⟩ | ⟨node, received, rfl, isComm, isSome⟩ := selectComms_get found
      · simp [isNone, selectEnters, Shell.enters]
      · have entered := @comm_enters clause _ node received row
          (parkReceived { owned, loop := some ⟨false, labels⟩ } owned).1 [] isComm fun takes => by
            rw [parkReceived_isSome, ← receiving [], List.any_append, List.any_cons, takes]
            simp
        rw [List.getElem?_map, isSome]
        exact entered
    refine (selectBodies_clauses twins opens fun start starts inner here past => inside _ inner here
      (.selectClause isOwned isComms rfl starts past) ?_).bind
        fun codes others clauses => .ok (.plain (dispatched_turned clauses fun _ _ => rfl))
    rw [Scope.exit?_plain_loop (opens ▸ past.like.trans starts.like) like]
    simp only [Shell.exit?, Shell.offers, Shell.depth, isOwned, Bool.or_false]
  · intro before piece breakTo continueTo finish
    obtain ⟨ends, pops⟩ := placed_finish finish
    refine ⟨?_, fun has => ⟨span, pops ?_⟩, trivial⟩
    · rw [Stmt.ownsEnv, receiving]
      exact ends
    · rwa [Stmt.ownsEnv, receiving] at has

end Shells

end Compile

end MiniGo
