import MiniGo.Proofs.Clauses
/-!
Type switches. The subject is evaluated once, and its value alone decides which clause is run: the first
in source order that lists a type of the value, or else the default clause, or none. A clause that binds
the subject has a variable of its own in a new block, which reads back as the value.
-/

namespace MiniGo

/-- The value is of a type that a clause lists, where none stands for `nil`. Of a channel only the type
of its elements counts. -/
inductive Value.Matches : Value → Option Ty → Prop
  | nil : Matches .nil none
  | any {value : Value} : value ≠ .nil → Matches value (some .any)
  | chan {elem : Ty} {channel : ChanRef} {direction : Direction} :
    Matches (.chan elem channel) (some (.chan direction elem))
  | type {value : Value} : Matches value (some value.dynamicType)

namespace Value

theorem isNil_iff {value : Value} : value.isNil = true ↔ value = .nil := by
  unfold isNil
  split
  · simp
  · rename_i differs
    simpa using differs

theorem matches_none {value : Value} : value.Matches none ↔ value.isNil = true := by
  rw [isNil_iff]
  constructor
  · rintro ⟨⟩
    rfl
  · rintro rfl
    exact .nil

theorem matches_some {value : Value} {type : Ty} :
    value.Matches (some type) ↔ value.hasType type = true := by
  constructor
  · rintro (_ | differs | _ | _)
    · simpa [hasType, ← isNil_iff] using differs
    · simp [hasType]
    · cases value with
      | const constant => cases constant <;> rfl
      | _ => simp [hasType, dynamicType, Signature.toTy]
  · intro passes
    cases type with
    | any => exact .any fun same => by simp [hasType, isNil_iff.mpr same] at passes
    | nil =>
      obtain rfl := isNil_iff.mp passes
      exact .type
    | chan direction elem =>
      cases value with
      | chan other channel =>
        obtain rfl : other = elem := by simpa [hasType] using passes
        exact .chan
      | _ => simp [hasType] at passes
    | _ =>
      have same := eq_of_beq passes
      exact same ▸ .type

theorem Matches.is {value : Value} {type : Ty} (isOf : value.Matches (some type)) :
    value.Is type := is_of_hasType (matches_some.mp isOf)

end Value

/-- The clause that a type switch runs for a value, given the types that each clause lists. -/
inductive Chooses (types : List (List (Option Ty))) (clauses : List CaseClause) (value : Value) :
    Option Nat → Prop
  | listed {index : Nat} {list : List (Option Ty)} {type : Option Ty} :
    types[index]? = some list → type ∈ list → value.Matches type →
    (∀ list ∈ types.take index, ∀ type ∈ list, ¬value.Matches type) →
    Chooses types clauses value (some index)
  | default {index : Nat} {clause : CaseClause} :
    (∀ list ∈ types, ∀ type ∈ list, ¬value.Matches type) →
    clauses[index]? = some clause → clause.list = none → Chooses types clauses value (some index)
  | none : (∀ list ∈ types, ∀ type ∈ list, ¬value.Matches type) →
    (∀ clause ∈ clauses, clause.list ≠ none) → Chooses types clauses value none

namespace Step

theorem findType_listed {value : Value} {fallback start : Nat} {list : List (Option Ty)}
    {type : Option Ty} (member : type ∈ list) (isOf : value.Matches type)
    (more : List (Option Ty × Nat)) :
    findType value fallback (list.map (·, start) ++ more) = start := by
  induction list with
  | nil => simp at member
  | cons first rest ih =>
    have later (differs : type ≠ first) := ih ((List.mem_cons.mp member).resolve_left differs)
    by_cases same : type = first
    · subst same
      cases type with
      | none => simp [findType, Value.matches_none.mp isOf]
      | some type => simp [findType, Value.matches_some.mp isOf]
    · cases first with
      | none => simp [findType, later same]
      | some other => simp [findType, later same]

theorem findType_unlisted {value : Value} {fallback start : Nat} {list : List (Option Ty)}
    (unlisted : ∀ type ∈ list, ¬value.Matches type) (more : List (Option Ty × Nat)) :
    findType value fallback (list.map (·, start) ++ more) = findType value fallback more := by
  induction list with
  | nil => rfl
  | cons first rest ih =>
    obtain ⟨differs, others⟩ := List.forall_mem_cons.mp unlisted
    cases first with
    | none => simpa [findType, ← Value.matches_none, differs] using ih others
    | some type => simpa [findType, ← Value.matches_some, differs] using ih others

theorem findType_tagged (value : Value) (fallback : Nat) {types : List (List (Option Ty))}
    {starts : List Nat} (length : types.length = starts.length) :
    (∃ (index : Nat) (list : List (Option Ty)) (type : Option Ty), types[index]? = some list ∧
        type ∈ list ∧ value.Matches type ∧
        (∀ list ∈ types.take index, ∀ type ∈ list, ¬value.Matches type) ∧
        starts[index]? = some (findType value fallback (tagged types starts))) ∨
      ((∀ list ∈ types, ∀ type ∈ list, ¬value.Matches type) ∧
        findType value fallback (tagged types starts) = fallback) := by
  induction types generalizing starts with
  | nil => exact .inr ⟨by simp, rfl⟩
  | cons list types ih =>
    obtain ⟨start, starts, rfl⟩ := List.exists_cons_of_length_eq_add_one length.symm
    simp only [tagged]
    by_cases listed : ∃ type ∈ list, value.Matches type
    · obtain ⟨type, member, isOf⟩ := listed
      exact .inl ⟨0, list, type, rfl, member, isOf, by simp,
        by simp [findType_listed member isOf]⟩
    · have unlisted : ∀ type ∈ list, ¬value.Matches type := by simpa using listed
      rw [findType_unlisted unlisted]
      obtain ⟨index, found, type, isList, member, isOf, before, isStart⟩ | ⟨never, otherwise⟩ :=
        ih (by simpa using length)
      · refine .inl ⟨index + 1, found, type, by simpa using isList, member, isOf, ?_,
          by simpa using isStart⟩
        exact List.forall_mem_cons.mpr ⟨unlisted, before⟩
      · exact .inr ⟨List.forall_mem_cons.mpr ⟨unlisted, never⟩, otherwise⟩

end Step

namespace Compile

theorem defaultClause_none {statement : ClauseStmt} {clauses : List (Bool × Span)}
    (compiled : defaultClause statement clauses = .ok none) : ∀ clause ∈ clauses, clause.1 = false := by
  have from_ {clauses : List (Bool × Span)} {start : Nat} {found : Option Nat}
      (compiled : defaultClause.go statement clauses start found = .ok none) :
      found = none ∧ ∀ clause ∈ clauses, clause.1 = false := by
    induction clauses generalizing start found with
    | nil => simpa [defaultClause.go] using compiled
    | cons clause clauses ih =>
      simp only [defaultClause.go] at compiled
      split at compiled
      · rename_i marked
        obtain ⟨none, others⟩ := ih compiled
        exact ⟨none, List.forall_mem_cons.mpr ⟨by simpa using marked, others⟩⟩
      · split at compiled
        · simp at compiled
        · obtain ⟨isNone, -⟩ := ih compiled
          simp at isNone
  exact (from_ compiled).2

structure TypeSwitch where
  owned : Bool
  init : Piece
  subject : Code
  default : Option Nat
  types : List (List (Option Ty))
  parked : Option (Ident × Slot)
  frame : Frame
  codes : List ClauseCode

namespace TypeSwitch

def dispatch (switch : TypeSwitch) (here : Nat) : Nat :=
  here + switch.owned.toNat + switch.init.length

def finish (switch : TypeSwitch) (here : Nat) : Nat :=
  ClauseCode.finish (switch.dispatch here + 1) switch.codes

structure Of (switch : TypeSwitch) (scope : Scope) (here : Nat) (labels : List String)
    (init : Option Stmt) (binding : Option Ident) (subject : Expr) (clauses : List CaseClause)
    (span : Span) (lines : List Line) : Prop where
  owned : switch.owned = (init.any Stmt.isDefine || (binding.filter (!·.isBlank)).isSome)
  init : initStmt scope { owned := switch.owned } (here + switch.owned.toNat) init = .ok switch.init
  subject : ∃ operand, expr ({ switch.init.frame with loop := some ⟨false, labels⟩ } :: scope) subject =
    .ok operand ∧ operand.interfaceCode subject.span = .ok switch.subject
  default : defaultClause .typeSwitch (clauses.map fun clause => (clause.list.isNone, clause.span)) =
    .ok switch.default
  types : clauseTypes ({ switch.init.frame with loop := some ⟨false, labels⟩ } :: scope) clauses =
    .ok switch.types
  parked : parkSubject { switch.init.frame with loop := some ⟨false, labels⟩ }
    (binding.filter (!·.isBlank)) = (switch.parked, switch.frame)
  codes : typeSwitchBodies (switch.frame :: scope) switch.parked (switch.types.map boundType)
    (switch.dispatch here + 1) clauses = .ok switch.codes
  bare : switch.owned = false → switch.frame.objects = 0 ∧ switch.frame.words = 0
  lines : lines = opening switch.owned span switch.frame ++ (switch.init.lines ++
    (⟨.typeSwitch switch.subject (tagged switch.types (switch.codes.map (·.start)))
        (fallback switch.default (switch.codes.map (·.start)) (switch.finish here))
        (switch.parked.map (·.2)), span⟩ ::
      (ClauseCode.join (switch.finish here) switch.codes).lines.map
        (·.close scope.length (switch.finish here) 0))) ++ closing switch.owned span

end TypeSwitch

theorem parkSubject_sealed {frame after : Frame} {binding : Option Ident}
    {parked : Option (Ident × Slot)} (taken : parkSubject frame binding = (parked, after)) :
    parked.map (·.1) = binding ∧ ∀ level : Level, level.frame = frame →
      ∃ final : Level, final.frame = after ∧ level.Grows final ∧
        ∀ ident slot, parked = some (ident, slot) → slot ∈ final.sealed ∧ slot.slotClass = .object := by
  cases binding with
  | none =>
    simp only [parkSubject, Prod.mk.injEq] at taken
    obtain ⟨rfl, rfl⟩ := taken
    exact ⟨rfl, fun level same => ⟨level, same, .refl level, by simp⟩⟩
  | some ident =>
    simp only [parkSubject, Prod.mk.injEq] at taken
    obtain ⟨rfl, rfl⟩ := taken
    refine ⟨rfl, fun level same => ?_⟩
    subst same
    obtain ⟨final, finalFrame, grows, isSealed⟩ := level.exists_sealed .any
    refine ⟨final, finalFrame, grows, fun ident slot same => ?_⟩
    obtain ⟨-, rfl⟩ := Prod.mk.inj (Option.some.inj same)
    exact ⟨isSealed, rfl⟩

theorem typeSwitchBodies_get {scope : Scope} {parked : Option (Ident × Slot)} {types : List Ty}
    {here : Nat} {clauses : List CaseClause} {codes : List ClauseCode}
    (compiled : typeSwitchBodies scope parked types here clauses = .ok codes) :
    codes.length = clauses.length ∧ ∀ (index : Nat) list body span,
      clauses[index]? = some (.mk list body span) → ∃ code, codes[index]? = some code ∧
        code.fallsThrough = false ∧
        typeSwitchBody scope parked (types[index]?.getD .any) code.start span body = .ok code.body := by
  induction clauses generalizing here codes types with
  | nil =>
    simp only [typeSwitchBodies, Compiled.pure_eq_ok] at compiled
    simp [← compiled]
  | cons clause rest ih =>
    obtain ⟨list, statements, span⟩ := clause
    rw [typeSwitchBodies_cons] at compiled
    split at compiled
    · cases compiled
    simp only [Compiled.bind_eq_ok, Compiled.pure_eq_ok] at compiled
    obtain ⟨body, compiledBody, others, compiledOthers, rfl⟩ := compiled
    obtain ⟨length, each⟩ := ih compiledOthers
    refine ⟨by simp [length], fun index => ?_⟩
    cases index with
    | zero =>
      rintro _ _ _ ⟨⟩
      exact ⟨_, rfl, rfl, by cases types <;> exact compiledBody⟩
    | succ index =>
      intro list statements span found
      obtain ⟨code, isCode, ends, compiledCode⟩ := each index list statements span (by simpa using found)
      exact ⟨code, by simpa using isCode, ends, by cases types <;> simpa using compiledCode⟩

/-- The variable of a clause: its slot, and the statements that are compiled with it in scope. -/
structure Variable (scope : Scope) (ident : Ident) (type : Ty) (here : Nat) (statements : List Stmt)
    (slot : Slot) (grown : Frame) (body : Piece) : Prop where
  declared : Frame.declareVar { owned := true } ident.name type ident.span = .ok (some slot, grown)
  visible : Scope.lookup (grown :: scope) ident.name = some (0, .var slot)
  type : slot.type = type
  body : stmts scope grown here false statements = .ok body

theorem typeSwitchBody_binds {scope : Scope} {ident : Ident} {subject : Slot} {type : Ty} {here : Nat}
    {span : Span} {statements : List Stmt} {code : Fragment} (named : ident.isBlank = false)
    (compiled : typeSwitchBody scope (some (ident, subject)) type here span statements = .ok code) :
    ∃ slot grown body, Variable scope ident type (here + 2) statements slot grown body ∧
      code.lines = ⟨.push body.frame.objects body.frame.words, span⟩ ::
        ⟨.adopt [(subject, slot)], span⟩ :: body.lines ++ [⟨.pop, span⟩] := by
  simp only [typeSwitchBody] at compiled
  obtain ⟨piece, content, lines, -⟩ := inScope_wrapped compiled
  simp only [Compiled.bind_eq_ok, Prod.exists, Compiled.pure_eq_ok] at content
  obtain ⟨slot, grown, declared, body, compiledBody, rfl⟩ := content
  have named' : (ident.name == "_") = false := named
  have more := declared
  simp only [Frame.declareVar, named', Bool.false_eq_true, if_false] at more
  split at more
  · simp at more
  simp only [Compiled.pure_eq_ok, Prod.mk.injEq] at more
  obtain ⟨rfl, isGrown⟩ := more
  refine ⟨_, grown, body, ⟨declared, ?_, (Frame.declareVar_declares declared).2 _ rfl, ?_⟩, ?_⟩
  · simp [Scope.lookup, Scope.declared?, Frame.symbol?, ← isGrown]
  · exact compiledBody
  · simpa [opening, closing] using lines

namespace TypeSwitch

section Sights

variable (switch : TypeSwitch) (scope : Scope) (clauses : List CaseClause)

/-- The clause at an index is run for a value. One that binds the subject has a variable of the type that
it lists, or of any type if it does not list just one, and the variable has the value. -/
def RunsClause (inner : EnvRef) (value : Value) (goes : Sight) (leads : Nat → ExitKind → Sight)
    (index : Nat) : Sight :=
  fun moments halt => ∃ list body span types code, clauses[index]? = some (.mk list body span) ∧
    switch.types[index]? = some types ∧ switch.codes[index]? = some code ∧
    typeSwitchBody (switch.frame :: scope) switch.parked (boundType types) code.start span body =
      .ok code.body ∧
    match switch.parked with
    | none => Passes inner code.start (code.start + code.body.length) (fun _ => True) (fun _ => goes)
        (Leaving code.start code.body.lines leads) moments halt
    | some (ident, _) => ∃ slot grown inside,
        Variable (switch.frame :: scope) ident (boundType types) (code.start + 2) body slot grown
          inside ∧
        MiniGo.Binds inner code.start (code.start + code.body.length) [(slot, value)] goes
          (Leaving code.start code.body.lines leads) moments halt

/-- The value of the subject has been found, and the clause for it is run, if there is one. -/
def RunsFor (inner : EnvRef) (value : Value) (goes : Sight) (leads : Nat → ExitKind → Sight) : Sight :=
  fun moments halt => ∃ choice, Chooses switch.types clauses value choice ∧
    choice.elim goes (switch.RunsClause scope clauses inner value goes leads) moments halt

def Shows (host : Host) (others : World → World → Prop) (targets : Targets) (here stop : Nat)
    (env : EnvRef) : Sight :=
  Opens switch.owned env here fun inner =>
    Passes inner (here + switch.owned.toNat) (switch.dispatch here) (fun _ => True)
      (Works others inner (fun fuel => eval (Machine.call host fuel) inner switch.subject)
        fun _ value => switch.RunsFor scope clauses inner value
          (Resumes switch.owned env inner (switch.finish here) stop)
          (Breaks targets scope.length (Resumes switch.owned env inner (switch.finish here) stop)))
      (Leaving (here + switch.owned.toNat) switch.init.lines (Exited targets scope.length))

def parts (here position : Nat) : Bool :=
  here + switch.owned.toNat ≤ position && position < switch.finish here &&
    position != switch.dispatch here

end Sights

section Of

variable {switch : TypeSwitch} {scope : Scope} {here : Nat} {labels : List String}
  {init : Option Stmt} {binding : Option Ident} {subject : Expr} {clauses : List CaseClause}
  {span : Span} {lines : List Line}

theorem clauseTypes_length {types : List (List (Option Ty))}
    (compiled : clauseTypes scope clauses = .ok types) : types.length = clauses.length := by
  induction clauses generalizing types with
  | nil =>
    simp only [clauseTypes, Compiled.pure_eq_ok] at compiled
    simp [← compiled]
  | cons clause clauses ih =>
    simp only [clauseTypes, Compiled.bind_eq_ok, Compiled.pure_eq_ok] at compiled
    obtain ⟨list, -, others, compiledOthers, rfl⟩ := compiled
    simp [ih compiledOthers]

theorem Of.chooses
    (isSwitch : switch.Of scope here labels init binding subject clauses span lines) (value : Value) :
    ∃ choice, Chooses switch.types clauses value choice ∧
      ∃ position, Step.findType value
          (fallback switch.default (switch.codes.map (·.start)) (switch.finish here))
          (tagged switch.types (switch.codes.map (·.start))) = position ∧
        ((choice = none ∧ position = switch.finish here) ∨
          ∃ index code, choice = some index ∧ switch.codes[index]? = some code ∧
            position = code.start) := by
  have many := (typeSwitchBodies_get isSwitch.codes).1
  have length : switch.types.length = (switch.codes.map (·.start)).length := by
    rw [clauseTypes_length isSwitch.types, List.length_map, many]
  obtain ⟨index, list, type, isList, member, isOf, before, isStart⟩ | ⟨never, otherwise⟩ :=
    Step.findType_tagged value
      (fallback switch.default (switch.codes.map (·.start)) (switch.finish here)) length
  · rw [List.getElem?_map, Option.map_eq_some_iff] at isStart
    obtain ⟨code, isCode, same⟩ := isStart
    exact ⟨some index, .listed isList member isOf before, _, same.symm,
      .inr ⟨index, code, rfl, isCode, rfl⟩⟩
  · have compiledDefault := isSwitch.default
    rw [otherwise]
    cases isDefault : switch.default with
    | none =>
      rw [isDefault] at compiledDefault
      refine ⟨none, .none never fun clause member isNone => ?_, _, rfl, .inl ⟨rfl, ?_⟩⟩
      · have marked := defaultClause_none compiledDefault _ (List.mem_map_of_mem member)
        simp [isNone] at marked
      · simp [fallback]
    | some index =>
      rw [isDefault] at compiledDefault
      obtain ⟨clauseSpan, marked⟩ := defaultClause_default compiledDefault
      rw [List.getElem?_map, Option.map_eq_some_iff] at marked
      obtain ⟨clause, isClause, isNone⟩ := marked
      have inside : index < switch.codes.length :=
        many ▸ (List.getElem?_eq_some_iff.mp isClause).1
      refine ⟨some index, .default never isClause (by simpa using (Prod.mk.inj isNone).1), _, rfl,
        .inr ⟨index, switch.codes[index], rfl, List.getElem?_eq_getElem inside, ?_⟩⟩
      simp [fallback, inside]

theorem Of.dispatch_lt
    (isSwitch : switch.Of scope here labels init binding subject clauses span lines) :
    switch.dispatch here < switch.finish here := by
  have row := (typeSwitchBodies_row isSwitch.codes).finish_eq 0
  unfold finish
  omega

theorem Of.named
    (isSwitch : switch.Of scope here labels init binding subject clauses span lines) {ident : Ident}
    {slot : Slot} (isParked : switch.parked = some (ident, slot)) : ident.isBlank = false := by
  obtain ⟨bound, -⟩ := parkSubject_sealed isSwitch.parked
  rw [isParked, Option.map_some, eq_comm, Option.filter_eq_some_iff] at bound
  simpa using bound.2

theorem Of.is_boundType
    (isSwitch : switch.Of scope here labels init binding subject clauses span lines) {value : Value}
    {index : Nat} {list : List (Option Ty)} (chooses : Chooses switch.types clauses value (some index))
    (isList : switch.types[index]? = some list) : value.Is (boundType list) := by
  cases chooses with
  | listed found member isOf _ =>
    obtain rfl := Option.some.inj (found.symm.trans isList)
    rcases boundType_known member with isAny | rfl
    · exact isAny ▸ value.is_any
    · exact isOf.is
  | default _ isClause isNone =>
    have empty := clauseTypes_get isSwitch.types isClause isNone
    obtain rfl := Option.some.inj (empty.symm.trans isList)
    exact value.is_any

theorem properIf_clause {strict : Prop} {index : Nat} {list : Option (List Expr)} {body : List Stmt}
    {clauseSpan : Span} (proper : ProperIf strict (CaseClause.headsOf clauses))
    (found : clauses[index]? = some (.mk list body clauseSpan)) :
    ProperIf strict (Stmt.headsOf body) := by
  induction clauses generalizing index with
  | nil => simp at found
  | cons clause rest ih =>
    obtain ⟨first, statements, _⟩ := clause
    have parts : ProperIf strict (Stmt.headsOf statements) ∧
        ProperIf strict (CaseClause.headsOf rest) := by
      cases first <;> simp only [CaseClause.headsOf, properIf_append] at proper
      · exact proper
      · exact ⟨proper.1.2, proper.2⟩
    cases index with
    | zero =>
      obtain ⟨-, rfl, -⟩ : first = list ∧ statements = body ∧ _ := by simpa using found
      exact parts.1
    | succ index => exact ih parts.2 (by simpa using found)

variable [Natives] {strict : Prop} {observer : Observer} {course : Course strict}
  {start now : Config strict} {floor fuel : Nat} {inner : EnvRef} {blocks : List EnvRef}
  {targets : Targets} {ctx : Ctx strict} {out : Nat → ExitKind → List Layer → Prop}
  {goes : Sight} {leads : Nat → ExitKind → Sight} {layer : Layer} {rest : List Layer} {value : Value}
  {index : Nat} {code : ClauseCode}

theorem Of.runsClause
    (isSwitch : switch.Of scope here labels init binding subject clauses span lines)
    (proper : ProperIf strict (CaseClause.headsOf clauses))
    (isScope : ctx.scope = switch.frame :: scope)
    (among : observer.Among course ctx out targets start floor inner blocks (switch.finish here) goes
      leads)
    (carries : course.program.Carries targets (switch.dispatch here + 1)
      (ClauseCode.join (switch.finish here) switch.codes).lines)
    (busy : course.Busy start observer.task floor inner blocks (layer :: rest) now)
    (serves : Serves (layer :: rest) ctx.layers)
    (held : ∀ ident slot, switch.parked = some (ident, slot) → (slot, value) ∈ layer.held)
    (known : value.Known now.shape) (chooses : Chooses switch.types clauses value (some index))
    (isCode : switch.codes[index]? = some code) (quiet : now.Quiet observer.task)
    (ip : now.world.ip inner = code.start) :
    observer.Sees fuel inner (now.world.instr? inner) now
      (switch.RunsClause scope clauses inner value goes leads index) := by
  obtain ⟨many, each⟩ := typeSwitchBodies_get isSwitch.codes
  have inside : index < clauses.length := many ▸ (List.getElem?_eq_some_iff.mp isCode).1
  obtain ⟨⟨list, body, clauseSpan⟩, isClause⟩ : ∃ clause, clauses[index]? = some clause :=
    ⟨_, List.getElem?_eq_getElem inside⟩
  obtain ⟨types, isTypes⟩ : ∃ types, switch.types[index]? = some types :=
    ⟨_, List.getElem?_eq_getElem (clauseTypes_length isSwitch.types ▸ inside)⟩
  obtain ⟨code', isCode', ends, compiled⟩ := each index list body clauseSpan isClause
  obtain rfl : code = code' := Option.some.inj (isCode.symm.trans isCode')
  rw [List.getElem?_map, isTypes, Option.map_some, Option.getD_some] at compiled
  obtain ⟨isBody, isJump⟩ := (typeSwitchBodies_row isSwitch.codes).get carries isCode
  simp only [ends, Bool.false_eq_true, if_false] at isJump
  have properBody := properIf_clause proper isClause
  have sees : observer.Sees fuel inner (now.world.instr? inner) now fun moments halt =>
      match switch.parked with
      | none => Passes inner code.start (code.start + code.body.length) (fun _ => True)
          (fun _ => goes) (Leaving code.start code.body.lines leads) moments halt
      | some (ident, _) => ∃ slot grown inside,
          Variable (switch.frame :: scope) ident (boundType types) (code.start + 2) body slot grown
            inside ∧
          MiniGo.Binds inner code.start (code.start + code.body.length) [(slot, value)] goes
            (Leaving code.start code.body.lines leads) moments halt := by
    cases isParked : switch.parked with
    | none =>
      rw [isParked] at compiled
      refine among.plains (fun base deep => ?_) isBody isJump busy serves quiet ip
      exact scopedStmts_runs properBody (among.around.rebase deep) (isScope ▸ compiled)
    | some pair =>
      obtain ⟨ident, source⟩ := pair
      rw [isParked] at compiled
      obtain ⟨slot, grown, inside, isVariable, isLines⟩ :=
        typeSwitchBody_binds (isSwitch.named isParked) compiled
      obtain ⟨declares, -⟩ := Frame.declareVar_declares isVariable.declared
      have is : value.Is slot.type := isVariable.type ▸ isSwitch.is_boundType chooses isTypes
      have kept : slot.kept value = value := declares.kept (.head _) is
      have length : code.start + code.body.length = code.start + inside.lines.length + 3 := by
        rw [Fragment.length_lines, isLines]
        simp only [List.length_append, List.length_cons, List.length_nil]
        omega
      have declaring : Declaring strict ctx.scope grown (code.start + 2) inside fun finals =>
          StmtsSites ctx.scope grown finals false body :=
        stmts_extends body properBody _ _ _ inside ((Declarable.empty ctx.sound true).after declares)
          (isScope ▸ isVariable.body)
      rw [isLines] at isBody ⊢
      rw [length] at isJump ⊢
      refine (among.binds [(source, slot, value)] declares (by simp) declaring isBody isJump busy serves
        ?_ quiet ip).mono fun moments halt seen => ⟨slot, grown, inside, isVariable, ?_⟩
      · simp only [List.mem_singleton, forall_eq]
        exact ⟨held ident source isParked, known, fun _ => is⟩
      · simpa only [List.map_cons, List.map_nil, kept] using seen
  exact sees.mono fun moments halt seen =>
    ⟨list, body, clauseSpan, types, code, isClause, isTypes, isCode, compiled, seen⟩

omit [Natives] in
theorem Of.carries {program : Program}
    (isSwitch : switch.Of scope here labels init binding subject clauses span lines)
    (carries : program.Carries targets here lines) :
    program.Carries targets here (opening switch.owned span switch.frame) ∧
      program.Carries targets (here + switch.owned.toNat) switch.init.lines ∧
      program.instr? (switch.dispatch here) =
        some (.typeSwitch switch.subject (tagged switch.types (switch.codes.map (·.start)))
          (fallback switch.default (switch.codes.map (·.start)) (switch.finish here))
          (switch.parked.map (·.2))) ∧
      program.Carries (targets.closing scope.length (switch.finish here) 0) (switch.dispatch here + 1)
        (ClauseCode.join (switch.finish here) switch.codes).lines ∧
      program.Carries targets (switch.finish here) (closing switch.owned span) ∧
      switch.finish here + switch.owned.toNat = here + lines.length := by
  have finish : switch.finish here = here + switch.owned.toNat + switch.init.lines.length + 1 +
      (ClauseCode.join (switch.finish here) switch.codes).lines.length :=
    (typeSwitchBodies_row isSwitch.codes).finish_eq (switch.finish here)
  have closed : (closing switch.owned span).length = switch.owned.toNat := by
    cases switch.owned <;> rfl
  rw [isSwitch.lines] at carries ⊢
  have within := carries.left.right
  rw [opening_length] at within
  refine ⟨carries.left.left, within.left, within.right.head, within.right.tail.opened, ?_, ?_⟩
  · have last := carries.right
    rwa [show here + _ = switch.finish here by
      simp only [List.length_append, List.length_cons, List.length_map, opening_length]
      omega] at last
  · simp only [List.length_append, List.length_cons, List.length_map, opening_length, closed]
    omega

theorem parks
    (isSealed : ∀ ident slot, switch.parked = some (ident, slot) →
      slot.slotClass = .object ∧
        ∃ layer : Layer, ctx.layers[0]? = some layer ∧ slot ∈ layer.level.sealed)
    (plain : ∀ layer ∈ ctx.layers, layer.parked = [] ∧ layer.held = [])
    (busy : course.Busy start observer.task floor inner blocks ctx.layers now)
    (quiet : now.Quiet observer.task) (known : value.Known now.shape) :
    ∃ (later : Config strict) (layer : Layer) (rest : List Layer),
      (∀ next : Run Next, (match switch.parked.map Prod.snd with
        | some slot => Run.store inner slot value >>= fun _ => next
        | none => next) now.world = next later.world) ∧
      now.Advances observer.task later ∧ later.Quiet observer.task ∧
      course.Busy start observer.task floor inner blocks (layer :: rest) later ∧
      Serves (layer :: rest) ctx.layers ∧
      (∀ ident slot, switch.parked = some (ident, slot) → (slot, value) ∈ layer.held) ∧
      value.Known later.shape := by
  obtain ⟨-, top, others, -, -, isLayers, -⟩ := busy.within.innermost
  rw [isLayers] at busy isSealed plain ⊢
  cases isParked : switch.parked with
  | none =>
    exact ⟨now, top, others, fun _ => rfl, .refl _ _, quiet, busy, Serves.refl _, by simp, known⟩
  | some pair =>
    obtain ⟨ident, slot⟩ := pair
    obtain ⟨isObject, layer, isTop, isSealed⟩ := isSealed ident slot isParked
    obtain rfl : top = layer := by simpa using isTop
    obtain ⟨later, world, advances, quiets, busy, shape, -⟩ := busy.seals value isSealed
    have kept : slot.kept value = value := by simp [Slot.kept, isObject]
    have stored : Run.store inner slot value now.world = .done () later.world := by
      rw [world]
      rfl
    refine ⟨later, _, others, fun next => Run.bind_done stored _, advances, quiets quiet, busy,
      .cons ⟨rfl, fun _ member => member, fun _ member => member, ?_⟩ (Serves.refl _), ?_,
      shape ▸ known⟩
    · rw [(plain top (.head _)).2]
      exact List.nil_subset _
    · rintro _ _ ⟨⟩
      simp [kept]

theorem Of.runsFor {before again : Ctx strict}
    (isSwitch : switch.Of scope here labels init binding subject clauses span lines)
    (proper : ProperIf strict (CaseClause.headsOf clauses))
    (isScope : again.scope = switch.frame :: scope) (sameLayers : again.layers = before.layers)
    (among : observer.Among course again out targets start floor inner blocks (switch.finish here)
      goes leads)
    (carries : course.program.Carries targets (switch.dispatch here + 1)
      (ClauseCode.join (switch.finish here) switch.codes).lines)
    (isDispatch : course.program.instr? (switch.dispatch here) =
      some (.typeSwitch switch.subject (tagged switch.types (switch.codes.map (·.start)))
        (fallback switch.default (switch.codes.map (·.start)) (switch.finish here))
        (switch.parked.map (·.2))))
    (fits : CodeFits strict before switch.subject .any)
    (isSealed : ∀ ident slot, switch.parked = some (ident, slot) →
      slot.slotClass = .object ∧
        ∃ layer : Layer, before.layers[0]? = some layer ∧ slot ∈ layer.level.sealed)
    (busy : course.Busy start observer.task floor inner blocks before.layers now)
    (quiet : now.Quiet observer.task) (ip : now.world.ip inner = switch.dispatch here) :
    observer.Sees fuel inner (now.world.instr? inner) now
      (Comes inner (switch.dispatch here) (Works (Config.Others strict observer.task) inner
        (fun fuel => eval (Machine.call observer.host fuel) inner switch.subject)
        fun _ value => switch.RunsFor scope clauses inner value goes leads)) := by
  let spot : Spot strict := ⟨course, start, observer.task, floor, inner, blocks, before,
    switch.dispatch here⟩
  have poised : spot.Poised now := ⟨busy, quiet, ip⟩
  refine .runs (by rw [busy.within.instr?, ip, isDispatch]) ip fun less isLess => ?_
  refine @Observer.Leads.works _ _ _ _ _ _ spot _ _ _
    (fun fuel => eval (Machine.call observer.host fuel) inner switch.subject) rfl
    (eval_acts (Machine.watchedCall_safe .never among.host less).1 poised fits) ?_
  intro later value poised grows inhabits _
  obtain ⟨parking, layer, rest, parked, first, quiet, busy, serves, held, known⟩ :=
    parks isSealed (sameLayers ▸ among.plain) poised.busy poised.quiet inhabits.1
  obtain ⟨choice, chooses, position, found, starts⟩ := isSwitch.chooses value
  obtain ⟨last, gone, second, busy, quiet, shape, ip, -⟩ := busy.goto quiet position
  have ran := (parked _).trans (found.symm ▸ gone)
  refine Observer.Leads.done ran (first.trans second) ?_
  refine Observer.Sees.mono ?_ fun moments halt seen => ⟨choice, chooses, seen⟩
  obtain ⟨rfl, rfl⟩ | ⟨index, code, rfl, isCode, rfl⟩ := starts
  · exact among.closes less last _ busy quiet ip
  · exact isSwitch.runsClause proper isScope among carries busy (sameLayers ▸ serves) held
      (shape ▸ known) chooses isCode quiet ip

theorem Of.shows {env : EnvRef}
    (isSwitch : switch.Of ctx.scope here labels init binding subject clauses span lines)
    (proper : ProperIf strict (Stmt.typeSwitch init binding subject clauses span).heads)
    (enters : observer.Enters course ctx targets here lines start floor env blocks now) :
    observer.Sees fuel env (now.world.instr? env) now
      (switch.Shows ctx.scope clauses observer.host (Config.Others strict observer.task) targets here
        (here + lines.length) env) := by
  simp only [Stmt.heads, properIf_append] at proper
  obtain ⟨⟨properInit, properSubject⟩, properClauses⟩ := proper
  obtain ⟨operand, compiledSubject, isInterface⟩ := isSwitch.subject
  have declaring := initStmt_extends init properInit _ _ _ switch.init (.empty ctx.lasting.sound _)
    isSwitch.init
  obtain ⟨declares, -, -⟩ := parkSubject_level isSwitch.parked
  obtain ⟨bound, seals⟩ := parkSubject_sealed isSwitch.parked
  obtain ⟨level, levelFrame, owned, isSealed, inside⟩ :=
    @Declaring.entered _ _ _ _ ctx.lasting _ _ switch.frame _ (fun level => ∀ ident slot,
      switch.parked = some (ident, slot) → slot ∈ level.sealed ∧ slot.slotClass = .object) declaring
      enters.around_lasting fun level same => by
        obtain ⟨mid, midFrame, grows⟩ := level.exists_reframed
          { switch.init.frame with loop := some ⟨false, labels⟩ } (by rw [same]) (by rw [same])
          (by rw [same]) (by rw [same])
        obtain ⟨final, finalFrame, more, isSealed⟩ := seals mid midFrame
        exact ⟨final, finalFrame, grows.trans more, isSealed⟩
  obtain ⟨slots, first, firstScope, firstLayers, cost, serves, top, runs⟩ := inside isSwitch.bare
  let before : Ctx strict := first.reframe firstScope
    { switch.init.frame with loop := some ⟨false, labels⟩ } rfl rfl rfl rfl
  obtain ⟨again, againScope, againLayers⟩ := exists_clauses before rfl declares top
  obtain ⟨isOpening, isInit, isDispatch, isJoin, isClosing, isEnd⟩ := isSwitch.carries enters.carries
  rw [← levelFrame] at isOpening
  refine .opens owned isOpening enters.busy_lasting enters.quiet enters.ip ?_
  intro less isLess later inner sameEnv busy quiet ip
  have lastCost : switch.frame.cost = switch.init.frame.cost := by
    simp [Frame.cost, declares.owned]
  have plainInside := entering_plain level ctx.plain_lasting
  have sameLayers : again.layers = first.layers := againLayers
  have plain : ∀ layer ∈ again.layers, layer.parked = [] ∧ layer.held = [] := by
    rw [sameLayers, firstLayers]
    exact stored_plain slots plainInside
  have among := enters.among againScope declares.loop (declares.func.trans declaring.plain.2)
    (by rw [sameLayers, lastCost]; exact serves) plain sameEnv isClosing isEnd
  have depth := length_entering level ctx.lasting.layers
  obtain ⟨-, outer, rest, -, -, isLayers, -⟩ := busy.within.innermost
  have sealedTop : ∀ ident slot, switch.parked = some (ident, slot) → slot.slotClass = .object ∧
      ∃ layer : Layer, before.layers[0]? = some layer ∧ slot ∈ layer.level.sealed := by
    intro ident slot isParked
    obtain ⟨isSealed, isObject⟩ := isSealed ident slot isParked
    have isOwned : level.frame.owned = true := by
      rw [owned, isSwitch.owned, ← bound, isParked]
      simp
    refine ⟨isObject, { level, ready := slots ++ [] }, ?_, isSealed⟩
    show first.layers[0]? = _
    rw [firstLayers, entering, if_pos isOwned]
    rfl
  rw [isLayers] at busy firstLayers runs plainInside depth
  obtain ⟨opening, -, initRuns⟩ := runs rest.length (Nat.lt_succ_self _)
  refine Observer.Sees.passes enters.host initRuns isInit isDispatch busy (Serves.refl _)
    (List.forall_mem_cons.mp plainInside).2 (by simp [firstLayers, stored]) ?_ quiet ip trivial ?_ ?_
  · rintro _ _ given ⟨-, above, below⟩
    have lasting : ctx.lasting.layers.length = ctx.layers.length := by simp [Ctx.lasting]
    exact ⟨above, by simp only [List.length_cons] at depth; omega⟩
  · intro least _ final _ busyFinal quietFinal ipFinal
    have fits := (expr_sound subject properSubject before operand compiledSubject).interfaceCode
      isInterface
    have whole : first.layers.take 1 ++ rest = first.layers := by
      rw [firstLayers]
      rfl
    rw [whole] at busyFinal
    exact isSwitch.runsFor properClauses againScope againLayers among isJoin isDispatch fits sealedTop
      busyFinal quietFinal ipFinal
  · intro least _ final left given level kind exits _ _ _ ipLeft
    exact enters.exited exits.1 ipLeft

omit [Natives] in
theorem Of.runsFor_avoids
    (isSwitch : switch.Of scope here labels init binding subject clauses span lines)
    (ends : Avoids (switch.dispatch here) goes)
    (exits : ∀ level kind, Avoids (switch.dispatch here) (leads level kind)) :
    Avoids (switch.dispatch here) (switch.RunsFor scope clauses inner value goes leads) := by
  rintro moments halt ⟨_ | index, -, seen⟩
  · exact ends moments halt seen
  · obtain ⟨list, body, span, types, code, -, -, isCode, compiled, seen⟩ := seen
    obtain ⟨after, -⟩ := (typeSwitchBodies_row isSwitch.codes).bounds isCode
    cases isParked : switch.parked with
    | none =>
      rw [isParked] at seen
      exact Avoids.passes (.inl (by omega)) (Nat.le_add_right _ _) (fun _ => ends)
        (Avoids.leaving exits) moments halt seen
    | some pair =>
      rw [isParked] at seen compiled
      obtain ⟨slot, grown, inside, isVariable, seen⟩ := seen
      obtain ⟨_, _, _, -, lines⟩ := typeSwitchBody_binds (isSwitch.named isParked) compiled
      have length : 3 ≤ code.body.length := by
        rw [Fragment.length_lines, lines]
        simp
      exact Avoids.binds (by omega) (by omega) ends (Avoids.leaving exits) moments halt seen

omit [Natives] in
theorem Of.runsFor_few
    (isSwitch : switch.Of scope here labels init binding subject clauses span lines) {n : Nat}
    (ends : Few (switch.parts here) (n + 2) goes)
    (exits : ∀ level kind, Few (switch.parts here) (n + 2) (leads level kind)) :
    Few (switch.parts here) (n + 6) (switch.RunsFor scope clauses inner value goes leads) := by
  rintro moments halt ⟨_ | index, -, seen⟩
  · exact ends.mono (Nat.le_add_right _ 4) moments halt seen
  · obtain ⟨list, body, span, types, code, -, -, isCode, compiled, seen⟩ := seen
    obtain ⟨after, before⟩ := (typeSwitchBodies_row isSwitch.codes).bounds isCode
    have isInside (position : Nat) (above : code.start ≤ position)
        (below : position < code.start + code.body.length) : switch.parts here position = true := by
      have later : switch.dispatch here < position := by omega
      have begins : here + switch.owned.toNat ≤ switch.dispatch here := Nat.le_add_right _ _
      have sooner : position < switch.finish here := by
        simp only [ClauseCode.next] at before
        exact Nat.lt_of_lt_of_le (by omega) before
      simp only [parts, Bool.and_eq_true, decide_eq_true_eq, bne_iff_ne]
      omega
    have leaving (moment : Moment) : Few (switch.parts here) (n + 2)
        (Leaving code.start code.body.lines leads moment) := .leaving exits moment
    cases isParked : switch.parked with
    | none =>
      rw [isParked] at seen
      exact (Few.passes isInside (fun _ => ends) fun moment => (leaving moment).mono (Nat.le_succ _)).mono
        (by omega) moments halt seen
    | some pair =>
      rw [isParked] at seen
      obtain ⟨slot, grown, inside, -, seen⟩ := seen
      exact Few.binds isInside ends (fun moment => (leaving moment).mono (Nat.le_add_right _ 2)) moments
        halt seen

omit [Natives] in
theorem Of.once {host : Host} {others : World → World → Prop} {env : EnvRef} {stop : Nat}
    {moments : List Moment} {halt : Halt}
    (isSwitch : switch.Of scope here labels init binding subject clauses span lines)
    (leads : ∀ level kind, level < scope.length → targets level kind ≠ switch.dispatch here)
    (after : switch.finish here ≤ stop)
    (seen : switch.Shows scope clauses host others targets here stop env moments halt) :
    Once (switch.dispatch here) moments := by
  have later := isSwitch.dispatch_lt
  have begins : here + switch.owned.toNat ≤ switch.dispatch here := Nat.le_add_right _ _
  have resumes (inner : EnvRef) : Avoids (switch.dispatch here)
      (Resumes switch.owned env inner (switch.finish here) stop) := .resumes (by omega) (by omega)
  refine Opens.once (by omega) (fun inner moments halt seen => ?_) seen
  refine seen.stays.once (fun _ => Avoids.between (.inr (Nat.le_refl _))) ?_ ?_
  · intro moments halt seen
    refine seen.once fun world => .works (fun _ value => ?_) world
    exact isSwitch.runsFor_avoids (resumes inner) (.breaks leads (resumes inner))
  · intro moment moments halt seen
    exact (Avoids.leaving (Avoids.exited leads) moment).once seen

omit [Natives] in
theorem Of.few {host : Host} {others : World → World → Prop} {env : EnvRef} {stop : Nat}
    (isSwitch : switch.Of scope here labels init binding subject clauses span lines) :
    Few (switch.parts here) 8 (switch.Shows scope clauses host others targets here stop env) := by
  refine Few.opens fun inner => Few.passes (n := 6) (fun position above below => ?_)
    (Few.works fun _ value => ?_)
    (Few.leaving fun level kind => Few.exited.mono (by decide))
  · have later := isSwitch.dispatch_lt
    simp only [parts, Bool.and_eq_true, decide_eq_true_eq, bne_iff_ne]
    omega
  · exact isSwitch.runsFor_few (n := 0) .resumes (.breaks .resumes)

end Of

end TypeSwitch

section Result

variable [Natives] {strict : Prop} {outer : Scope} {frame : Frame} {here : Nat} {labels : List String}
  {init : Option Stmt} {binding : Option Ident} {subject : Expr} {clauses : List CaseClause}
  {span : Span} {piece : Piece}

end Result

end Compile

end MiniGo
