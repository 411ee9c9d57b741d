import MiniGo.Proofs.Blameless
import MiniGo.Proofs.Clauses
import MiniGo.Proofs.Readiness
import MiniGo.Proofs.Startup
/-!
Selects. The operands of all communications are evaluated first, one communication is performed, and its
clause alone is run: what has been received goes to the variables or the places of that clause. The
communications are numbered without the default clause, and their clauses with it.
-/

namespace MiniGo

theorem Runs.serves {strict : Prop} {base here : Nat} {out : Nat → ExitKind → List Layer → Prop}
    {sites : List Site} {entry exit : List Layer}
    (runs : Runs strict base out here [] sites entry exit) : Serves entry exit := by
  obtain ⟨positions, -, flows, enter⟩ := runs
  obtain rfl := List.length_eq_zero_iff.mp flows.length_eq
  obtain ⟨index, target, -, found, -⟩ | ⟨-, serves⟩ := enter
  · simp at found
  · exact serves

namespace Compile

structure Select where
  owned : Bool
  default : Option Nat
  comms : List (Option (Comm × Receive))
  parked : Option (Slot × Slot)
  frame : Frame
  codes : List ClauseCode

namespace Select

def dispatch (select : Select) (here : Nat) : Nat := here + select.owned.toNat

def finish (select : Select) (here : Nat) : Nat :=
  ClauseCode.finish (select.dispatch here + 1) select.codes

def targets (select : Select) : List (Comm × Nat) :=
  selectTargets select.comms (select.codes.map (·.start))

def instr (select : Select) : Instr :=
  .select select.targets (select.default.bind ((select.codes.map (·.start))[·]?)) select.parked

structure Of (select : Select) (scope : Scope) (here : Nat) (labels : List String)
    (clauses : List CommClause) (span : Span) (lines : List Line) : Prop where
  owned : select.owned = clauses.any CommClause.takes
  default : defaultClause .select (clauses.map fun clause => (clause.comm.isNone, clause.span)) =
    .ok select.default
  comms : selectComms ({ owned := select.owned, loop := some ⟨false, labels⟩ } :: scope) clauses =
    .ok select.comms
  parked : parkReceived { owned := select.owned, loop := some ⟨false, labels⟩ } select.owned =
    (select.parked, select.frame)
  codes : selectBodies (select.frame :: scope) select.parked (select.comms.map (·.map (·.2)))
    (select.dispatch here + 1) clauses = .ok select.codes
  bare : select.owned = false → select.frame.objects = 0 ∧ select.frame.words = 0
  lines : lines = opening select.owned span select.frame ++ (⟨select.instr, span⟩ ::
    (ClauseCode.join (select.finish here) select.codes).lines.map
      (·.close scope.length (select.finish here) 0)) ++ closing select.owned span

end Select

/-- The clause at an index is that of the communication with a number; the default clause has none. -/
def Numbered (clauses : List CommClause) (number index : Nat) : Prop :=
  ∃ clause, clauses[index]? = some clause ∧ clause.comm.isSome = true ∧
    (clauses.take index).countP (·.comm.isSome) = number

theorem selectComms_at {scope : Scope} {clauses : List CommClause}
    {comms : List (Option (Comm × Receive))} (compiled : selectComms scope clauses = .ok comms)
    {index : Nat} {node : Option Stmt} {body : List Stmt} {span : Span}
    (found : clauses[index]? = some (.mk node body span)) :
    (node = none ∧ comms[index]? = some none) ∨
      ∃ statement known, node = some statement ∧ comm scope statement = .ok known ∧
        comms[index]? = some (some known) := by
  obtain ⟨inside, isClause⟩ := List.getElem?_eq_some_iff.mp found
  have split : clauses = clauses.take index ++ .mk node body span :: clauses.drop (index + 1) := by
    rw [← isClause, List.getElem_cons_drop, List.take_append_drop]
  have length : (clauses.take index).length = index := List.length_take_of_le (Nat.le_of_lt inside)
  rw [split] at compiled
  have known := selectComms_get compiled
  rwa [length] at known

theorem selectComms_isSome {scope : Scope} {clauses : List CommClause}
    {comms : List (Option (Comm × Receive))} (compiled : selectComms scope clauses = .ok comms) :
    comms.map Option.isSome = clauses.map (·.comm.isSome) := by
  refine List.ext_getElem? fun index => ?_
  rw [List.getElem?_map, List.getElem?_map]
  cases found : clauses[index]? with
  | none =>
    have outside := List.getElem?_eq_none_iff.mp found
    rw [← selectComms_length compiled] at outside
    simp [outside]
  | some clause =>
    obtain ⟨node, body, span⟩ := clause
    obtain ⟨rfl, isNone⟩ | ⟨statement, known, rfl, -, isSome⟩ := selectComms_at compiled found
    · simp [isNone, CommClause.comm]
    · simp [isSome, CommClause.comm]

theorem Numbered.of_comms {scope : Scope} {clauses : List CommClause}
    {comms : List (Option (Comm × Receive))} (compiled : selectComms scope clauses = .ok comms)
    {number index : Nat} {known : Comm × Receive} (found : comms[index]? = some (some known))
    (count : (comms.take index).countP Option.isSome = number) : Numbered clauses number index := by
  have same := selectComms_isSome compiled
  have inside : index < clauses.length := by
    rw [← selectComms_length compiled]
    exact (List.getElem?_eq_some_iff.mp found).1
  have isSome : clauses[index].comm.isSome = true := by
    have here := congrArg (·[index]?) same
    simpa [found, inside] using here.symm
  refine ⟨_, List.getElem?_eq_getElem inside, isSome, ?_⟩
  have before := congrArg (fun (list : List Bool) => (list.take index).countP id) same
  simp only [← List.map_take, List.countP_map] at before
  exact before.symm.trans count

theorem selectBodies_get {scope : Scope} {parked : Option (Slot × Slot)}
    {receives : List (Option Receive)} {here : Nat} {clauses : List CommClause}
    {codes : List ClauseCode} (compiled : selectBodies scope parked receives here clauses = .ok codes) :
    codes.length = clauses.length ∧ ∀ (index : Nat) node body span,
      clauses[index]? = some (.mk node body span) → ∃ code, codes[index]? = some code ∧
        code.fallsThrough = false ∧
        selectBody scope parked receives[index]?.join code.start span body = .ok code.body := by
  induction clauses generalizing here codes receives with
  | nil =>
    simp only [selectBodies, Compiled.pure_eq_ok] at compiled
    simp [← compiled]
  | cons clause rest ih =>
    obtain ⟨node, statements, span⟩ := clause
    simp only [selectBodies_cons, Compiled.bind_eq_ok, Compiled.pure_eq_ok] at compiled
    obtain ⟨body, compiledBody, others, compiledOthers, rfl⟩ := compiled
    obtain ⟨length, each⟩ := ih compiledOthers
    refine ⟨by simp [length], fun index => ?_⟩
    cases index with
    | zero =>
      rintro _ _ _ ⟨⟩
      exact ⟨_, rfl, rfl, by cases receives <;> exact compiledBody⟩
    | succ index =>
      intro node statements span found
      obtain ⟨code, isCode, ends, compiledCode⟩ := each index node statements span (by simpa using found)
      exact ⟨code, by simpa using isCode, ends, by cases receives <;> simpa using compiledCode⟩

end Compile

theorem SelectTyped.numbered {strict : Prop} {scope : Scope}
    {comms : List (Option (Comm × Receive))} {received : List (Option Ty)}
    (typed : SelectTyped strict scope comms received) {ctx : Ctx strict} (same : ctx.scope = scope)
    {starts : List Nat} (length : starts.length = comms.length) :
    ∃ elems, CommsTyped strict ctx ((Compile.selectTargets comms starts).map (·.1)) elems ∧
      ∀ (number : Nat) elem, elems[number]? = some elem → ∃ entry index receive,
        (Compile.selectTargets comms starts)[number]? = some entry ∧
        comms[index]? = some (some (entry.1, receive)) ∧ starts[index]? = some entry.2 ∧
        (comms.take index).countP Option.isSome = number ∧
        ∀ ctx : Ctx strict, ctx.scope = scope → receive.Typed strict ctx elem := by
  induction typed generalizing starts with
  | nil => exact ⟨[], .nil, by simp⟩
  | default _ ih =>
    obtain ⟨start, starts, rfl⟩ := List.exists_cons_of_length_eq_add_one length
    obtain ⟨elems, comms, each⟩ := ih (by simpa using length)
    refine ⟨elems, comms, fun number elem found => ?_⟩
    obtain ⟨entry, index, receive, isEntry, isComm, isStart, count, typed⟩ := each number elem found
    exact ⟨entry, index + 1, receive, isEntry, isComm, isStart, by simpa using count, typed⟩
  | @comm comm receive elem _ _ first _ ih =>
    obtain ⟨start, starts, rfl⟩ := List.exists_cons_of_length_eq_add_one length
    obtain ⟨elems, comms, each⟩ := ih (by simpa using length)
    have commTyped := (first ctx same).1
    refine ⟨elem :: elems, ?_, fun number wanted found => ?_⟩
    · cases commTyped with
      | send channel value _ => exact .send channel value comms
      | recv channel _ => exact .recv channel comms
    · cases number with
      | zero =>
        obtain rfl : elem = wanted := by simpa using found
        exact ⟨(comm, start), 0, receive, rfl, rfl, rfl, rfl, fun ctx same => (first ctx same).2⟩
      | succ number =>
        obtain ⟨entry, index, receive, isEntry, isComm, isStart, count, typed⟩ :=
          each number wanted (by simpa using found)
        exact ⟨entry, index + 1, receive, by simpa [Compile.selectTargets] using isEntry, isComm,
          isStart, by simpa using count, typed⟩

namespace Compile

/-- A clause that does something with what it receives has a statement that takes it. The names that it
declares are not blank. -/
theorem comm_takes {scope : Scope} {node : Stmt} {found : Comm} {receive : Receive}
    (compiled : comm scope node = .ok (found, receive)) (body : List Stmt) (span : Span) :
    receive = .discard ∨ CommClause.takes (.mk (some node) body span) = true ∧
      ∀ value flag elem, receive = .define value flag elem →
        ∀ ident, value = some ident ∨ flag = some ident → ident.isBlank = false := by
  unfold comm at compiled
  split at compiled
  · simp only [Compiled.bind_eq_ok] at compiled
    obtain ⟨_, -, _, -, _, -, _, -, _, -, ends⟩ := compiled
    cases ends
    exact .inl rfl
  · simp only [Compiled.bind_eq_ok] at compiled
    obtain ⟨_, -, _, -, _, -, ends⟩ := compiled
    cases ends
    exact .inl rfl
  · rename_i lhs op channel _ _
    refine .inr ⟨rfl, ?_⟩
    cases op with
    | compound op =>
      dsimp only at compiled
      split at compiled <;> cases compiled
    | define =>
      dsimp only at compiled
      split at compiled
      · cases compiled
      · simp only [Compiled.bind_eq_ok] at compiled
        obtain ⟨_, -, _, -, _, -, ⟨value, flag⟩, named, ends⟩ := compiled
        cases ends
        rintro _ _ _ ⟨⟩
        exact (receiveNames_named named).2
    | assign =>
      dsimp only at compiled
      split at compiled
      · cases compiled
      · simp only [Compiled.bind_eq_ok] at compiled
        obtain ⟨_, -, _, -, _, -, ⟨value, flag⟩, -, ends⟩ := compiled
        cases ends
        rintro _ _ _ ⟨⟩
  · cases compiled

theorem parkReceived_sealed {frame after : Frame} {receives : Bool} {parked : Option (Slot × Slot)}
    (taken : parkReceived frame receives = (parked, after)) :
    parked.isSome = receives ∧ ∀ level : Level, level.frame = frame →
      ∃ final : Level, final.frame = after ∧ level.Grows final ∧
        ∀ value flag, parked = some (value, flag) → (value ∈ final.sealed ∧ value.slotClass = .object) ∧
          flag ∈ final.sealed ∧ flag.slotClass = .word ∧ flag.type = .bool := by
  cases receives with
  | false =>
    simp only [parkReceived, Bool.false_eq_true, if_false, Prod.mk.injEq] at taken
    obtain ⟨rfl, rfl⟩ := taken
    exact ⟨rfl, fun level same => ⟨level, same, .refl level, by simp⟩⟩
  | true =>
    simp only [parkReceived, if_true, Prod.mk.injEq] at taken
    obtain ⟨rfl, rfl⟩ := taken
    refine ⟨rfl, fun level same => ?_⟩
    subst same
    obtain ⟨mid, midFrame, midGrows, midSealed⟩ := level.exists_sealed .any
    obtain ⟨final, finalFrame, grows, isSealed⟩ := mid.exists_sealed .bool
    rw [midFrame] at finalFrame isSealed
    refine ⟨final, finalFrame, midGrows.trans grows, fun value flag same => ?_⟩
    simp only [Option.some.injEq, Prod.mk.injEq] at same
    obtain ⟨rfl, rfl⟩ := same
    exact ⟨⟨grows.sealed midSealed, rfl⟩, isSealed, rfl, rfl⟩

/-- The variables of a clause that declares what it receives: each name stands for a slot of its own, in
the statements that are compiled with them in scope. -/
structure Variables (scope : Scope) (params : List (Option Ident × Ty)) (here : Nat)
    (statements : List Stmt) (slots : List (Option Slot)) (grown : Frame) (body : Piece) : Prop where
  declared : Frame.declareParams { owned := true } params = .ok (slots, grown)
  visible : List.Forall₂ (fun (param : Option Ident × Ty) slot => ∀ ident, param.1 = some ident →
    ∃ found, slot = some found ∧ found.type = param.2 ∧
      Scope.lookup (grown :: scope) ident.name = some (0, .var found)) params slots
  body : stmts scope grown here false statements = .ok body

theorem selectBody_defines {scope : Scope} {value flag : Option Ident} {elem : Ty}
    {valueSlot flagSlot : Slot} {here : Nat} {span : Span} {statements : List Stmt} {code : Fragment}
    (owned : (value.isSome || flag.isSome) = true)
    (named : ∀ ident, value = some ident ∨ flag = some ident → ident.isBlank = false)
    (compiled : selectBody scope (some (valueSlot, flagSlot)) (some (.define value flag elem)) here span
      statements = .ok code) :
    ∃ slots grown body,
      Variables scope [(value, elem), (flag, .bool)] (here + 2) statements slots grown body ∧
      code.lines = ⟨.push body.frame.objects body.frame.words, span⟩ ::
        ⟨.adopt (([valueSlot, flagSlot].zip slots).filterMap fun (source, slot) =>
          slot.map (source, ·)), span⟩ :: body.lines ++ [⟨.pop, span⟩] := by
  simp only [selectBody, owned, if_true] at compiled
  obtain ⟨piece, content, lines, -⟩ := inScope_wrapped compiled
  simp only [Compiled.bind_eq_ok, Prod.exists, Compiled.pure_eq_ok] at content
  obtain ⟨slots, grown, declared, body, compiledBody, rfl⟩ := content
  obtain ⟨-, known, -⟩ := Frame.declareParams_widens declared
  refine ⟨slots, grown, body, ⟨declared, ?_, compiledBody⟩, by simpa [opening, closing] using lines⟩
  have lookup {ident : Ident} {found : Slot} (isSymbol : grown.symbol? ident.name = some (.var found)) :
      Scope.lookup (grown :: scope) ident.name = some (0, .var found) := by
    simp [Scope.lookup, Scope.declared?, isSymbol]
  cases known with
  | cons first rest =>
    cases rest with
    | cons second rest =>
      cases rest
      refine .cons (fun ident isNamed => ?_) (.cons (fun ident isNamed => ?_) .nil)
      · obtain ⟨found, same, type, symbol⟩ := first ident isNamed (named ident (.inl isNamed))
        exact ⟨found, same, type, lookup symbol⟩
      · obtain ⟨found, same, type, symbol⟩ := second ident isNamed (named ident (.inr isNamed))
        exact ⟨found, same, type, lookup symbol⟩

section Stalls

variable {others : World → World → Prop} {call : Caller} {env : EnvRef}

/-- One of the operands runs out of fuel, after the ones before it have been evaluated. -/
inductive Stalls (others : World → World → Prop) (call : Caller) (env : EnvRef) :
    List Comm → World → Prop
  | channel {channel value : Code} {rest : List Comm} {before : World} :
    (eval call env channel before).Exhausts others →
      Stalls others call env (.send channel value :: rest) before
  | value {channel value : Code} {target : Value} {rest : List Comm} {before middle : World} :
    (eval call env channel before).Finishes others (.ok target) middle →
    (eval call env value middle).Exhausts others →
      Stalls others call env (.send channel value :: rest) before
  | source {channel : Code} {rest : List Comm} {before : World} :
    (eval call env channel before).Exhausts others → Stalls others call env (.recv channel :: rest) before
  | later {comm : Comm} {case : SelectCase} {rest : List Comm} {before middle : World} :
    Prepares others call env [comm] before [case] middle → Stalls others call env rest middle →
    Stalls others call env (comm :: rest) before

theorem evalComms_stalls {comms : List Comm} {world : World}
    (exhausts : (evalComms call env comms world).Exhausts others) :
    Stalls others call env comms world := by
  induction comms generalizing world with
  | nil => cases exhausts
  | cons comm rest ih =>
    obtain exhausts | ⟨case, middle, isCase, exhausts⟩ := Run.exhausts_bind exhausts
    · cases comm with
      | send channel value =>
        obtain exhausts | ⟨target, middle, isTarget, exhausts⟩ := Run.exhausts_bind exhausts
        · exact .channel exhausts
        obtain exhausts | ⟨sent, last, -, exhausts⟩ := Run.exhausts_bind exhausts
        · exact .value isTarget exhausts
        · cases exhausts
      | recv channel =>
        obtain exhausts | ⟨source, middle, -, exhausts⟩ := Run.exhausts_bind exhausts
        · exact .source exhausts
        · cases exhausts
    · obtain exhausts | ⟨cases, last, -, exhausts⟩ := Run.exhausts_bind exhausts
      · suffices Prepares others call env [comm] world [case] middle from .later this (ih exhausts)
        cases comm with
        | send channel value =>
          obtain ⟨target, first, isTarget, isCase⟩ := Run.finishes_bind isCase
          obtain ⟨sent, second, isSent, isCase⟩ := Run.finishes_bind isCase
          cases isCase
          exact .send isTarget isSent .nil
        | recv channel =>
          obtain ⟨source, first, isSource, isCase⟩ := Run.finishes_bind isCase
          cases isCase
          exact .recv isSource .nil
      · cases exhausts

theorem Run.select_lasts {fuel : Nat} {cases : List SelectCase} {hasDefault : Bool} {world : World}
    (undisturbed : world.exchange.Undisturbed cases)
    (exhausts : (Run.select fuel cases hasDefault world).Exhausts others) :
    fuel = 0 ∨ (∀ case ∈ cases, case.Idle world.exchange) ∧ hasDefault = false := by
  rw [Run.select_eq] at exhausts
  split at exhausts
  · rename_i empty
    simp only [Bool.and_eq_true, List.isEmpty_iff, Bool.not_eq_eq_eq_not, Bool.not_true] at empty
    exact .inr ⟨by simp [empty.1], empty.2⟩
  cases fuel with
  | zero => exact .inl rfl
  | succ fuel =>
    rw [Run.selectRounds_succ] at exhausts
    simp only [Selecting.step, Bool.false_eq_true, if_false, Selecting.poll,
      Selecting.rotated_first] at exhausts
    obtain ⟨index, case, received, after, -, -, -, tried⟩ | ⟨index, case, -, -, tried⟩ | ⟨idle, tried⟩ :=
      @Exchange.tryCases_decides world.exchange.newClaim.2 cases 0 undisturbed
    · rw [tried, Nat.zero_add] at exhausts
      cases exhausts
    · rw [tried] at exhausts
      cases exhausts
    · cases hasDefault with
      | false => exact .inr ⟨fun case member => SelectCase.idle_newClaim.mp (idle case member), rfl⟩
      | true =>
        rw [tried] at exhausts
        obtain ⟨_, exhausts⟩ | ⟨_, exhausts⟩ := exhausts
        cases exhausts

end Stalls

section Sights

variable (select : Select) (scope : Scope) (clauses : List CommClause) (host : Host)
  (others : World → World → Prop) (inner : EnvRef) (goes : Sight) (leads : Nat → ExitKind → Sight)

/-- The statements of a clause are run, after what has been received is where the clause wants it: in
the variables that it declares, or at the places that it names. The operands of the places are evaluated
before anything is stored. -/
def RunsBody (code : ClauseCode) (body : List Stmt) (received : Option (Value × Bool)) :
    Option Receive → Sight
  | some (.define value flag elem) => fun moments halt => ∃ got ok, received = some (got, ok) ∧
    if (value.isSome || flag.isSome) = true then ∃ slots grown piece,
      Variables (select.frame :: scope) [(value, elem), (flag, .bool)] (code.start + 2) body slots grown
        piece ∧
      MiniGo.Binds inner code.start (code.start + code.body.length)
        ((slots.zip [got, .bool ok]).filterMap fun (slot, value) => slot.map (·, value)) goes
        (Leaving code.start code.body.lines leads) moments halt
    else Passes inner code.start (code.start + code.body.length) (fun _ => True) (fun _ => goes)
      (Leaving code.start code.body.lines leads) moments halt
  | some (.assign place flag) => fun moments halt => ∃ got ok, received = some (got, ok) ∧
    Comes inner code.start (Works others inner
      (fun fuel => Location.ofPlaces (Machine.call host fuel) inner (place :: flag.toList))
      fun found locations => Does others inner (Location.storeAll locations [got, .bool ok])
        (fun after _ rest halt =>
          (∀ location ∈ locations, ∀ value, location.last? (locations.zip [got, .bool ok]) = some value →
            location.content after = .ok value) ∧
          Passes inner (code.start + 1) (code.start + code.body.length) (fun _ => True) (fun _ => goes)
            (Leaving code.start code.body.lines leads) rest halt)
        found) moments halt
  | _ => Passes inner code.start (code.start + code.body.length) (fun _ => True) (fun _ => goes)
      (Leaving code.start code.body.lines leads)

def RunsClause (received : Option (Value × Bool)) (index : Nat) : Sight := fun moments halt =>
  ∃ node body span code, clauses[index]? = some (.mk node body span) ∧
    select.codes[index]? = some code ∧
    selectBody (select.frame :: scope) select.parked (select.comms[index]?.join.map (·.2)) code.start span
      body = .ok code.body ∧
    RunsBody select scope host others inner goes leads code body received
      (select.comms[index]?.join.map (·.2)) moments halt

def RunsSelected : Selected → Sight
  | .case number received => fun moments halt => ∃ index, Numbered clauses number index ∧
    RunsClause select scope clauses host others inner goes leads received index moments halt
  | .default => fun moments halt => ∃ index clause, clauses[index]? = some clause ∧ clause.comm = none ∧
    RunsClause select scope clauses host others inner goes leads none index moments halt

/-- One communication is performed, or the default is taken, and the clause of it is run in the state of
the channels that this has left; or the select fails, and nothing runs next. It runs out of fuel only if
it has to wait. -/
inductive Communicates (cases : List SelectCase) (before : World) : Sight
  | selected {selected : Selected} {after : World} {moment : Moment} {rest : List Moment} {halt : Halt} :
    (before.exchange.Undisturbed cases →
      Decides others before cases select.default.isSome (.ok selected) after) →
    moment.world.exchange = after.exchange →
    RunsSelected select scope clauses host others inner goes leads selected (moment :: rest) halt →
    Communicates cases before (moment :: rest) halt
  | failed {error : RuntimeError} {after world : World} {halt : Halt} :
    (before.exchange.Undisturbed cases →
      Decides others before cases select.default.isSome (.error error) after) →
    Step.raise inner error after = .done (none, inner) world →
    world.exchange = after.exchange → halt.Whole →
    Communicates cases before [⟨inner, none, world⟩] halt
  | stuck {fuel : Nat} :
    (before.exchange.Undisturbed cases →
      fuel = 0 ∨ (∀ case ∈ cases, case.Idle before.exchange) ∧ select.default.isSome = false) →
    Communicates cases before [] (.stuck fuel)

/-- The operands of all communications are evaluated before one is performed. -/
inductive Selects (before : World) : Sight
  | prepared {fuel : Nat} {cases : List SelectCase} {middle : World} {moments : List Moment}
    {halt : Halt} :
    Prepares others (Machine.call host fuel) inner (select.targets.map (·.1)) before cases middle →
    Communicates select scope clauses host others inner goes leads cases middle moments halt →
    Selects before moments halt
  | failed {fuel : Nat} {error : RuntimeError} {later world : World} {halt : Halt} :
    (evalComms (Machine.call host fuel) inner (select.targets.map (·.1)) before).Finishes others
      (.error error) later →
    Step.raise inner error later = .done (none, inner) world → halt.Whole →
    Selects before [⟨inner, none, world⟩] halt
  | stuck {fuel : Nat} :
    Stalls others (Machine.call host fuel) inner (select.targets.map (·.1)) before →
    Selects before [] (.stuck fuel)

def Select.Shows (targets : Targets) (here stop : Nat) (env : EnvRef) : Sight :=
  Opens select.owned env here fun inner =>
    Comes inner (select.dispatch here)
      (Selects select scope clauses host others inner
        (Resumes select.owned env inner (select.finish here) stop)
        (Breaks targets scope.length (Resumes select.owned env inner (select.finish here) stop)))

def Select.parts (here position : Nat) : Bool :=
  select.dispatch here < position && position < select.finish here

end Sights

section Of

variable {select : Select} {scope : Scope} {here : Nat} {labels : List String}
  {clauses : List CommClause} {span : Span} {lines : List Line}

namespace Select

theorem Of.dispatch_lt (isSelect : select.Of scope here labels clauses span lines) :
    select.dispatch here < select.finish here := by
  have row := (selectBodies_row isSelect.codes).finish_eq 0
  unfold finish
  omega

theorem Of.parks (isSelect : select.Of scope here labels clauses span lines) {index : Nat}
    {node : Stmt} {body : List Stmt} {clauseSpan : Span}
    (found : clauses[index]? = some (.mk (some node) body clauseSpan))
    (takes : CommClause.takes (.mk (some node) body clauseSpan) = true) :
    ∃ value flag, select.parked = some (value, flag) := by
  have owned : select.owned = true := by
    rw [isSelect.owned, List.any_eq_true]
    exact ⟨_, List.mem_of_getElem? found, takes⟩
  have isSome := (parkReceived_sealed isSelect.parked).1
  rw [owned] at isSome
  obtain ⟨⟨value, flag⟩, same⟩ := Option.isSome_iff_exists.mp isSome
  exact ⟨value, flag, same⟩

theorem Of.carries {program : Program} {targets : Targets}
    (isSelect : select.Of scope here labels clauses span lines)
    (carries : program.Carries targets here lines) :
    program.Carries targets here (opening select.owned span select.frame) ∧
      program.instr? (select.dispatch here) = some select.instr ∧
      program.Carries (targets.closing scope.length (select.finish here) 0) (select.dispatch here + 1)
        (ClauseCode.join (select.finish here) select.codes).lines ∧
      program.Carries targets (select.finish here) (closing select.owned span) ∧
      select.finish here + select.owned.toNat = here + lines.length := by
  have finish : select.finish here = here + select.owned.toNat + 1 +
      (ClauseCode.join (select.finish here) select.codes).lines.length :=
    (selectBodies_row isSelect.codes).finish_eq (select.finish here)
  have closed : (closing select.owned span).length = select.owned.toNat := by
    cases select.owned <;> rfl
  rw [isSelect.lines] at carries ⊢
  have within := carries.left.right
  rw [opening_length] at within
  refine ⟨carries.left.left, within.head, within.tail.opened, ?_, ?_⟩
  · have last := carries.right
    rwa [show here + _ = select.finish here by
      simp only [List.length_append, List.length_cons, List.length_map, opening_length]
      omega] at last
  · simp only [List.length_append, List.length_cons, List.length_map, opening_length, closed]
    omega

end Select

end Of

end Compile

namespace Step

/-- What is left of the instruction that stores what has been parked, when the places are found. -/
def unparkInto (env : EnvRef) (value flag : Slot) : List Location → Run Next
  | [] => advance env
  | target :: flags => do
    let found ← Run.load env 0 value
    target.store found
    let truth ← Run.load env 0 flag
    Location.storeAll flags [truth]
    advance env

theorem run_unpark (call : Caller) (fuel : Nat) (env : EnvRef) (value flag : Slot) (place : Place)
    (flagPlace : Option Place) :
    run call fuel env (.unpark (value, flag) place flagPlace) =
      (Location.ofPlaces call env (place :: flagPlace.toList) >>= unparkInto env value flag) := by
  simp only [run, Location.ofPlaces, Run.bind_assoc]
  rfl

theorem unparkInto_eq {env : EnvRef} {value flag : Slot} {target : Location} {flags : List Location}
    {world : World} {found truth : Value} (isFound : world.load (world.up env 0) value = found)
    (isTruth : ∀ after, target.put found world = .ok after → after.load (after.up env 0) flag = truth) :
    unparkInto env value flag (target :: flags) world =
      (Location.storeAll (target :: flags) [found, truth] >>= fun _ => advance env) world := by
  have loads : Run.load env 0 value world = .done found world := by
    rw [← isFound]
    rfl
  have stores : (Location.storeAll (target :: flags) [found, truth] >>= fun _ => advance env) =
      (target.store found >>= fun _ => Location.storeAll flags [truth] >>= fun _ => advance env) := by
    rw [Location.storeAll, Run.bind_assoc]
  rw [stores, unparkInto, Run.bind_done loads]
  have stored := Location.store_apply target found world
  cases made : target.put found world with
  | error error =>
    rw [made] at stored
    show Run.bind _ _ world = Run.bind _ _ world
    rw [Run.bind_apply, Run.bind_apply, stored]
    rfl
  | ok after =>
    rw [made] at stored
    have loadsFlag : Run.load env 0 flag after = .done truth after := by
      rw [← isTruth after made]
      rfl
    rw [Run.bind_done stored, Run.bind_done stored, Run.bind_done loadsFlag]

end Step

section Stores

variable [Natives] {strict : Prop}

theorem Location.Stores.last_kept {shape : Shape strict} {stores : List (Location × Value)}
    (sound : Location.Stores shape stores) (isStrict : strict) {location : Location}
    {target : Option Ty} (located : location.Sound shape target) {value : Value}
    (isLast : location.last? stores = some value) : location.kept value = value := by
  cases location with
  | slot ref named =>
    induction stores with
    | nil => cases isLast
    | cons entry rest ih =>
      obtain ⟨other, stored⟩ := entry
      rw [last?, Option.or_eq_some_iff] at isLast
      rcases isLast with later | ⟨-, here⟩
      · exact ih (List.forall_mem_cons.mp sound).2 later
      · split at here
        · rename_i same
          obtain rfl := Option.some.inj here
          have kept := sound.kept isStrict _ (.head _)
          obtain ⟨target', located', -⟩ := sound _ (.head _)
          cases other with
          | slot ref' named' =>
            simp only [isSame, Bool.and_eq_true, beq_iff_eq] at same
            obtain ⟨⟨rfl, slotClass⟩, index⟩ := same
            exact located'.slot_inj located slotClass index ▸ kept
          | _ => cases same
        · cases here
  | _ => rfl

variable {observer : Observer} {course : Course strict} {start now : Config strict}
  {floor fuel : Nat} {inner : EnvRef} {blocks : List EnvRef} {ctx : Ctx strict} {layer : Layer}
  {rest : List Layer} {here : Nat} {sight : Sight}

theorem Config.Commits.contents {stores : List (Location × Value)} {world : World}
    {others : World → World → Prop} (commits : now.Commits stores) (isStrict : strict)
    (fits : Location.Stores now.shape stores)
    (finishes : (Location.storeEach stores now.world).Finishes others (.ok ()) world)
    {location : Location} {target : Option Ty} (located : location.Sound now.shape target)
    {value : Value} (isLast : location.last? stores = some value) :
    location.content world = .ok value := by
  obtain ⟨count, after, -, shows, ⟨rfl, done⟩ | ⟨_, _, _, -, -, failed⟩⟩ := commits
  · rw [done] at finishes
    cases finishes
    rw [List.take_length] at shows
    rw [shows location target located, isLast]
    exact congrArg Except.ok (fits.last_kept isStrict located isLast)
  · rw [failed] at finishes
    cases finishes

omit [Natives] in
theorem Location.store_lasts (location : Location) (value : Value) (world : World)
    {others : World → World → Prop} : ¬(location.store value world).Exhausts others := by
  rw [store_apply]
  split <;> exact nofun

omit [Natives] in
theorem Location.storeAll_lasts (locations : List Location) (values : List Value) (world : World)
    {others : World → World → Prop} : ¬(storeAll locations values world).Exhausts others := by
  rw [storeAll_eq_storeEach]
  induction locations.zip values generalizing world with
  | nil => exact nofun
  | cons store stores ih =>
    intro exhausts
    obtain exhausts | ⟨_, middle, -, exhausts⟩ := Run.exhausts_bind exhausts
    · exact store.1.store_lasts store.2 world exhausts
    · exact ih middle exhausts

theorem Spot.Poised.held {spot : Spot strict} (poised : spot.Poised now)
    (isLayers : spot.ctx.layers = layer :: rest) {slot : Slot} {value : Value}
    (held : (slot, value) ∈ layer.held) : now.world.load (now.world.up spot.env 0) slot = value := by
  have within := poised.busy.within
  rw [isLayers] at within
  obtain ⟨known, _, _, -, -, same, described⟩ := within.innermost
  obtain ⟨rfl, rfl⟩ := List.cons.inj same
  exact (described.held _ held).2

theorem Observer.Sees.unparks {value flag : Slot} {got : Value} {ok : Bool} {type : Ty}
    {place : Place} {flagPlace : Option Place} {flagTargets : List (Option Ty)} (isStrict : strict)
    (hostSafe : Host.Safe strict observer.host) (isLayers : ctx.layers = layer :: rest)
    (typed : PlaceTyped strict ctx place (Place.type? place))
    (storesTo : type.StoresTo (Place.type? place))
    (flagTyped : PlacesTyped strict ctx flagPlace.toList flagTargets)
    (flagStores : ∀ wanted ∈ flagTargets, Ty.StoresTo .bool wanted)
    (isUnpark : course.program.instr? here = some (.unpark (value, flag) place flagPlace))
    (held : (value, got) ∈ layer.held ∧ (flag, .bool ok) ∈ layer.held)
    (inhabits : got.Inhabits now.shape type)
    (busy : course.Busy start observer.task floor inner blocks ctx.layers now)
    (quiet : now.Quiet observer.task) (ip : now.world.ip inner = here)
    (sees : ∀ less < fuel, ∀ later,
      course.Busy start observer.task floor inner blocks ctx.layers later →
      later.Quiet observer.task → later.world.ip inner = here + 1 →
      observer.Sees less inner (later.world.instr? inner) later sight) :
    observer.Sees fuel inner (now.world.instr? inner) now
      (Comes inner here (Works (Config.Others strict observer.task) inner
        (fun fuel => Location.ofPlaces (Machine.call observer.host fuel) inner
          (place :: flagPlace.toList))
        fun found locations => Does (Config.Others strict observer.task) inner
          (Location.storeAll locations [got, .bool ok])
          (fun after _ moments halt =>
            (∀ location ∈ locations, ∀ value,
              location.last? (locations.zip [got, .bool ok]) = some value →
                location.content after = .ok value) ∧ sight moments halt)
          found)) := by
  let spot : Spot strict := ⟨course, start, observer.task, floor, inner, blocks, ctx, here⟩
  have poised : spot.Poised now := ⟨busy, quiet, ip⟩
  refine .runs (by rw [busy.within.instr?, ip, isUnpark]) ip fun less isLess => ?_
  rw [Step.run_unpark]
  have safe := (Machine.watchedCall_safe .never hostSafe less).1
  refine @Observer.Leads.works _ _ _ _ _ _ spot _ _ _
    (fun fuel => Location.ofPlaces (Machine.call observer.host fuel) inner (place :: flagPlace.toList))
    rfl (.of_meets poised (Location.ofPlaces_meets safe (.cons typed flagTyped) poised.hosts)) ?_
  rintro found locations poised grows ⟨sound, -⟩ -
  obtain ⟨target, flags, located, flagSound, rfl⟩ := List.forall₂_cons_left_iff.mp sound
  have stored := (inhabits.grows grows).stores storesTo
  have isTruth : (Value.bool ok).Inhabits found.shape .bool := ⟨trivial, fun _ => rfl⟩
  have fits : Location.Stores found.shape ((target :: flags).zip [got, .bool ok]) := by
    refine List.forall_mem_cons.mpr ⟨⟨_, located, stored⟩, ?_⟩
    cases flagSound with
    | nil => simp
    | cons head _ =>
      refine List.forall_mem_cons.mpr ⟨⟨_, head, isTruth.stores (flagStores _ (.head _))⟩, ?_⟩
      simp
  have storesValue := Spot.Acts.of_meets poised (Location.store_meets poised.quiet located stored)
  have isParked : ∀ after, target.put got found.world = .ok after →
      after.load (after.up inner 0) flag = .bool ok := by
    intro after made
    unfold Spot.Acts at storesValue
    rw [Location.store_apply, made] at storesValue
    obtain ⟨middle, rfl, -, poised, -⟩ := storesValue
    exact poised.held isLayers held.2
  have acts : spot.Acts (Location.storeAll (target :: flags) [got, .bool ok]) found fun _ _ => True :=
    storesValue.bind fun middle _ poised first _ => .of_meets poised
      (Step.storeFlag_meets poised.quiet (flagSound.imp fun _ _ sound => sound.grows first)
        (isTruth.grows first) flagStores)
  rw [Step.unparkInto_eq (poised.held isLayers held.1) isParked]
  refine @Observer.Leads.does _ _ _ _ _ _ spot _ _ _
    (Location.storeAll (target :: flags) [got, .bool ok]) rfl acts (Location.storeAll_lasts _ _ _) ?_
  intro after _ poisedAfter _ _ finishes
  rw [Location.storeAll_eq_storeEach] at finishes
  obtain ⟨last, gone, advances, busy, quiet, -, ip, -⟩ :=
    poisedAfter.busy.goto poisedAfter.quiet (after.world.ip inner + 1)
  rw [poisedAfter.ip] at ip
  refine Observer.Leads.done gone advances ((sees less isLess last busy quiet ip).mono ?_)
  refine fun moments halt seen => ⟨fun location member value isLast => ?_, seen⟩
  obtain ⟨wanted, -, located⟩ := exists_of_forall₂ sound.flip member
  exact (Config.commits poised.quiet fits).contents isStrict fits finishes located isLast

theorem Observer.Among.defines {out : Nat → ExitKind → List Layer → Prop} {targets : Targets}
    {breakTo : Nat} {goes : Sight} {leads : Nat → ExitKind → Sight} {value flag : Option Ident}
    {elem : Ty}
    {valueSlot flagSlot : Slot} {got : Value} {ok : Bool} {statements : List Stmt}
    {slots : List (Option Slot)} {grown : Frame} {piece : Piece} {span : Span} (isStrict : strict)
    (among : observer.Among course ctx out targets start floor inner blocks breakTo goes leads)
    (declared : Compile.Variables ctx.scope [(value, elem), (flag, .bool)] (here + 2) statements slots
      grown piece)
    (proper : ProperIf strict (Stmt.headsOf statements))
    (carries : course.program.Carries targets here
      (⟨.push piece.frame.objects piece.frame.words, span⟩ ::
        ⟨.adopt (([valueSlot, flagSlot].zip slots).filterMap fun (source, slot) =>
          slot.map (source, ·)), span⟩ :: piece.lines ++ [⟨.pop, span⟩]))
    (isJump : course.program.instr? (here + piece.lines.length + 3) = some (.goto breakTo))
    (busy : course.Busy start observer.task floor inner blocks (layer :: rest) now)
    (serves : Serves (layer :: rest) ctx.layers)
    (held : (valueSlot, got) ∈ layer.held ∧ (flagSlot, .bool ok) ∈ layer.held)
    (inhabits : got.Inhabits now.shape elem) (quiet : now.Quiet observer.task)
    (ip : now.world.ip inner = here) :
    observer.Sees fuel inner (now.world.instr? inner) now
      (Binds inner here (here + piece.lines.length + 3)
        ((slots.zip [got, .bool ok]).filterMap fun (slot, value) => slot.map (·, value)) goes
        (Leaving here (⟨.push piece.frame.objects piece.frame.words, span⟩ ::
          ⟨.adopt (([valueSlot, flagSlot].zip slots).filterMap fun (source, slot) =>
            slot.map (source, ·)), span⟩ :: piece.lines ++ [⟨.pop, span⟩]) leads)) := by
  obtain ⟨⟨names, declares, isName⟩, types⟩ := Frame.declareParams_declares declared.declared
  obtain ⟨-, -, distinct, -⟩ := Frame.declareParams_widens declared.declared
  obtain ⟨first, second, rfl⟩ : ∃ first second, slots = [first, second] := by
    match slots, types.length_eq with
    | [first, second], _ => exact ⟨first, second, rfl⟩
  rw [List.forall₂_cons, List.forall₂_cons] at types
  obtain ⟨firstType, secondType, -⟩ := types
  let given : List (Slot × Slot × Value) := (first.map (valueSlot, ·, got)).toList ++
    (second.map (flagSlot, ·, .bool ok)).toList
  have targetsAre : given.map (·.2.1) = [first, second].filterMap id := by
    cases first <;> cases second <;> rfl
  have pairsAre : given.map (fun copy => (copy.1, copy.2.1)) =
      ([valueSlot, flagSlot].zip [first, second]).filterMap fun (source, slot) =>
        slot.map (source, ·) := by
    cases first <;> cases second <;> rfl
  have valuesAre : given.map (fun copy => (copy.2.1, copy.2.2)) =
      ([first, second].zip [got, .bool ok]).filterMap fun (slot, value) => slot.map (·, value) := by
    cases first <;> cases second <;> rfl
  have same : ∀ slot, slot ∈ given.map (·.2.1) ↔ slot ∈ names := by
    intro slot
    rw [targetsAre, isName]
    simp
  have declaresGiven : Declares { owned := true } grown (given.map (·.2.1)) :=
    { declares with
      named := fun slot member => declares.named slot ((same slot).mp member)
      fresh := fun name slot member => (declares.fresh name slot member).imp_right (same slot).mpr }
  have fits : ∀ copy ∈ given, (copy.1, copy.2.2) ∈ layer.held ∧
      copy.2.2.Inhabits now.shape copy.2.1.type := by
    intro copy member
    rcases List.mem_append.mp member with member | member
    · obtain ⟨slot, isSlot, rfl⟩ := Option.map_eq_some_iff.mp (Option.mem_toList.mp member)
      exact ⟨held.1, firstType slot isSlot ▸ inhabits⟩
    · obtain ⟨slot, isSlot, rfl⟩ := Option.map_eq_some_iff.mp (Option.mem_toList.mp member)
      exact ⟨held.2, trivial, fun _ => secondType slot isSlot ▸ rfl⟩
  have kept : given.map (fun copy => (copy.2.1, copy.2.1.kept copy.2.2)) =
      given.map fun copy => (copy.2.1, copy.2.2) := by
    refine List.map_congr_left fun copy member => congrArg (copy.2.1, ·) ?_
    exact declaresGiven.kept (List.mem_map_of_mem member) ((fits copy member).2.2 isStrict)
  rw [← pairsAre] at carries ⊢
  rw [← valuesAre, ← kept]
  have declaring :=
    Compile.stmts_extends statements proper _ _ _ piece
      ((Declarable.empty ctx.sound true).after declaresGiven) declared.body
  exact among.binds given declaresGiven (targetsAre ▸ distinct) declaring carries isJump busy serves
    fits quiet ip

end Stores

namespace Compile

section Runs

variable [Natives] {select : Select} {scope : Scope} {here : Nat} {labels : List String}
  {clauses : List CommClause} {span : Span} {lines : List Line} {observer : Observer}
  {course : Course True} {start now : Config True} {floor fuel : Nat} {inner : EnvRef}
  {blocks : List EnvRef} {targets : Targets} {before ctx : Ctx True}
  {out : Nat → ExitKind → List Layer → Prop} {goes : Sight}
  {leads : Nat → ExitKind → Sight} {layer : Layer}
  {rest : List Layer} {index : Nat} {code : ClauseCode} {received : Option (Value × Bool)}

omit [Natives] in
theorem properIf_commClause {strict : Prop} {index : Nat} {node : Option Stmt} {body : List Stmt}
    {clauseSpan : Span} (proper : ProperIf strict (CommClause.headsOf clauses))
    (found : clauses[index]? = some (.mk node body clauseSpan)) :
    ProperIf strict (Stmt.headsOf body) := by
  induction clauses generalizing index with
  | nil => simp at found
  | cons clause rest ih =>
    obtain ⟨first, statements, _⟩ := clause
    simp only [CommClause.headsOf, properIf_append] at proper
    cases index with
    | zero =>
      obtain ⟨-, rfl, -⟩ : first = node ∧ statements = body ∧ _ := by simpa using found
      exact proper.1.2
    | succ index => exact ih proper.2 (by simpa using found)

def Suits (shape : Shape True) (scope : Scope) (receive : Receive) (received : Option (Value × Bool)) :
    Prop :=
  ∃ elem, (∀ ctx : Ctx True, ctx.scope = scope → receive.Typed True ctx elem) ∧
    ((elem = none ∧ received = none) ∨ ∃ type got ok, elem = some type ∧ received = some (got, ok) ∧
      got.Inhabits shape type)

omit [Natives] in
theorem selectBody_ignores {elem : Ty} {slots : Slot × Slot} {base here : Nat} {statements : List Stmt}
    {code : Fragment} (proper : ProperIf True (Stmt.headsOf statements))
    (around : Around base out ctx.scope ctx.layers)
    (compiled : selectBody ctx.scope (some slots) (some (.define none none elem)) here span statements =
      .ok code) :
    ∃ sites, Runs True base out here code.lines sites ctx.layers ctx.layers := by
  obtain ⟨valueSlot, flagSlot⟩ := slots
  simp only [selectBody, Option.isSome_none, Bool.or_self] at compiled
  suffices settled : ∃ sites, True ∧ Runs True base out here code.lines sites ctx.layers ctx.layers from
    settled.imp fun _ => And.right
  refine inScope_runs compiled (fun here piece content => ?_) around
  simp only [Frame.declareParams, pure_bind, Bool.false_eq_true, if_false, Compiled.bind_eq_ok,
    Compiled.pure_eq_ok] at content
  obtain ⟨body, compiledBody, rfl⟩ := content
  have declaring := stmts_extends statements proper _ _ _ body (.empty ctx.sound false) compiledBody
  exact declaring.inside around fun _ _ => trivial

theorem Select.Of.runsClause (isSelect : select.Of scope here labels clauses span lines)
    (proper : ProperIf True (CommClause.headsOf clauses))
    (isScope : ctx.scope = select.frame :: scope) (sameLayers : ctx.layers = before.layers)
    (among : observer.Among course ctx out targets start floor inner blocks (select.finish here) goes
      leads)
    (carries : course.program.Carries targets (select.dispatch here + 1)
      (ClauseCode.join (select.finish here) select.codes).lines)
    (busy : course.Busy start observer.task floor inner blocks (layer :: rest) now)
    (serves : Serves (layer :: rest) ctx.layers)
    (held : ∀ value flag got ok, select.parked = some (value, flag) → received = some (got, ok) →
      (value, got) ∈ layer.held ∧ (flag, .bool ok) ∈ layer.held)
    (suits : ∀ comm receive, select.comms[index]? = some (some (comm, receive)) →
      Suits now.shape before.scope receive received)
    (isCode : select.codes[index]? = some code) (quiet : now.Quiet observer.task)
    (ip : now.world.ip inner = code.start) :
    observer.Sees fuel inner (now.world.instr? inner) now
      (RunsClause select scope clauses observer.host (Config.Others True observer.task) inner goes leads
        received index) := by
  obtain ⟨many, each⟩ := selectBodies_get isSelect.codes
  have inside : index < clauses.length := many ▸ (List.getElem?_eq_some_iff.mp isCode).1
  obtain ⟨⟨node, body, clauseSpan⟩, isClause⟩ : ∃ clause, clauses[index]? = some clause :=
    ⟨_, List.getElem?_eq_getElem inside⟩
  obtain ⟨code', isCode', ends, compiled⟩ := each index node body clauseSpan isClause
  obtain rfl : code = code' := Option.some.inj (isCode.symm.trans isCode')
  have isReceive : (select.comms.map (·.map (·.2)))[index]?.join =
      select.comms[index]?.join.map (·.2) := by
    rw [List.getElem?_map]
    cases select.comms[index]? <;> rfl
  rw [isReceive] at compiled
  obtain ⟨isBody, isJump⟩ := (selectBodies_row isSelect.codes).get carries isCode
  simp only [ends, Bool.false_eq_true, if_false] at isJump
  have properBody := properIf_commClause proper isClause
  have plain (compiled : scopedStmts ctx.scope code.start false clauseSpan body = .ok code.body) :
      observer.Sees fuel inner (now.world.instr? inner) now
        (Passes inner code.start (code.start + code.body.length) (fun _ => True) (fun _ => goes)
          (Leaving code.start code.body.lines leads)) :=
    among.plains (fun base deep => scopedStmts_runs properBody (among.around.rebase deep) compiled)
      isBody isJump busy serves quiet ip
  suffices sees : observer.Sees fuel inner (now.world.instr? inner) now
      (RunsBody select scope observer.host (Config.Others True observer.task) inner goes leads code body
        received (select.comms[index]?.join.map (·.2))) from
    sees.mono fun moments halt seen => ⟨node, body, clauseSpan, code, isClause, isCode, compiled, seen⟩
  rw [← isScope] at compiled
  obtain ⟨rfl, isNone⟩ | ⟨statement, ⟨comm, receive⟩, rfl, compiledComm, isComm⟩ :=
    selectComms_at isSelect.comms isClause
  · rw [isNone] at compiled ⊢
    exact plain compiled
  rw [isComm] at compiled ⊢
  obtain ⟨elem', typed, isReceived⟩ := suits comm receive isComm
  cases receive with
  | discard => exact plain compiled
  | define value flag elem =>
    obtain ⟨takes, named⟩ := (comm_takes compiledComm body clauseSpan).resolve_left (by simp)
    obtain ⟨valueSlot, flagSlot, isParked⟩ := isSelect.parks isClause takes
    have isElem : elem' = some elem := typed before rfl
    obtain ⟨rfl, -⟩ | ⟨type, got, ok, rfl, rfl, inhabits⟩ := isReceived
    · cases isElem
    obtain rfl := Option.some.inj isElem
    rw [isParked] at compiled
    by_cases owned : (value.isSome || flag.isSome) = true
    · obtain ⟨slots, grown, piece, declared, isLines⟩ :=
        selectBody_defines owned (named _ _ _ rfl) compiled
      have length : code.start + code.body.length = code.start + piece.lines.length + 3 := by
        rw [Fragment.length_lines, isLines]
        simp only [List.length_append, List.length_cons, List.length_nil]
        omega
      rw [isLines] at isBody
      rw [length] at isJump
      refine (among.defines trivial declared properBody isBody isJump busy serves
        (held _ _ _ _ isParked rfl) inhabits quiet ip).mono fun moments halt seen => ⟨got, ok, rfl, ?_⟩
      rw [if_pos owned, length, isLines]
      exact ⟨slots, grown, piece, isScope ▸ declared, seen⟩
    · obtain ⟨rfl, rfl⟩ : value = none ∧ flag = none := by simpa using owned
      refine (among.plains (fun base deep => ?_) isBody isJump busy serves quiet ip).mono
        fun moments halt seen => ⟨got, ok, rfl, seen⟩
      exact selectBody_ignores properBody (among.around.rebase deep) compiled
  | assign place flagPlace =>
    obtain ⟨takes, -⟩ := (comm_takes compiledComm body clauseSpan).resolve_left (by simp)
    obtain ⟨valueSlot, flagSlot, isParked⟩ := isSelect.parks isClause takes
    obtain ⟨type, got, ok, rfl, rfl, inhabits⟩ := isReceived.resolve_left fun nothing => by
      obtain ⟨_, _, isElem, -⟩ := typed before rfl
      exact nomatch nothing.1.symm.trans isElem
    rw [isParked] at compiled
    simp only [selectBody, Option.map_some, Option.join_some, Compiled.bind_eq_ok,
      Compiled.pure_eq_ok] at compiled
    obtain ⟨piece, compiledPiece, isCodeBody⟩ := compiled
    have isLines : code.body.lines = ⟨.unpark (valueSlot, flagSlot) place flagPlace, clauseSpan⟩ ::
        piece.lines := by
      rw [← isCodeBody]
      rfl
    have length : code.start + code.body.length = code.start + 1 + piece.lines.length := by
      rw [Fragment.length_lines, isLines, List.length_cons]
      omega
    rw [isLines] at isBody
    rw [length] at isJump
    let given : Ctx True :=
      ⟨before.scope, layer :: rest, before.fits.serves (sameLayers ▸ serves)⟩
    obtain ⟨type', flagTargets, isElem, placeTyped, storesTo, flagTyped, flagStores⟩ := typed given rfl
    obtain rfl := Option.some.inj isElem
    refine (@Observer.Sees.unparks _ _ _ _ _ _ _ _ _ _ given _ _ _ _ _ _ _ _ _ _ _ _ trivial among.host
      rfl placeTyped storesTo flagTyped flagStores isBody.head (held _ _ _ _ isParked rfl) inhabits busy
      quiet ip ?_).mono fun moments halt seen => ⟨got, ok, rfl, seen⟩
    intro less isLess later busyLater quietLater ipLater
    rw [length, isLines]
    have within (moment : Moment) (rest : List Moment) (halt : Halt)
        (seen : Leaving (code.start + 1) piece.lines leads moment rest halt) :
        Leaving code.start (⟨.unpark (valueSlot, flagSlot) place flagPlace, clauseSpan⟩ :: piece.lines)
          leads moment rest halt := by
      have around := seen.within [⟨.unpark (valueSlot, flagSlot) place flagPlace, clauseSpan⟩] []
      rwa [List.append_nil] at around
    refine Observer.Sees.mono ?_ fun moments halt seen => Passes.mono seen (fun _ _ _ => id) within
    exact among.plains (fun base deep => scopedStmts_runs properBody (among.around.rebase deep)
      compiledPiece) isBody.tail isJump busyLater serves quietLater ipLater

theorem Select.parks (isSealed : ∀ value flag, select.parked = some (value, flag) →
      value.slotClass = .object ∧ flag.slotClass = .word ∧ flag.type = .bool ∧
        ∃ layer : Layer, ctx.layers[0]? = some layer ∧ value ∈ layer.level.sealed ∧
          flag ∈ layer.level.sealed)
    (plain : ∀ layer ∈ ctx.layers, layer.parked = [] ∧ layer.held = [])
    (busy : course.Busy start observer.task floor inner blocks ctx.layers now)
    (quiet : now.Quiet observer.task) (received : Option (Value × Bool)) :
    ∃ (later : Config True) (layer : Layer) (rest : List Layer),
      Step.park inner select.parked received now.world = .done () later.world ∧
      now.Advances observer.task later ∧ later.Quiet observer.task ∧
      course.Busy start observer.task floor inner blocks (layer :: rest) later ∧
      Serves (layer :: rest) ctx.layers ∧
      (∀ value flag got ok, select.parked = some (value, flag) → received = some (got, ok) →
        (value, got) ∈ layer.held ∧ (flag, .bool ok) ∈ layer.held) ∧
      later.shape = now.shape ∧ later.world.exchange = now.world.exchange := by
  obtain ⟨-, top, others, -, -, isLayers, -⟩ := busy.within.innermost
  rw [isLayers] at busy isSealed plain ⊢
  cases isParked : select.parked with
  | none =>
    exact ⟨now, top, others, rfl, .refl _ _, quiet, busy, .refl _, by simp, rfl, rfl⟩
  | some slots =>
    obtain ⟨value, flag⟩ := slots
    cases received with
    | none => exact ⟨now, top, others, rfl, .refl _ _, quiet, busy, .refl _, by simp, rfl, rfl⟩
    | some pair =>
      obtain ⟨got, ok⟩ := pair
      obtain ⟨isObject, isWord, isBool, layer, isTop, sealedValue, sealedFlag⟩ :=
        isSealed value flag isParked
      obtain rfl : top = layer := by simpa using isTop
      obtain ⟨middle, middleWorld, first, quiets, busy, middleShape, -⟩ := busy.seals got sealedValue
      obtain ⟨later, laterWorld, second, quiets', busy, laterShape, -⟩ :=
        busy.seals (.bool ok) sealedFlag
      have keptValue : value.kept got = got := by simp [Slot.kept, isObject]
      have keptFlag : flag.kept (.bool ok) = .bool ok := by
        simp only [Slot.kept, isWord, isBool]
        exact congrArg Value.const (Const.ofBits_toBits_bool ok)
      have stored : Run.store inner value got now.world = .done () middle.world := by
        rw [middleWorld]
        rfl
      have storedFlag : Run.store inner flag (.bool ok) middle.world = .done () later.world := by
        rw [laterWorld]
        rfl
      have differs : value ≠ flag := by
        rintro rfl
        simp [isObject] at isWord
      refine ⟨later, _, others, (Run.bind_done stored _).trans storedFlag, first.trans second,
        quiets' (quiets quiet), busy, ?_, ?_, laterShape.trans middleShape, ?_⟩
      · refine .cons ⟨rfl, fun _ member => member, fun _ member => member, ?_⟩ (Serves.refl _)
        rw [(plain top (.head _)).2]
        exact List.nil_subset _
      · rintro _ _ _ _ ⟨⟩ ⟨⟩
        simp [keptValue, keptFlag, differs]
      · rw [laterWorld, middleWorld]
        rfl

omit [Natives] in
theorem Select.Of.default_isSome (isSelect : select.Of scope here labels clauses span lines) :
    (select.default.bind ((select.codes.map (·.start))[·]?)).isSome = select.default.isSome := by
  cases isDefault : select.default with
  | none => rfl
  | some index =>
    have compiled := isSelect.default
    rw [isDefault] at compiled
    obtain ⟨_, marked⟩ := defaultClause_default compiled
    have inside := (List.getElem?_eq_some_iff.mp marked).1
    rw [List.length_map, ← (selectBodies_get isSelect.codes).1] at inside
    simp [inside]

omit [Natives] in
theorem raise_exchange {error : RuntimeError} {next : Next} {world after : World}
    (raised : Step.raise inner error world = .done next after) : after.exchange = world.exchange := by
  cases raised
  rfl

omit [Natives] in
theorem goto_exchange {position : Nat} {next : Next} {world after : World}
    (gone : Step.goto inner position world = .done next after) : after.exchange = world.exchange := by
  cases gone
  rfl

theorem Select.Of.enters (isSelect : select.Of scope here labels clauses span lines)
    (proper : ProperIf True (CommClause.headsOf clauses))
    (isScope : ctx.scope = select.frame :: scope) (sameLayers : ctx.layers = before.layers)
    (among : observer.Among course ctx out targets start floor inner blocks (select.finish here) goes
      leads)
    (carries : course.program.Carries targets (select.dispatch here + 1)
      (ClauseCode.join (select.finish here) select.codes).lines)
    (isSealed : ∀ value flag, select.parked = some (value, flag) →
      value.slotClass = .object ∧ flag.slotClass = .word ∧ flag.type = .bool ∧
        ∃ layer : Layer, ctx.layers[0]? = some layer ∧ value ∈ layer.level.sealed ∧
          flag ∈ layer.level.sealed)
    (suits : ∀ comm receive, select.comms[index]? = some (some (comm, receive)) →
      Suits now.shape before.scope receive received)
    (isCode : select.codes[index]? = some code)
    (busy : course.Busy start observer.task floor inner blocks ctx.layers now)
    (quiet : now.Quiet observer.task) :
    ∃ last : Config True,
      (Step.park inner select.parked received >>= fun _ => Step.goto inner code.start) now.world =
        .done (last.world.instr? inner, inner) last.world ∧
      now.Advances observer.task last ∧
      observer.Sees fuel inner (last.world.instr? inner) last fun moments halt =>
        ∃ moment rest, moments = moment :: rest ∧ moment.world.exchange = now.world.exchange ∧
          RunsClause select scope clauses observer.host (Config.Others True observer.task) inner
            goes leads
            received index moments halt := by
  obtain ⟨middle, layer, rest, parks, first, quiet, busy, serves, held, shape, exchange⟩ :=
    Select.parks isSealed among.plain busy quiet received
  obtain ⟨last, gone, second, busy, quiet, shape', ip, -⟩ := busy.goto quiet code.start
  refine ⟨last, (Run.bind_done parks _).trans gone, first.trans second, ?_⟩
  have sees : observer.Sees fuel inner (last.world.instr? inner) last
      (RunsClause select scope clauses observer.host (Config.Others True observer.task) inner goes leads
        received index) :=
    isSelect.runsClause proper isScope sameLayers among carries busy serves held
      (by rw [shape', shape]; exact suits) isCode quiet ip
  obtain ⟨instr, isNext⟩ : ∃ instr, last.world.instr? inner = some instr := by
    obtain ⟨isBody, isJump⟩ := (selectBodies_row isSelect.codes).get carries isCode
    rw [busy.within.instr?, ip]
    cases isLines : code.body.lines with
    | nil =>
      rw [Fragment.length_lines, isLines] at isJump
      exact ⟨_, isJump⟩
    | cons line lines =>
      rw [isLines] at isBody
      exact ⟨_, isBody.head⟩
  rw [isNext] at sees ⊢
  refine sees.headed.mono ?_
  rintro moments halt ⟨⟨others, rfl⟩, seen⟩
  exact ⟨_, others, rfl, (goto_exchange gone).trans exchange, seen⟩

theorem Select.Of.selects (isSelect : select.Of scope here labels clauses span lines)
    (proper : ProperIf True (CommClause.headsOf clauses))
    (isBefore : before.scope = { owned := select.owned, loop := some ⟨false, labels⟩ } :: scope)
    (isScope : ctx.scope = select.frame :: scope) (sameLayers : ctx.layers = before.layers)
    (among : observer.Among course ctx out targets start floor inner blocks (select.finish here) goes
      leads)
    (carries : course.program.Carries targets (select.dispatch here + 1)
      (ClauseCode.join (select.finish here) select.codes).lines)
    (isDispatch : course.program.instr? (select.dispatch here) = some select.instr)
    (isSealed : ∀ value flag, select.parked = some (value, flag) →
      value.slotClass = .object ∧ flag.slotClass = .word ∧ flag.type = .bool ∧
        ∃ layer : Layer, ctx.layers[0]? = some layer ∧ value ∈ layer.level.sealed ∧
          flag ∈ layer.level.sealed)
    (busy : course.Busy start observer.task floor inner blocks ctx.layers now)
    (quiet : now.Quiet observer.task) (ip : now.world.ip inner = select.dispatch here) :
    observer.Sees fuel inner (now.world.instr? inner) now
      (Comes inner (select.dispatch here) (Selects select scope clauses observer.host
        (Config.Others True observer.task) inner goes leads)) := by
  let spot : Spot True := ⟨course, start, observer.task, floor, inner, blocks, before,
    select.dispatch here⟩
  have poised : spot.Poised now := ⟨sameLayers ▸ busy, quiet, ip⟩
  obtain ⟨received, typed⟩ := selectComms_typed clauses proper before select.comms
    (isBefore ▸ isSelect.comms)
  have many : (select.codes.map (·.start)).length = select.comms.length := by
    rw [List.length_map, (selectBodies_get isSelect.codes).1, selectComms_length isSelect.comms]
  obtain ⟨elems, commsTyped, each⟩ := @SelectTyped.numbered _ _ _ _ typed before rfl _ many
  refine .runs (by rw [busy.within.instr?, ip, isDispatch]) ip fun less isLess => ?_
  have safe := (Machine.watchedCall_safe .never among.host less).1
  have evaluates : spot.Acts
      (evalComms (Machine.call observer.host less) inner (select.targets.map (·.1))) now _ :=
    .of_meets poised (evalComms_meets safe commsTyped poised.hosts)
  refine @Observer.Leads.bind _ _ _ _ _ _ _ spot _ _ _ rfl evaluates
    (fun exhausts => .stuck (evalComms_stalls exhausts)) ?_ fun _ _ _ _ => .failed
  rintro middle cases poised - ⟨sound, receives⟩ prepared
  refine Observer.Leads.mono ?_ fun _ _ => .prepared (evalComms_prepares prepared)
  rw [isSelect.default_isSome]
  have communicates : spot.Acts (Run.select less cases select.default.isSome) middle _ :=
    .of_meets poised (Run.select_meets poised.quiet sound)
  refine @Observer.Leads.bind _ _ _ _ _ _ _ spot _ _ _ rfl communicates
    (fun exhausts => .stuck fun undisturbed => Run.select_lasts undisturbed exhausts) ?_
    fun _ _ _ _ finishes raised => .failed (fun undisturbed => Run.select_decides undisturbed finishes)
      raised (raise_exchange raised)
  intro after selected poised _ chosen finishes
  have busy : course.Busy start observer.task floor inner blocks ctx.layers after :=
    sameLayers ▸ poised.busy
  cases selected with
  | case number found =>
    obtain ⟨elem, isElem, isReceived⟩ := chosen.partner receives
    obtain ⟨entry, index, receive, isEntry, isComm, isStart, count, typed⟩ := each number elem isElem
    rw [List.getElem?_map, Option.map_eq_some_iff] at isStart
    obtain ⟨code, isCode, sameStart⟩ := isStart
    have suits : ∀ comm receive, select.comms[index]? = some (some (comm, receive)) →
        Suits after.shape before.scope receive found := by
      intro comm other isOther
      obtain ⟨-, rfl⟩ := Prod.mk.inj (Option.some.inj (Option.some.inj (isComm.symm.trans isOther)))
      exact ⟨elem, typed, isReceived⟩
    have position : (select.targets[number]?.map (·.2)).getD 0 = code.start := by
      unfold Select.targets
      rw [isEntry, sameStart]
      rfl
    dsimp only
    rw [position]
    obtain ⟨last, ran, advances, sees⟩ := isSelect.enters proper isScope sameLayers among carries isSealed
      suits isCode busy poised.quiet
    refine Observer.Leads.done ran advances (sees.mono ?_)
    rintro moments halt ⟨moment, rest, rfl, same, seen⟩
    exact .selected (fun undisturbed => Run.select_decides undisturbed finishes) same
      ⟨index, .of_comms isSelect.comms isComm count,
      seen⟩
  | default =>
    obtain ⟨index, isDefault⟩ := Option.isSome_iff_exists.mp chosen
    have compiled := isSelect.default
    rw [isDefault] at compiled
    obtain ⟨_, marked⟩ := defaultClause_default compiled
    rw [List.getElem?_map, Option.map_eq_some_iff] at marked
    obtain ⟨⟨node, body, clauseSpan⟩, isClause, isNone⟩ := marked
    obtain rfl : node = none := by simpa [CommClause.comm] using (Prod.mk.inj isNone).1
    obtain ⟨code, isCode, -, -⟩ := (selectBodies_get isSelect.codes).2 index _ _ _ isClause
    have noComm := selectComms_default isSelect.comms isClause rfl
    have position : (select.default.bind ((select.codes.map (·.start))[·]?)).getD 0 = code.start := by
      simp [isDefault, isCode]
    have parks : (Step.park inner select.parked none >>= fun _ => Step.goto inner code.start) =
        Step.goto inner code.start := by
      cases select.parked <;> rfl
    have suits : ∀ comm receive, select.comms[index]? = some (some (comm, receive)) →
        Suits after.shape before.scope receive none := by
      intro comm receive isComm
      cases noComm.symm.trans isComm
    dsimp only
    rw [position, ← parks]
    obtain ⟨last, ran, advances, sees⟩ := isSelect.enters proper isScope sameLayers among carries isSealed
      suits isCode busy poised.quiet
    refine Observer.Leads.done ran advances (sees.mono ?_)
    rintro moments halt ⟨moment, rest, rfl, same, seen⟩
    exact .selected (fun undisturbed => Run.select_decides undisturbed finishes) same
      ⟨index, _, isClause, rfl, seen⟩

theorem Select.Of.shows {ctx : Ctx True} {env : EnvRef}
    (isSelect : select.Of ctx.scope here labels clauses span lines)
    (proper : ProperIf True (CommClause.headsOf clauses))
    (enters : observer.Enters course ctx targets here lines start floor env blocks now) :
    observer.Sees fuel env (now.world.instr? env) now
      (select.Shows ctx.scope clauses observer.host (Config.Others True observer.task) targets here
        (here + lines.length) env) := by
  obtain ⟨declares, -, -⟩ := parkReceived_level isSelect.parked
  obtain ⟨isParked, seals⟩ := parkReceived_sealed isSelect.parked
  obtain ⟨level, levelFrame, owned, isSealed, inside⟩ :=
    @Declaring.entered _ _ _ _ ctx.lasting _ _ select.frame _ (fun level => ∀ value flag,
      select.parked = some (value, flag) → (value ∈ level.sealed ∧ value.slotClass = .object) ∧
        flag ∈ level.sealed ∧ flag.slotClass = .word ∧ flag.type = .bool)
      (@Declaring.empty _ here ctx.lasting.scope { owned := select.owned }) enters.around_lasting
      fun level same => by
        obtain ⟨mid, midFrame, grows⟩ := level.exists_reframed
          { owned := select.owned, loop := some ⟨false, labels⟩ } (by rw [same]; rfl)
          (by rw [same]; rfl) (by rw [same]; rfl) (by rw [same]; rfl)
        obtain ⟨final, finalFrame, more, isSealed⟩ := seals mid midFrame
        exact ⟨final, finalFrame, grows.trans more, isSealed⟩
  obtain ⟨slots, first, firstScope, firstLayers, cost, serves, top, runs⟩ := inside isSelect.bare
  let before : Ctx True := first.reframe firstScope
    { owned := select.owned, loop := some ⟨false, labels⟩ } rfl rfl rfl rfl
  obtain ⟨again, againScope, againLayers⟩ := exists_clauses before rfl declares top
  obtain ⟨isOpening, isDispatch, isJoin, isClosing, isEnd⟩ := isSelect.carries enters.carries
  rw [← levelFrame] at isOpening
  refine .opens owned isOpening enters.busy_lasting enters.quiet enters.ip ?_
  intro less isLess later inner sameEnv busy quiet ip
  have sameLayers : again.layers = first.layers := againLayers
  have plain : ∀ layer ∈ again.layers, layer.parked = [] ∧ layer.held = [] := by
    rw [sameLayers, firstLayers]
    exact stored_plain slots (entering_plain level ctx.plain_lasting)
  have deep : course.base < ctx.lasting.layers.length := enters.around_lasting.deep
  have lastCost : select.frame.cost = Frame.cost { owned := select.owned } := by
    simp [Frame.cost, declares.owned]
  have among := enters.among againScope declares.loop declares.func
    (by rw [sameLayers, lastCost]; exact serves) plain sameEnv isClosing isEnd
  have sealedTop : ∀ value flag, select.parked = some (value, flag) → value.slotClass = .object ∧
      flag.slotClass = .word ∧ flag.type = .bool ∧ ∃ layer : Layer, again.layers[0]? = some layer ∧
        value ∈ layer.level.sealed ∧ flag ∈ layer.level.sealed := by
    intro value flag parked
    obtain ⟨⟨sealedValue, isObject⟩, sealedFlag, isWord, isBool⟩ := isSealed value flag parked
    have isOwned : level.frame.owned = true := by
      rw [owned, ← isParked, parked]
      rfl
    refine ⟨isObject, isWord, isBool, { level, ready := slots }, ?_, sealedValue, sealedFlag⟩
    rw [sameLayers, firstLayers, entering, if_pos isOwned, stored, List.append_nil]
    rfl
  have busyHere : course.Busy start observer.task floor inner
      (if select.owned then inner :: blocks else blocks) again.layers later := by
    rw [sameLayers]
    obtain ⟨_, -, opens⟩ :=
      runs 0 (Nat.zero_lt_of_lt (Nat.lt_of_lt_of_le deep (length_entering _ _)))
    exact busy.serves opens.serves
  exact isSelect.selects proper rfl againScope againLayers among isJoin isDispatch sealedTop busyHere
    quiet ip

omit [Natives] in
theorem Select.Of.runsClause_avoids {host : Host} {others : World → World → Prop}
    (isSelect : select.Of scope here labels clauses span lines)
    (ends : Avoids (select.dispatch here) goes)
    (exits : ∀ level kind, Avoids (select.dispatch here) (leads level kind)) :
    Avoids (select.dispatch here)
      (RunsClause select scope clauses host others inner goes leads received index) := by
  rintro moments halt ⟨node, body, clauseSpan, code, isClause, isCode, compiled, seen⟩
  obtain ⟨after, -⟩ := (selectBodies_row isSelect.codes).bounds isCode
  have passes {first : Nat} (later : code.start ≤ first)
      (inside : first ≤ code.start + code.body.length) :
      Avoids (select.dispatch here)
        (Passes inner first (code.start + code.body.length) (fun _ => True) (fun _ => goes)
          (Leaving code.start code.body.lines leads)) :=
    .passes (.inl (by omega)) inside (fun _ => ends) (.leaving exits)
  have whole := passes (Nat.le_refl _) (Nat.le_add_right _ _)
  obtain ⟨rfl, isNone⟩ | ⟨statement, ⟨comm, receive⟩, rfl, compiledComm, isComm⟩ :=
    selectComms_at isSelect.comms isClause
  · rw [isNone] at seen
    exact whole moments halt seen
  rw [isComm] at seen compiled
  cases receive with
  | discard => exact whole moments halt seen
  | define value flag elem =>
    obtain ⟨takes, named⟩ := (comm_takes compiledComm body clauseSpan).resolve_left (by simp)
    obtain ⟨valueSlot, flagSlot, isParked⟩ := isSelect.parks isClause takes
    obtain ⟨got, ok, -, seen⟩ := seen
    split at seen
    · rename_i owned
      obtain ⟨slots, grown, piece, -, seen⟩ := seen
      rw [isParked] at compiled
      obtain ⟨_, _, _, -, isLines⟩ := selectBody_defines owned (named _ _ _ rfl) compiled
      have length : 3 ≤ code.body.length := by
        rw [Fragment.length_lines, isLines]
        simp
      exact Avoids.binds (by omega) (by omega) ends (.leaving exits) moments halt seen
    · exact whole moments halt seen
  | assign place flag =>
    obtain ⟨takes, -⟩ := (comm_takes compiledComm body clauseSpan).resolve_left (by simp)
    obtain ⟨valueSlot, flagSlot, isParked⟩ := isSelect.parks isClause takes
    obtain ⟨got, ok, -, seen⟩ := seen
    rw [isParked] at compiled
    simp only [selectBody, Option.map_some, Option.join_some, Compiled.bind_eq_ok,
      Compiled.pure_eq_ok] at compiled
    obtain ⟨piece, -, isBody⟩ := compiled
    have length : 1 ≤ code.body.length := by
      rw [Fragment.length_lines, ← isBody]
      simp
    refine Avoids.comes (by omega) (fun _ => .works (fun _ _ => .does (fun _ _ => ?_) _) _) moments halt
      seen
    exact fun rest halt seen => passes (by omega) (by omega) rest halt seen.2

omit [Natives] in
theorem Select.Of.runsClause_few {host : Host} {others : World → World → Prop} {count : Nat}
    (isSelect : select.Of scope here labels clauses span lines)
    (ends : Few (select.parts here) (count + 2) goes)
    (exits : ∀ level kind, Few (select.parts here) (count + 2) (leads level kind)) :
    Few (select.parts here) (count + 6)
      (RunsClause select scope clauses host others inner goes leads received index) := by
  rintro moments halt ⟨node, body, clauseSpan, code, isClause, isCode, compiled, seen⟩
  obtain ⟨after, before⟩ := (selectBodies_row isSelect.codes).bounds isCode
  have isInside (position : Nat) (above : code.start ≤ position)
      (below : position < code.start + code.body.length) : select.parts here position = true := by
    have later : select.dispatch here < position := by omega
    have sooner : position < select.finish here := by
      simp only [ClauseCode.next] at before
      exact Nat.lt_of_lt_of_le (by omega) before
    simp [Select.parts, later, sooner]
  have leaving (moment : Moment) : Few (select.parts here) (count + 2)
      (Leaving code.start code.body.lines leads moment) := .leaving exits moment
  have passes {first : Nat} (later : code.start ≤ first) : Few (select.parts here) (count + 3)
      (Passes inner first (code.start + code.body.length) (fun _ => True) (fun _ => goes)
        (Leaving code.start code.body.lines leads)) :=
    .passes (fun position above => isInside position (Nat.le_trans later above)) (fun _ => ends)
      fun moment => (leaving moment).mono (Nat.le_succ _)
  have whole := (passes (Nat.le_refl _)).mono (Nat.le_add_right _ 3)
  obtain ⟨rfl, isNone⟩ | ⟨statement, ⟨comm, receive⟩, rfl, compiledComm, isComm⟩ :=
    selectComms_at isSelect.comms isClause
  · rw [isNone] at seen
    exact whole moments halt seen
  rw [isComm] at seen
  cases receive with
  | discard => exact whole moments halt seen
  | define value flag elem =>
    obtain ⟨got, ok, -, seen⟩ := seen
    split at seen
    · obtain ⟨slots, grown, piece, -, seen⟩ := seen
      exact Few.binds isInside ends (fun moment => (leaving moment).mono (Nat.le_add_right _ 2)) moments
        halt seen
    · exact whole moments halt seen
  | assign place flag =>
    obtain ⟨got, ok, -, seen⟩ := seen
    refine Few.comes (n := count + 5) (fun _ => .works (fun _ _ => .does (fun _ _ => ?_) _) _) moments
      halt seen
    exact fun rest halt seen => ((passes (Nat.le_succ _)).mono (Nat.le_add_right _ 2)) rest halt seen.2

section Shows

variable {host : Host} {others : World → World → Prop} {goes : Sight} {leads : Nat → ExitKind → Sight}

omit [Natives] in
theorem Select.Of.selects_avoids (isSelect : select.Of scope here labels clauses span lines)
    (ends : Avoids (select.dispatch here) goes)
    (exits : ∀ level kind, Avoids (select.dispatch here) (leads level kind)) (world : World) :
    Avoids (select.dispatch here) (Selects select scope clauses host others inner goes leads world) := by
  intro moments halt seen
  cases seen with
  | failed | stuck => simp
  | prepared _ seen =>
    cases seen with
    | failed | stuck => simp
    | @selected selected _ _ _ _ _ _ seen =>
      cases selected with
      | case number received =>
        obtain ⟨index, -, seen⟩ := seen
        exact isSelect.runsClause_avoids ends exits _ _ seen
      | default =>
        obtain ⟨index, _, -, -, seen⟩ := seen
        exact isSelect.runsClause_avoids ends exits _ _ seen

omit [Natives] in
theorem Select.Of.selects_few {n : Nat} (isSelect : select.Of scope here labels clauses span lines)
    (ends : Few (select.parts here) (n + 2) goes)
    (exits : ∀ level kind, Few (select.parts here) (n + 2) (leads level kind)) (world : World) :
    Few (select.parts here) (n + 6)
      (Selects select scope clauses host others inner goes leads world) := by
  intro moments halt seen
  cases seen with
  | failed => exact Nat.le_trans (Few.single _) (Nat.le_add_left _ _)
  | stuck => exact Nat.zero_le _
  | prepared _ seen =>
    cases seen with
    | failed => exact Nat.le_trans (Few.single _) (Nat.le_add_left _ _)
    | stuck => exact Nat.zero_le _
    | @selected selected _ _ _ _ _ _ seen =>
      cases selected with
      | case number received =>
        obtain ⟨index, -, seen⟩ := seen
        exact isSelect.runsClause_few ends exits _ _ seen
      | default =>
        obtain ⟨index, _, -, -, seen⟩ := seen
        exact isSelect.runsClause_few ends exits _ _ seen

omit [Natives] in
theorem Select.Of.once {env : EnvRef} {stop : Nat} {moments : List Moment} {halt : Halt}
    (isSelect : select.Of scope here labels clauses span lines)
    (leads : ∀ level kind, level < scope.length → targets level kind ≠ select.dispatch here)
    (after : select.finish here ≤ stop)
    (seen : select.Shows scope clauses host others targets here stop env moments halt) :
    Once (select.dispatch here) moments := by
  have later := isSelect.dispatch_lt
  have resumes (inner : EnvRef) : Avoids (select.dispatch here)
      (Resumes select.owned env inner (select.finish here) stop) := .resumes (by omega) (by omega)
  refine Opens.once (Nat.le_refl _) (fun inner moments halt seen => ?_) seen
  exact seen.once (isSelect.selects_avoids (resumes inner) (.breaks leads (resumes inner)))

omit [Natives] in
theorem Select.Of.few {env : EnvRef} {stop : Nat}
    (isSelect : select.Of scope here labels clauses span lines) :
    Few (select.parts here) 8 (select.Shows scope clauses host others targets here stop env) :=
  Few.opens fun _ => .comes (isSelect.selects_few (n := 0) .resumes (.breaks .resumes))

end Shows

end Runs

section Result

variable [Natives] {outer : Scope} {frame : Frame} {here : Nat} {labels : List String}
  {clauses : List CommClause} {span : Span} {piece : Piece}

end Result

end Compile

end MiniGo
