import MiniGo.Proofs.Abreast
import MiniGo.Proofs.Endings
import MiniGo.Proofs.Rendering
/-!
Compilation preserves meaning. The program that the body of a function is compiled to is executed, from
its first instruction on, with the same outcome as its tree is evaluated with: the two end or fail alike,
wait alike, and leave behind states that differ in the positions of environments only.
-/

namespace MiniGo

section Cutting

variable {α β : Type} {early late : Prop}

theorem Run.Cut.before {run other : Run α} (cut : run.Cut early late other) (next : α → Run β) :
    (run >>= next).Cut early late (other >>= next) := by
  intro world
  show (Run.bind run next world).Cut early late (Run.bind other next world)
  rw [Run.bind_apply, Run.bind_apply]
  have cut := cut world
  generalize run world = first, other world = second at cut
  induction cut with
  | refl outcome => exact .refl _
  | await _ ih => exact .await ih
  | early may => exact .early may
  | late may => exact .late may

theorem Outcome.Agree.cut {pair : Comparison} {state : pair.State}
    {post : pair.State → Except RuntimeError α → Except RuntimeError β → Prop} {first : Outcome α}
    {second third : Outcome β} (agree : first.Agree pair post state second)
    (cut : second.Cut pair.early pair.late third) (apart : ¬(pair.early ∧ pair.late)) :
    first.Agree pair post state third := by
  induction agree generalizing third with
  | done goes holds ends =>
    cases cut with
    | refl => exact .done goes holds ends
    | late may => exact .late may
  | fail goes holds ends =>
    cases cut with
    | refl => exact .fail goes holds ends
    | late may => exact .late may
  | await goes holds resumes ih =>
    cases cut with
    | refl => exact .await goes holds resumes
    | await same =>
      exact .await goes holds fun later left right waits found =>
        ih later left right waits found (same right)
    | late may => exact .late may
  | early may => exact .early may
  | late may =>
    cases cut with
    | refl => exact .late may
    | early mayNot => exact absurd ⟨mayNot, may⟩ apart
    | late => exact .late may
  | exhausted =>
    cases cut with
    | refl => exact .exhausted
    | early may => exact .early may
    | late => exact .exhausted

variable {pair : Comparison} {state : pair.State}
  {post : pair.State → Except RuntimeError α → Except RuntimeError β → Prop}

theorem Outcome.Agree.of_done {value : α} {world : World} {other : Outcome β}
    (agree : (Outcome.done value world).Agree pair post state other) (whole : ¬pair.late) :
    ∃ now found beside, other = .done found beside ∧ pair.holds now world beside ∧
      post now (.ok value) (.ok found) := by
  cases agree with
  | done _ holds ends => exact ⟨_, _, _, rfl, holds, ends⟩
  | late may => exact absurd may whole

theorem Outcome.Agree.of_done_right {found : β} {beside : World} {outcome : Outcome α}
    (agree : outcome.Agree pair post state (.done found beside)) (whole : ¬pair.early) :
    ∃ now value world, outcome = .done value world ∧ pair.holds now world beside ∧
      post now (.ok value) (.ok found) := by
  cases agree with
  | done _ holds ends => exact ⟨_, _, _, rfl, holds, ends⟩
  | early may => exact absurd may whole

end Cutting

def Completion.failure? : Completion → Option RuntimeError
  | .failed error => some error
  | _ => none

theorem Counter.stop_conclude (ending : Ending) :
    stop ending.env 0 ending.completion.failure? >>= conclude = (do
      Run.modify (·.drop ending.env)
      match ending.completion with
      | .failed error => Run.fail error
      | _ => pure ()) := by
  obtain ⟨completion, env⟩ := ending
  cases completion <;> rfl

/-- A whole program that means an action: the counter machine executes it as the action is executed, if
it has no more fuel than there are rounds, or as much as the action costs. -/
theorem Means.executes {lines : List Line} {action : Action} {program : Program}
    (means : Means (fun _ _ => none) 0 lines action) (same : program.lines = lines.toArray)
    (early late : Prop) (call : Caller) (rounds : Nat) :
    ∃ cost, ∀ fuel root, (early ∧ fuel ≤ rounds) ∨ (late ∧ cost ≤ fuel) →
      (Counter.exec program call fuel root).Cut early late (action.execute call rounds root) := by
  obtain ⟨stood, defers⟩ := program
  obtain rfl : stood = lines.toArray := same
  let setting : Setting := ⟨early, late, ⟨lines.toArray, defers⟩, call, rounds⟩
  obtain ⟨cost, realizes⟩ :=
    means.realizes setting (fun _ _ => 0) (ProgramOf.holds_self lines defers)
  -- After the last line, one more round of the machine finds that nothing is to run next.
  have ends : setting.Continues (fun _ _ => none) (fun _ _ => 0) (0 + lines.length) 0 rounds 1
      fun ending => Counter.stop ending.env 0 ending.completion.failure? := by
    refine ⟨fun env fuel spare => ?_, by simp, fun _ => .refl _, fun _ _ => .refl _⟩
    cases fuel with
    | zero =>
      rcases spare with ⟨may, -⟩ | ⟨-, impossible⟩
      · exact fun world => .early may
      · omega
    | succ fuel =>
      have none : Program.instr? setting.program (0 + lines.length) = none := by
        simp [Program.instr?, setting]
      rw [Setting.run, Counter.run, none]
      exact .refl _
  refine ⟨cost + 1, fun fuel root spare => ?_⟩
  have runs := (realizes 0 rounds 1 _ (Nat.le_refl _) ends root fuel spare).before Counter.conclude
  rw [Run.bind_assoc, Run.bind_congr Counter.stop_conclude] at runs
  exact .after _ fun _ => runs

variable [Natives] {strict : Prop}

/-- Two computations, each bounded by a number, give the same from a state. Whatever the first one does
before it is out of fuel, the second one does with any bound that is not smaller; and whatever the second
one does before it is broken off, the first one does with enough fuel. -/
structure Config.Equates {α : Type} (start : Config strict) (task : ThreadRef)
    (run meaning : Nat → Run α) :
    Prop where
  sound : ∀ fuel bound, fuel ≤ bound →
    start.Matches task True False (run fuel) (meaning bound) start.world
  complete : ∀ bound, ∃ enough, ∀ fuel, enough ≤ fuel →
    start.Matches task False True (run fuel) (meaning bound) start.world

namespace Config.Equates

variable {α : Type} {start : Config strict} {task : ThreadRef} {run meaning : Nat → Run α}

/-- One of the two ends if the other does, with the same result or failure, and in the same state but
for positions. -/
theorem ends_iff (equates : start.Equates task run meaning) (result : Except RuntimeError α)
    (world : World) :
    (∃ fuel later, Run.attempt (run fuel) start.world = .done result later ∧
        later.unplaced = world) ↔
      ∃ bound later, Run.attempt (meaning bound) start.world = .done result later ∧
        later.unplaced = world := by
  have attempted {early late : Prop} {fuel bound : Nat}
      (agree : start.Matches task early late (run fuel) (meaning bound) start.world) :
      start.Matches task early late (Run.attempt (run fuel)) (Run.attempt (meaning bound))
        start.world := by
    rw [Config.Matches, Run.attempt_apply, Run.attempt_apply]
    exact (agree.mono fun _ _ _ same => congrArg Except.ok same).attempt
  constructor
  · rintro ⟨fuel, later, ran, rfl⟩
    have agree := attempted (equates.sound fuel fuel (Nat.le_refl _))
    rw [Config.Matches, ran] at agree
    obtain ⟨now, _, beside, same, ⟨-, drift⟩, ⟨⟩⟩ := agree.of_done id
    exact ⟨fuel, beside, same, drift.unplaced.symm⟩
  · rintro ⟨bound, beside, ran, rfl⟩
    obtain ⟨enough, complete⟩ := equates.complete bound
    have agree := attempted (complete enough (Nat.le_refl _))
    rw [Config.Matches, ran] at agree
    obtain ⟨now, _, later, same, ⟨-, drift⟩, ⟨⟩⟩ := agree.of_done_right id
    exact ⟨enough, later, same, drift.unplaced⟩

end Config.Equates

/-- Compilation preserves meaning. If the body of a function is put together, to any depth, from the
statements that have a meaning here, and is compiled, then it has a meaning, and its program is executed
with the same outcome as its tree is evaluated with: in any environment that the first instruction can be
executed in, and for any call of a function value with this program, which makes such an environment. -/
theorem compilation_preserves_meaning {scope : Scope} {head : FuncHead} {span : Span} {body : Block}
    {template : Template} (structured : body.structured = true)
    (compiled : Compile.function scope head span body = .ok template) :
    ∃ action, Meaning.function scope head span body = .ok action ∧
      ∀ {host : Host} {start : Config False} {task : ThreadRef}, host.Safe False →
        (∀ native ∈ host, HostFunction.Unplaced native) → start.Quiet task →
        (∀ root, template.Ready start task root →
          start.Equates task (fun fuel => Machine.exec host fuel root)
            fun bound => action.execute (Machine.call host bound) bound root) ∧
        ∀ {thread : ThreadRef} {outer : EnvRef} {args : List Value},
          start.shape.Owns task thread → (∀ value ∈ args, value.Known start.shape) →
          (FuncBody.closure template outer).Known start.shape template.signature →
          start.Equates task
            (fun fuel => Machine.invoke (Machine.exec host fuel) template outer thread args)
            fun bound => Machine.invoke (action.execute (Machine.call host bound) bound) template outer
              thread args := by
  obtain ⟨action, lines, means, same, renders⟩ := Compile.function_renders structured compiled
  have plain (position : Nat) (instr : Instr)
      (found : Program.instr? template.program position = some instr) : instr.isPlain = true := by
    obtain ⟨line, isLine, rfl⟩ := Option.map_eq_some_iff.mp found
    rw [same] at isLine
    exact renders.plain line (List.mem_of_getElem? (by simpa using isLine))
  refine ⟨action, means, fun {host start task} hostSafe natives quiet => ?_⟩
  have sound {now : Config False} {root : EnvRef} {beside : World} (fuel bound : Nat)
      (less : fuel ≤ bound) (quiet : now.Quiet task) (ready : template.Ready now task root)
      (unplaced : now.world.unplaced = beside.unplaced) :
      now.Matches task True False (Machine.exec host fuel root)
        (action.execute (Machine.call host bound) bound root) beside := by
    obtain ⟨_, executes⟩ := renders.executes same True False (Machine.call host bound) bound
    have bounds : Counter.Bounds True False fuel fuel bound := .inl ⟨trivial, Nat.le_refl fuel, less⟩
    have agree := Machine.exec_matches natives hostSafe plain bounds quiet ready unplaced
    exact agree.cut (executes fuel root (.inl ⟨trivial, less⟩) beside) fun both => both.2
  have complete (bound : Nat) : ∃ enough, ∀ fuel, enough ≤ fuel →
      ∀ {now : Config False} {root : EnvRef} {beside : World}, now.Quiet task →
      template.Ready now task root → now.world.unplaced = beside.unplaced →
      now.Matches task False True (Machine.exec host fuel root)
        (action.execute (Machine.call host bound) bound root) beside := by
    obtain ⟨cost, executes⟩ := renders.executes same False True (Machine.call host bound) bound
    refine ⟨cost + bound + 1, fun fuel many {now root beside} quiet ready unplaced => ?_⟩
    have bounds : Counter.Bounds False True fuel cost bound := .inr ⟨trivial, many⟩
    have agree := Machine.exec_matches natives hostSafe plain bounds quiet ready unplaced
    exact agree.cut (executes cost root (.inr ⟨trivial, Nat.le_refl _⟩) beside) fun both => both.1
  constructor
  · intro root ready
    refine ⟨fun fuel bound less => sound fuel bound less quiet ready rfl, fun bound => ?_⟩
    obtain ⟨enough, agrees⟩ := complete bound
    exact ⟨enough, fun fuel many => agrees fuel many quiet ready rfl⟩
  · intro thread outer args own known isKnown
    refine ⟨fun fuel bound less => ?_, fun bound => ?_⟩
    · exact Machine.invoke_matches quiet own known False.elim isKnown (sound fuel bound less)
    · obtain ⟨enough, agrees⟩ := complete bound
      exact ⟨enough, fun fuel many =>
        Machine.invoke_matches quiet own known False.elim isKnown (agrees fuel many)⟩

/-- A loop with a switch in it, left and resumed by its label from inside the switch:
`outer: for i := 0; i < 9; i++ { switch i { case 0: fallthrough; default: println(i); continue outer;
case 2: break outer } }; println("done")`. -/
def resumedLoop : Block :=
  let i : Expr := .ident ⟨"i", {}⟩
  let outer : Option Ident := some ⟨"outer", {}⟩
  let print (value : Expr) : Stmt := .expr (.call (.ident ⟨"println", {}⟩) [value] false {})
  let clauses : List CaseClause :=
    [.mk (some [.int 0 {}]) [.branch .fallthrough none {}] {},
      .mk none [print i, .branch .continue outer {}] {},
      .mk (some [.int 2 {}]) [.branch .break outer {}] {}]
  .mk [.labeled ⟨"outer", {}⟩ (.forLoop (some (.assign [i] .define [.int 0 {}] {}))
    (some (.binary .lt i (.int 9 {}) {})) (some (.incDec i true {}))
    (.mk [.switch none (some i) clauses {}] {}) {}) {}, print (.string "done" {})] {}

def bareScope : Scope := [{ owned := true }]

def bareWorld : World :=
  ((Interpreter.new { captureOutput := true }).world.acquire ⟨0⟩ none ⟨#[], false⟩ 0 0 0).2

def Outcome.prints (text : String) : Outcome (List Value) → Bool
  | .done [] world => world.output == text
  | _ => false

omit [Natives] in
theorem Outcome.prints_eq_true {text : String} {outcome : Outcome (List Value)}
    (prints : outcome.prints text = true) :
    ∃ world, outcome = .done [] world ∧ world.output = text := by
  unfold Outcome.prints at prints
  split at prints
  · next world => exact ⟨world, rfl, by simpa using prints⟩
  · cases prints

omit [Natives] in
theorem resumedLoop_compiled : ∃ template : Template,
    Compile.function bareScope {} {} resumedLoop = .ok template ∧ template.params = [] ∧
      template.results = [] ∧
      (Machine.invoke (Machine.exec [] 100) template ⟨0⟩ ⟨0⟩ [] bareWorld).prints "0\n1\ndone\n" := by
  have compiled : (Compile.function bareScope {} {} resumedLoop).toOption.any
      (fun template => template.params.isEmpty && template.results.isEmpty &&
        (Machine.invoke (Machine.exec [] 100) template ⟨0⟩ ⟨0⟩ [] bareWorld).prints
          "0\n1\ndone\n") = true := by
    decide +kernel
  cases result : Compile.function bareScope {} {} resumedLoop with
  | error error => simp [result, Except.toOption] at compiled
  | ok template =>
    refine ⟨template, rfl, ?_⟩
    simpa [result, Except.toOption, and_assoc] using compiled

/-- What is known of a file with no variables, and of a function value in it. -/
def bareCtx : Ctx False where
  scope := bareScope
  layers := [{ level := .empty { owned := true } rfl rfl rfl }]
  fits := .owned rfl ⟨rfl, List.suffix_refl _, Nat.le_refl _, Nat.le_refl _⟩ False.elim .nil

theorem bareWorld_known {template : Template}
    (compiled : Compile.function bareScope {} {} resumedLoop = .ok template) :
    ∃ start : Config False, start.world = bareWorld ∧ start.Quiet ⟨0⟩ ∧
      (FuncBody.closure template ⟨0⟩).Known start.shape template.signature := by
  obtain ⟨now, sound⟩ := @Interpreter.new_sound _ False { captureOutput := true } False.elim
  obtain ⟨start, acquired, calm, isEnv, -, -⟩ :=
    @Config.acquire _ _ now ⟨0⟩ none ⟨#[], false⟩ 0 (.empty { owned := true } rfl rfl rfl)
      (now.owner_isSome sound.quiet.isTask (.inl rfl)) (by simp)
  have first : now.world = (Interpreter.new { captureOutput := true }).world := sound.world.symm
  rw [first] at acquired isEnv
  refine ⟨start, (congrArg (·.2) acquired).symm, calm.quiet sound.quiet, rfl, bareCtx, ?_, ?_⟩
  · exact Compile.function_typed resumedLoop False.elim False.elim bareCtx.lasting compiled
  · exact .cons isEnv rfl False.elim .nil

/-- A call of a function without parameters and results comes to an environment that its body can be
executed in. -/
theorem ready_of_known {template : Template} {start : Config False} {task : ThreadRef}
    {outer : EnvRef} (params : template.params = []) (results : template.results = [])
    (quiet : start.Quiet task)
    (known : (FuncBody.closure template outer).Known start.shape template.signature) :
    ∃ (ready : Config False) (root : EnvRef), ready.Quiet task ∧ template.Ready ready task root := by
  obtain ⟨-, ctx, typed, spans⟩ := known
  have enters := Machine.enter_meets quiet (.inl rfl) (Nat.zero_le _) (List.forall_mem_nil _) False.elim
    typed spans.lasting (by simp [Ctx.lasting, Layer.lasting])
  have ran : Machine.enter template outer task [] start.world =
      Run.update (·.acquire task (some outer) template.program 0 template.objects template.words)
        start.world := by
    unfold Machine.enter
    rw [params, results]
    rfl
  rw [Run.Meets, ran] at enters
  obtain ⟨ready, -, -, -, quiet, isReady, -⟩ := enters
  exact ⟨ready, _, quiet, isReady⟩

omit [Natives] in
theorem compilation_preserves_meaning_resumed_loop : resumedLoop.structured = true ∧
    ∃ (template : Template) (action : Action),
      Compile.function bareScope {} {} resumedLoop = .ok template ∧
      Meaning.function bareScope {} {} resumedLoop = .ok action ∧
      ∃ (_ : Natives) (start ready : Config False) (root : EnvRef),
        (ready.Quiet ⟨0⟩ ∧ template.Ready ready ⟨0⟩ root ∧
          ready.Equates ⟨0⟩ (fun fuel => Machine.exec [] fuel root)
            fun bound => action.execute (Machine.call [] bound) bound root) ∧
        start.Quiet ⟨0⟩ ∧ (FuncBody.closure template ⟨0⟩).Known start.shape template.signature ∧
        start.Equates ⟨0⟩ (fun fuel => Machine.invoke (Machine.exec [] fuel) template ⟨0⟩ ⟨0⟩ [])
          (fun bound => Machine.invoke (action.execute (Machine.call [] bound) bound) template ⟨0⟩ ⟨0⟩
            []) ∧
        ∃ bound world, Run.attempt (Machine.invoke (action.execute (Machine.call [] bound) bound) template
            ⟨0⟩ ⟨0⟩ []) start.world = .done (.ok []) world ∧ world.output = "0\n1\ndone\n" := by
  have structured : resumedLoop.structured = true := by decide
  obtain ⟨template, compiled, params, results, printed⟩ := resumedLoop_compiled
  let natives : Natives := ⟨fun _ => none⟩
  obtain ⟨action, means, preserves⟩ := compilation_preserves_meaning structured compiled
  obtain ⟨start, isWorld, quiet, known⟩ := bareWorld_known compiled
  obtain ⟨ready, root, quietReady, isReady⟩ := ready_of_known params results quiet known
  have bodies := (preserves safe_nil (by simp) quietReady).1 root isReady
  have calls := (preserves safe_nil (by simp) quiet).2 (.inl rfl) (List.forall_mem_nil _) known
  refine ⟨structured, template, action, compiled, means, natives, start, ready, root,
    ⟨quietReady, isReady, bodies⟩, quiet, known, calls, ?_⟩
  obtain ⟨world, ran, output⟩ := Outcome.prints_eq_true printed
  obtain ⟨bound, later, ended, same⟩ :=
    (calls.ends_iff (.ok []) world.unplaced).mp
      ⟨100, world, by rw [Run.attempt_apply, isWorld, ran]; rfl, rfl⟩
  exact ⟨bound, later, ended, (congrArg (·.output) same).trans output⟩

end MiniGo
