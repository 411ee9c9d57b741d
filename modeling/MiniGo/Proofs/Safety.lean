import MiniGo.Proofs.Updates
/-!
What a computation promises. A `Safe` outcome leads from sound states to sound states whatever others
do while it waits; wherever a watch stops it, the instruction about to run is one that the compiler
has put there for the environments found.
-/

namespace MiniGo

variable [Natives] {strict : Prop}

inductive RuntimeError.IsFault : RuntimeError → Prop
  | typeMismatch {message : String} : RuntimeError.IsFault (.typeMismatch message)
  | arityMismatch {expected received : Nat} : RuntimeError.IsFault (.arityMismatch expected received)
  | internal {message : String} : RuntimeError.IsFault (.internal message)
  | mapKey {kind : String} : RuntimeError.IsFault (.unsupported (kind ++ " is not a valid map key"))

def RuntimeError.Allowed (strict : Prop) (error : RuntimeError) : Prop := strict → ¬error.IsFault

/-- Code on its way: its thread, the environment it was entered with, the program, and the layers
that can be handed over to each position. -/
structure Course (strict : Prop) where
  thread : ThreadRef
  root : EnvRef
  program : Program
  /-- Environments around the root. -/
  base : Nat
  Lands : Nat → List Layer → Prop

/-- A call in progress, each instruction of which is typed. -/
structure Activation (strict : Prop) extends Course strict where
  positions : List (Ctx strict)
  exit : List Layer
  lands : Lands = MiniGo.Lands 0 (positions.map (·.layers)) exit
  laid : Compile.Lays program (positions.map Ctx.site)
  length : positions.length = program.lines.size
  typed : ∀ (index : Nat) line here, program.lines[index]? = some line →
    positions[index]? = some here →
    InstrTyped strict base Lands (fun _ _ _ => False) index here line.instr

structure Layer.Describes (layer : Layer) (config : Config strict) (ref : EnvRef)
    (known : EnvShape) : Prop where
  level : known.level = layer.level
  ready : strict → ∀ slot ∈ layer.ready, config.shape.ready ref slot
  parked : ∀ entry ∈ layer.parked, layer.level.Parks entry.1 ∧
    (strict → (config.world.load ref entry.1).Is entry.2)
  held : ∀ entry ∈ layer.held, entry.1 ∈ layer.level.sealed ∧
    config.world.load ref entry.1 = entry.2

/-- An environment of a call in progress, and the block environments that are open from there to the
root, the innermost first. -/
inductive Course.Within (course : Course strict) (config : Config strict) :
    EnvRef → List EnvRef → List Layer → Prop
  | root {known : EnvShape} {layer : Layer} {layers : List Layer} :
    config.shape.env course.root = some known →
    known.program = course.program →
    known.thread = course.thread →
    layer.Describes config course.root known →
    Spans config.shape known.outer layers →
    (∀ outer ∈ layers, outer.parked = [] ∧ outer.held = []) →
    layers.length = course.base →
    course.Within config course.root [] (layer :: layers)
  | block {env outer : EnvRef} {known : EnvShape} {blocks : List EnvRef} {layer : Layer}
      {layers : List Layer} :
    config.shape.env env = some known →
    known.program = course.program →
    known.thread = course.thread →
    layer.Describes config env known →
    known.outer = some outer →
    course.Within config outer blocks layers →
    course.Within config env (env :: blocks) (layer :: layers)

structure Thread.Explained (thread : Thread) : Prop where
  deferred : thread.signal = .defer → thread.deferred.isSome = true
  panic : thread.signal = .panic → thread.panic.isSome = true

/-- Where a run may be stopped: nothing is to run next and a signal tells why, or the instruction at
the position of the environment is to run. -/
def Config.At (config : Config strict) (env : EnvRef) (next : Option Instr) : Prop :=
  ∃ (activation : Activation strict) (blocks : List EnvRef) (layers : List Layer),
    activation.Within config env blocks layers ∧
    ((next = none ∧ (config.world.thread activation.thread).signal ≠ .none ∧
        (config.world.thread activation.thread).Explained) ∨
      ((config.world.thread activation.thread).signal = .none ∧ next = config.world.instr? env ∧
        activation.Lands (config.world.ip env) layers))

/-- From `since` on, the outcome is one of a task that does no harm, and ends as `post` says. -/
def Outcome.Safe {α : Type} (task : ThreadRef)
    (post : Config strict → Except RuntimeError α → Prop) : Config strict → Outcome α → Prop
  | since, .done value world =>
    ∃ now : Config strict, now.world = world ∧ since.Advances task now ∧ post now (.ok value)
  | since, .fail error world =>
    ∃ now : Config strict, now.world = world ∧ since.Advances task now ∧ post now (.error error)
  | since, .await _ world resume =>
    ∃ now : Config strict, now.world = world ∧ since.Advances task now ∧ now.Quiet task ∧
      ∀ later : Config strict, now.Waits task later → (resume later.world).Safe task post later
  | _, .broken .exhausted => True
  | since, .broken (.watched env next world) =>
    ∃ now : Config strict, now.world = world ∧ since.shape.Grows now.shape ∧ now.At env next

/-- What is found in the end: the environments of the task that are older than `floor` have not
moved, nothing is left for its executors, and a failure is an allowed one. -/
def Config.Ends {α : Type} (start : Config strict) (task : ThreadRef) (floor : Nat)
    (post : Config strict → α → Prop) (now : Config strict) (result : Except RuntimeError α) : Prop :=
  start.Since task floor now ∧ now.Quiet task ∧
    match result with
    | .ok value => post now value
    | .error error => error.Allowed strict

def Run.Meets {α : Type} (run : Run α) (start : Config strict) (task : ThreadRef) (floor : Nat)
    (post : Config strict → α → Prop) : Prop :=
  (run start.world).Safe task (start.Ends task floor post) start

section Rules

variable {α β : Type} {task : ThreadRef} {floor : Nat} {start : Config strict}

theorem Outcome.Safe.mono {post wider : Config strict → Except RuntimeError α → Prop}
    {outcome : Outcome α} (safe : outcome.Safe task post start)
    (implies : ∀ now result, post now result → wider now result) :
    outcome.Safe task wider start := by
  induction outcome generalizing start with
  | done value world =>
    obtain ⟨now, same, advances, ends⟩ := safe
    exact ⟨now, same, advances, implies _ _ ends⟩
  | fail error world =>
    obtain ⟨now, same, advances, ends⟩ := safe
    exact ⟨now, same, advances, implies _ _ ends⟩
  | await wait world resume ih =>
    obtain ⟨now, same, advances, quiet, resumes⟩ := safe
    exact ⟨now, same, advances, quiet, fun later waits => ih _ (resumes later waits)⟩
  | broken reason =>
    cases reason with
    | exhausted => exact trivial
    | watched env next world => exact safe

theorem Outcome.Safe.sooner {post : Config strict → Except RuntimeError α → Prop}
    {outcome : Outcome α} {later : Config strict} (safe : outcome.Safe task post later)
    (advances : start.Advances task later) : outcome.Safe task post start := by
  cases outcome with
  | done value world =>
    obtain ⟨now, same, goes, ends⟩ := safe
    exact ⟨now, same, advances.trans goes, ends⟩
  | fail error world =>
    obtain ⟨now, same, goes, ends⟩ := safe
    exact ⟨now, same, advances.trans goes, ends⟩
  | await wait world resume =>
    obtain ⟨now, same, goes, quiet, resumes⟩ := safe
    exact ⟨now, same, advances.trans goes, quiet, resumes⟩
  | broken reason =>
    cases reason with
    | exhausted => exact trivial
    | watched env next world =>
      obtain ⟨now, same, grows, reached⟩ := safe
      exact ⟨now, same, advances.grows.trans grows, reached⟩

theorem Outcome.Safe.grows {post : Config strict → Except RuntimeError α → Prop}
    {outcome : Outcome α} (safe : outcome.Safe task post start) :
    outcome.Safe task (fun now result => start.shape.Grows now.shape ∧ post now result) start := by
  suffices ∀ shape : Shape strict, shape.Grows start.shape →
      outcome.Safe task (fun now result => shape.Grows now.shape ∧ post now result) start from
    this _ (.refl _)
  intro shape grown
  induction outcome generalizing start with
  | done value world =>
    obtain ⟨now, same, advances, ends⟩ := safe
    exact ⟨now, same, advances, grown.trans advances.grows, ends⟩
  | fail error world =>
    obtain ⟨now, same, advances, ends⟩ := safe
    exact ⟨now, same, advances, grown.trans advances.grows, ends⟩
  | await wait world resume ih =>
    obtain ⟨now, same, advances, quiet, resumes⟩ := safe
    refine ⟨now, same, advances, quiet, fun later waits => ?_⟩
    exact ih _ (resumes later waits) (grown.trans (advances.grows.trans waits.grows))
  | broken reason =>
    cases reason with
    | exhausted => exact trivial
    | watched env next world => exact safe

theorem Outcome.Safe.bind {first : Config strict → Except RuntimeError α → Prop}
    {second : Config strict → Except RuntimeError β → Prop} {outcome : Outcome α}
    {next : α → World → Outcome β} (safe : outcome.Safe task first start)
    (goes : ∀ now value, first now (.ok value) → (next value now.world).Safe task second now)
    (fails : ∀ now error, first now (.error error) → second now (.error error)) :
    (outcome.bind next).Safe task second start := by
  induction outcome generalizing start with
  | done value world =>
    obtain ⟨now, rfl, advances, ends⟩ := safe
    exact (goes now value ends).sooner advances
  | fail error world =>
    obtain ⟨now, same, advances, ends⟩ := safe
    exact ⟨now, same, advances, fails now error ends⟩
  | await wait world resume ih =>
    obtain ⟨now, same, advances, quiet, resumes⟩ := safe
    exact ⟨now, same, advances, quiet, fun later waits => ih _ (resumes later waits)⟩
  | broken reason =>
    cases reason with
    | exhausted => exact trivial
    | watched env next world => exact safe

theorem Outcome.Safe.attempt {post : Config strict → Except RuntimeError (Except RuntimeError α) → Prop}
    {outcome : Outcome α} (safe : outcome.Safe task (fun now result => post now (.ok result)) start) :
    outcome.attempt.Safe task post start := by
  induction outcome generalizing start with
  | done value world => exact safe
  | fail error world => exact safe
  | await wait world resume ih =>
    obtain ⟨now, same, advances, quiet, resumes⟩ := safe
    exact ⟨now, same, advances, quiet, fun later waits => ih _ (resumes later waits)⟩
  | broken reason =>
    cases reason with
    | exhausted => exact trivial
    | watched env next world => exact safe

namespace Run.Meets

variable {post : Config strict → α → Prop} {run : Run α}

theorem mono {wider : Config strict → α → Prop} (meets : run.Meets start task floor post)
    (implies : ∀ now value, start.Since task floor now → now.Quiet task → post now value →
      wider now value) : run.Meets start task floor wider := by
  refine Outcome.Safe.mono meets ?_
  rintro now (error | value) ⟨since, quiet, ends⟩
  · exact ⟨since, quiet, ends⟩
  · exact ⟨since, quiet, implies now value since quiet ends⟩

theorem bindOver {upper : Nat} {second : Config strict → β → Prop} {next : α → Run β}
    (meets : run.Meets start task upper post) (less : floor ≤ upper)
    (goes : ∀ now value, start.Since task upper now → now.Quiet task → post now value →
      (next value).Meets now task floor second) :
    (run >>= next).Meets start task floor second := by
  show (Run.bind run next start.world).Safe task _ start
  rw [Run.bind_apply]
  refine Outcome.Safe.bind meets ?_ ?_
  · rintro now value ⟨since, quiet, ends⟩
    refine Outcome.Safe.mono (goes now value since quiet ends) ?_
    rintro final result ⟨later, stillQuiet, finishes⟩
    exact ⟨(since.weaken less).trans later, stillQuiet, finishes⟩
  · rintro now error ⟨since, quiet, ends⟩
    exact ⟨since.weaken less, quiet, ends⟩

theorem bind {second : Config strict → β → Prop} {next : α → Run β}
    (meets : run.Meets start task floor post)
    (goes : ∀ now value, start.Since task floor now → now.Quiet task → post now value →
      (next value).Meets now task floor second) :
    (run >>= next).Meets start task floor second :=
  meets.bindOver (Nat.le_refl floor) goes

theorem done {now : Config strict} {value : α} (ends : run start.world = .done value now.world)
    (since : start.Since task floor now) (advances : start.Advances task now)
    (quiet : now.Quiet task) (holds : post now value) : run.Meets start task floor post := by
  unfold Run.Meets
  rw [ends]
  exact ⟨now, rfl, advances, since, quiet, holds⟩

theorem calm {value : α} (now : Config strict) (ends : run start.world = .done value now.world)
    (calm : start.Calm now) (quiet : start.Quiet task) (holds : post now value) :
    run.Meets start task floor post :=
  done ends calm.since calm.advances (calm.quiet quiet) holds

theorem moves {value : α} {ref : EnvRef} {known : EnvShape} (now : Config strict)
    (ends : run start.world = .done value now.world) (moves : start.Moves ref now)
    (found : start.shape.env ref = some known) (own : start.shape.Owns task known.thread)
    (young : floor ≤ ref.index) (quiet : start.Quiet task) (holds : post now value) :
    run.Meets start task floor post :=
  done ends (moves.since young) (moves.advances found own) (moves.quiet quiet) holds

theorem fails {error : RuntimeError} (ends : run start.world = .fail error start.world)
    (quiet : start.Quiet task) (allowed : error.Allowed strict) :
    run.Meets start task floor post := by
  unfold Run.Meets
  rw [ends]
  exact ⟨start, rfl, .refl _ _, .refl _ _ _, quiet, allowed⟩

end Run.Meets

namespace Run

variable {post : Config strict → α → Prop}

theorem pure_meets {value : α} (quiet : start.Quiet task) (holds : post start value) :
    (pure value : Run α).Meets start task floor post :=
  .calm start rfl (.refl start) quiet holds

theorem fail_meets {error : RuntimeError} (quiet : start.Quiet task)
    (allowed : error.Allowed strict) : (fail error : Run α).Meets start task floor post :=
  .fails rfl quiet allowed

theorem exhausted_meets : (exhausted : Run α).Meets start task floor post := trivial

theorem read_meets {view : World → α} (post : Config strict → α → Prop) (quiet : start.Quiet task)
    (holds : post start (view start.world)) :
    (read view).Meets start task floor post :=
  .calm start rfl (.refl start) quiet holds

theorem ofExcept_meets {result : Except RuntimeError α} (quiet : start.Quiet task)
    (holds : ∀ value, result = .ok value → post start value)
    (allowed : ∀ error, result = .error error → error.Allowed strict) :
    (ofExcept result).Meets start task floor post := by
  cases result with
  | ok value => exact .calm start rfl (.refl start) quiet (holds value rfl)
  | error error => exact .fails rfl quiet (allowed error rfl)

theorem tryRead_meets {view : World → Except RuntimeError α} (quiet : start.Quiet task)
    (holds : ∀ value, view start.world = .ok value → post start value)
    (allowed : ∀ error, view start.world = .error error → error.Allowed strict) :
    (tryRead view).Meets start task floor post := by
  cases result : view start.world with
  | ok value => exact .calm start (by simp [tryRead, result]) (.refl start) quiet (holds value result)
  | error error => exact .fails (by simp [tryRead, result]) quiet (allowed error result)

theorem waitFor_meets {wait : Wait} (post : Config strict → Unit → Prop) (quiet : start.Quiet task)
    (holds : ∀ now, start.Waits task now → post now ()) :
    (waitFor wait).Meets start task floor post := by
  unfold waitFor Meets
  dsimp only
  split
  · exact ⟨start, rfl, .refl _ _, .refl _ _ _, quiet, holds start (.refl _ _)⟩
  · refine ⟨start, rfl, .refl _ _, quiet, fun later waits => ?_⟩
    exact ⟨later, rfl, .refl _ _, waits.since, waits.quiet quiet, holds later waits⟩

theorem yield_meets (post : Config strict → Unit → Prop) (quiet : start.Quiet task)
    (holds : ∀ now, start.Waits task now → post now ()) :
    yield.Meets start task floor post := by
  refine ⟨start, rfl, .refl _ _, quiet, fun later waits => ?_⟩
  exact ⟨later, rfl, .refl _ _, waits.since, waits.quiet quiet, holds later waits⟩

theorem attempt_meets {run : Run α} (meets : run.Meets start task floor post) :
    (attempt run).Meets start task floor fun now result =>
      match result with
      | .ok value => post now value
      | .error error => error.Allowed strict := by
  show (attempt run start.world).Safe task _ start
  rw [attempt_apply]
  exact Outcome.Safe.attempt meets

end Run

end Rules

end MiniGo
