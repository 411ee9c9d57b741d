import MiniGo.Proofs.Effects
import MiniGo.Proofs.Execution
/-!
Runs as they are seen instruction by instruction. An observer notes each moment at which a body is
about to run an instruction, and may stop at any of them; what is seen does not change the run. A run
that is out of fuel is seen up to the moment at which that happens, between two instructions or in one.
-/

namespace MiniGo

/-- A point that a run reaches: the environment, the instruction to run next, if any, and the state. -/
structure Moment where
  env : EnvRef
  next : Option Instr
  world : World

def Moment.position (moment : Moment) : Nat := moment.world.ip moment.env

inductive Halt
  /-- The observer stops, or nothing is left to run. -/
  | stopped
  /-- The fuel is used up by the instructions seen. -/
  | spent
  /-- The fuel that is left does not suffice for the instruction at the last moment. -/
  | stuck (fuel : Nat)

def Halt.Whole : Halt → Prop
  | .stuck _ => False
  | _ => True

/-- What has been seen of a run, why no more is seen, and where it goes on from the last moment. -/
structure Seen where
  past : List Moment
  last : Moment
  halt : Halt
  fuel : Nat
  deferred : List Invocation

def Seen.moments (seen : Seen) : List Moment := seen.past ++ [seen.last]

abbrev Sight := List Moment → Halt → Prop

section Caught

variable {α β : Type}

/-- The end of a computation, or nothing if it runs out of fuel; where it does, the state is the one
that it has last been resumed in. -/
def Outcome.caught : Outcome α → World → Outcome (Option α)
  | .done value world, _ => .done (some value) world
  | .fail error world, _ => .fail error world
  | .await wait world resume, _ => .await wait world fun later => (resume later).caught later
  | .broken .exhausted, before => .done none before
  | .broken (.watched env next world), _ => .broken (.watched env next world)

def Run.caught (run : Run α) : Run (Option α) := fun world => (run world).caught world

theorem Outcome.bind_eq_caught (outcome : Outcome α) (next : α → World → Outcome β) (before : World) :
    outcome.bind next = (outcome.caught before).bind fun
      | some value => next value
      | none => fun _ => .broken .exhausted := by
  induction outcome generalizing before with
  | done value world => rfl
  | fail error world => rfl
  | await wait world resume ih =>
    simp only [bind, caught]
    exact congrArg _ (funext fun later => ih later later)
  | broken reason => cases reason <;> rfl

theorem Run.bind_eq_caught (run : Run α) (next : α → Run β) :
    run >>= next = run.caught >>= fun
      | some value => next value
      | none => Run.exhausted := by
  funext world
  show Run.bind _ _ world = Run.bind _ _ world
  rw [Run.bind_apply, Run.bind_apply]
  refine (Outcome.bind_eq_caught (run world) next world).trans ?_
  congr 1

end Caught

section Exhausts

variable {α β : Type} {others : World → World → Prop}

/-- A computation runs out of fuel. While it waits, others change the state. -/
inductive Outcome.Exhausts (others : World → World → Prop) : Outcome α → Prop
  | here : Exhausts others (.broken .exhausted)
  | await {wait : Wait} {world later : World} {resume : World → Outcome α} :
    others world later → Exhausts others (resume later) → Exhausts others (.await wait world resume)

theorem Outcome.exhausts_bind {outcome : Outcome α} {next : α → World → Outcome β}
    (exhausts : (outcome.bind next).Exhausts others) :
    outcome.Exhausts others ∨ ∃ value middle, outcome.Finishes others (.ok value) middle ∧
      (next value middle).Exhausts others := by
  induction outcome with
  | done value middle => exact .inr ⟨value, middle, .done, exhausts⟩
  | fail => cases exhausts
  | await wait waiting resume ih =>
    cases exhausts with
    | await changes exhausts =>
      obtain first | ⟨value, middle, finishes, exhausts⟩ := ih _ exhausts
      · exact .inl (.await changes first)
      · exact .inr ⟨value, middle, .await changes finishes, exhausts⟩
  | broken reason =>
    cases exhausts
    exact .inl .here

theorem Run.exhausts_bind {run : Run α} {next : α → Run β} {world : World}
    (exhausts : ((run >>= next) world).Exhausts others) :
    (run world).Exhausts others ∨ ∃ value middle,
      (run world).Finishes others (.ok value) middle ∧ (next value middle).Exhausts others := by
  change (Run.bind run next world).Exhausts others at exhausts
  rw [Run.bind_apply] at exhausts
  exact Outcome.exhausts_bind exhausts

end Exhausts

/-- The call that a body has just left with its executor, which goes on after taking it. -/
def World.deferring? (world : World) (env : EnvRef) : Option Invocation :=
  let thread := world.thread (world.threadOf env)
  if thread.signal = .defer then thread.deferred else none

namespace Machine

/-- Runs a body and notes the moments as long as `go` holds and the fuel suffices. A call that is
deferred is taken on the way. -/
def observe (go : Watch) (host : Host) :
    Nat → EnvRef → Option Instr → List Invocation → Run Seen
  | 0, env, next, deferred => do
    let world ← Run.read id
    pure ⟨[], ⟨env, next, world⟩, if go env next world then .spent else .stopped, 0, deferred⟩
  | fuel + 1, env, next, deferred => do
    let world ← Run.read id
    let halted (halt : Halt) : Seen := ⟨[], ⟨env, next, world⟩, halt, fuel + 1, deferred⟩
    if go env next world then
      match next with
      | some instr => do
        match ← Run.caught (step (call host fuel) fuel env instr) with
        | some (next, inner) => do
          let seen ← observe go host fuel inner next deferred
          pure { seen with past := ⟨env, some instr, world⟩ :: seen.past }
        | none => pure (halted (.stuck fuel))
      | none =>
        match world.deferring? env with
        | some invocation => do
          let thread := world.threadOf env
          let _ ← Run.update (·.takeSignal thread)
          let _ ← Run.update (·.takeDefer thread)
          let next ← Run.read (·.instr? env)
          observe go host fuel env next (invocation :: deferred)
        | none => pure (halted .stopped)
    else pure (halted .stopped)

theorem settle_deferring {resume : Option Instr → Invocation → Run Stopped} {env : EnvRef}
    {deferred : List Invocation} {world : World} {invocation : Invocation}
    (found : world.deferring? env = some invocation) :
    settle resume env deferred world = (do
      let thread := world.threadOf env
      let _ ← Run.update (·.takeSignal thread)
      let _ ← Run.update (·.takeDefer thread)
      let next ← Run.read (·.instr? env)
      resume next invocation) world := by
  unfold World.deferring? at found
  dsimp only at found
  split at found
  · rename_i signal
    have took : (((world.takeSignal (world.threadOf env)).2).takeDefer (world.threadOf env)).1 =
        some invocation := by
      have kept : ((world.takeSignal (world.threadOf env)).2.thread (world.threadOf env)).deferred =
          (world.thread (world.threadOf env)).deferred := by
        simp only [World.takeSignal, World.thread, World.updateThread, Array.getD_eq_getD_getElem?,
          Array.getElem?_modify, if_true]
        cases world.threads[(world.threadOf env).index]? <;> rfl
      exact kept.trans found
    have first : Run.read (·.threadOf env) world = .done (world.threadOf env) world := rfl
    have second : Run.update (·.takeSignal (world.threadOf env)) world =
        .done .defer (world.takeSignal (world.threadOf env)).2 := by
      rw [← signal]
      rfl
    have third : Run.update (·.takeDefer (world.threadOf env))
        (world.takeSignal (world.threadOf env)).2 =
          .done (some invocation)
            ((world.takeSignal (world.threadOf env)).2.takeDefer (world.threadOf env)).2 := by
      rw [← took]
      rfl
    unfold settle
    rw [Run.bind_done first, Run.bind_done second, Run.bind_done second]
    dsimp only
    rw [Run.bind_done third, Run.bind_done third]
  · simp at found

def resume (host : Host) (seen : Seen) : Run Stopped :=
  match seen.halt with
  | .stopped => loop .never host seen.fuel seen.last.env seen.last.next seen.deferred
  | _ => Run.exhausted

/-- To observe a run does not change it: it goes on from the last moment seen, unless it is out of fuel
there. -/
theorem loop_eq_observe (go : Watch) (host : Host) (fuel : Nat) (env : EnvRef) (next : Option Instr)
    (deferred : List Invocation) :
    loop .never host fuel env next deferred =
      observe go host fuel env next deferred >>= resume host := by
  induction fuel generalizing env next deferred with
  | zero =>
    funext world
    have isWorld : Run.read id world = .done world world := rfl
    rw [observe, Run.bind_assoc, Run.bind_done isWorld]
    show loop .never host 0 env next deferred world = resume host _ world
    unfold resume
    dsimp only
    split <;> (unfold loop; rfl)
  | succ fuel ih =>
    funext world
    have isWorld : Run.read id world = .done world world := rfl
    have runs : pause .never env next world = .done () world := rfl
    rw [observe, Run.bind_assoc, Run.bind_done isWorld]
    dsimp only
    split
    · cases next with
      | some instr =>
        rw [loop, Run.bind_done runs, Run.bind_eq_caught, Run.bind_assoc]
        refine congrFun (bind_congr fun step => ?_) world
        cases step with
        | none => rfl
        | some step =>
          dsimp only
          rw [Run.bind_assoc]
          exact ih _ _ _
      | none =>
        dsimp only
        split
        · rename_i invocation found
          rw [loop, Run.bind_done runs, settle_deferring found]
          simp only [Run.bind_assoc, ih]
        · rfl
    · rfl

end Machine

section Attains

variable [Natives] {strict : Prop} {α β : Type} {task : ThreadRef} {start : Config strict}

/-- The outcome is one of a task that does no harm, ends as `post` says, and runs out of fuel only if
`stuck` holds. -/
def Outcome.Attains (task : ThreadRef) (stuck : Prop)
    (post : Config strict → Except RuntimeError α → Prop) : Config strict → Outcome α → Prop
  | since, .done value world =>
    ∃ now : Config strict, now.world = world ∧ since.Advances task now ∧ post now (.ok value)
  | since, .fail error world =>
    ∃ now : Config strict, now.world = world ∧ since.Advances task now ∧ post now (.error error)
  | since, .await _ world resume =>
    ∃ now : Config strict, now.world = world ∧ since.Advances task now ∧ now.Quiet task ∧
      ∀ later : Config strict, now.Waits task later → (resume later.world).Attains task stuck post later
  | _, .broken .exhausted => stuck
  | since, .broken (.watched env next world) =>
    ∃ now : Config strict, now.world = world ∧ since.shape.Grows now.shape ∧ now.At env next

namespace Outcome

variable {stuck jammed : Prop} {post wider : Config strict → Except RuntimeError α → Prop}
  {outcome : Outcome α}

theorem Safe.attains (safe : outcome.Safe task post start) :
    outcome.Attains task (outcome.Exhausts (Config.Others strict task)) post start := by
  suffices ∀ stuck : Prop, (outcome.Exhausts (Config.Others strict task) → stuck) →
      outcome.Attains task stuck post start from this _ id
  intro stuck gives
  induction outcome generalizing start with
  | done value world => exact safe
  | fail error world => exact safe
  | await wait world resume ih =>
    obtain ⟨now, rfl, advances, quiet, resumes⟩ := safe
    refine ⟨now, rfl, advances, quiet, fun later waits => ih _ (resumes later waits) fun exhausts => ?_⟩
    exact gives (.await ⟨now, later, rfl, rfl, waits⟩ exhausts)
  | broken reason =>
    cases reason with
    | exhausted => exact gives .here
    | watched env next world => exact safe

namespace Attains

theorem mono (attains : outcome.Attains task stuck post start) (jams : stuck → jammed)
    (implies : ∀ now result, post now result → wider now result) :
    outcome.Attains task jammed wider start := by
  induction outcome generalizing start with
  | done value world =>
    obtain ⟨now, same, advances, ends⟩ := attains
    exact ⟨now, same, advances, implies _ _ ends⟩
  | fail error world =>
    obtain ⟨now, same, advances, ends⟩ := attains
    exact ⟨now, same, advances, implies _ _ ends⟩
  | await wait world resume ih =>
    obtain ⟨now, same, advances, quiet, resumes⟩ := attains
    exact ⟨now, same, advances, quiet, fun later waits => ih _ (resumes later waits)⟩
  | broken reason =>
    cases reason with
    | exhausted => exact jams attains
    | watched env next world => exact attains

theorem sooner {later : Config strict} (attains : outcome.Attains task stuck post later)
    (advances : start.Advances task later) : outcome.Attains task stuck post start := by
  cases outcome with
  | done value world =>
    obtain ⟨now, same, goes, ends⟩ := attains
    exact ⟨now, same, advances.trans goes, ends⟩
  | fail error world =>
    obtain ⟨now, same, goes, ends⟩ := attains
    exact ⟨now, same, advances.trans goes, ends⟩
  | await wait world resume =>
    obtain ⟨now, same, goes, quiet, resumes⟩ := attains
    exact ⟨now, same, advances.trans goes, quiet, resumes⟩
  | broken reason =>
    cases reason with
    | exhausted => exact attains
    | watched env next world =>
      obtain ⟨now, same, grows, reached⟩ := attains
      exact ⟨now, same, advances.grows.trans grows, reached⟩

theorem bind {second : Config strict → Except RuntimeError β → Prop} {next : α → World → Outcome β}
    (attains : outcome.Attains task stuck post start)
    (goes : ∀ now value, post now (.ok value) → (next value now.world).Attains task stuck second now)
    (fails : ∀ now error, post now (.error error) → second now (.error error)) :
    (outcome.bind next).Attains task stuck second start := by
  induction outcome generalizing start with
  | done value world =>
    obtain ⟨now, rfl, advances, ends⟩ := attains
    exact (goes now value ends).sooner advances
  | fail error world =>
    obtain ⟨now, same, advances, ends⟩ := attains
    exact ⟨now, same, advances, fails now error ends⟩
  | await wait world resume ih =>
    obtain ⟨now, same, advances, quiet, resumes⟩ := attains
    exact ⟨now, same, advances, quiet, fun later waits => ih _ (resumes later waits)⟩
  | broken reason =>
    cases reason with
    | exhausted => exact attains
    | watched env next world => exact attains

theorem attempt {post : Config strict → Except RuntimeError (Except RuntimeError α) → Prop}
    (attains : outcome.Attains task stuck (fun now result => post now (.ok result)) start) :
    outcome.attempt.Attains task stuck post start := by
  induction outcome generalizing start with
  | done value world => exact attains
  | fail error world => exact attains
  | await wait world resume ih =>
    obtain ⟨now, same, advances, quiet, resumes⟩ := attains
    exact ⟨now, same, advances, quiet, fun later waits => ih _ (resumes later waits)⟩
  | broken reason =>
    cases reason with
    | exhausted => exact attains
    | watched env next world => exact attains

theorem caught (attains : outcome.Attains task stuck post start) :
    (outcome.caught start.world).Attains task False (fun now result =>
      match result with
      | .ok (some value) => post now (.ok value)
      | .ok none => stuck
      | .error error => post now (.error error)) start := by
  induction outcome generalizing start with
  | done value world => exact attains
  | fail error world => exact attains
  | await wait world resume ih =>
    obtain ⟨now, same, advances, quiet, resumes⟩ := attains
    exact ⟨now, same, advances, quiet, fun later waits => ih _ (resumes later waits)⟩
  | broken reason =>
    cases reason with
    | exhausted => exact ⟨start, rfl, .refl _ _, attains⟩
    | watched env next world => exact attains

theorem finishes (attains : outcome.Attains task stuck post start) :
    outcome.Attains task stuck (fun now result =>
      outcome.Finishes (Config.Others strict task) result now.world ∧ post now result) start := by
  induction outcome generalizing start with
  | done value world =>
    obtain ⟨now, rfl, advances, ends⟩ := attains
    exact ⟨now, rfl, advances, .done, ends⟩
  | fail error world =>
    obtain ⟨now, rfl, advances, ends⟩ := attains
    exact ⟨now, rfl, advances, .fail, ends⟩
  | await wait world resume ih =>
    obtain ⟨now, rfl, advances, quiet, resumes⟩ := attains
    refine ⟨now, rfl, advances, quiet, fun later waits => ?_⟩
    exact (ih _ (resumes later waits)).mono id fun _ _ ends =>
      ⟨.await ⟨now, later, rfl, rfl, waits⟩ ends.1, ends.2⟩
  | broken reason =>
    cases reason with
    | exhausted => exact attains
    | watched env next world => exact attains

end Attains

end Outcome

end Attains

/-- Whoever observes a task: as long as `go` holds. -/
structure Observer where
  go : Watch
  host : Host
  task : ThreadRef

namespace Observer

variable [Natives] {strict : Prop} {observer : Observer} {now later : Config strict} {fuel : Nat}
  {env : EnvRef} {next : Option Instr} {sight wider : Sight}

/-- The observation of a run ends, unless it waits for ever, and what has been seen then is as `sight`
says. -/
def Sees (observer : Observer) (fuel : Nat) (env : EnvRef) (next : Option Instr) (now : Config strict)
    (sight : Sight) : Prop :=
  ∀ deferred, (Machine.observe observer.go observer.host fuel env next deferred now.world).Attains
    observer.task False (fun _ result => ∃ seen, result = .ok seen ∧ sight seen.moments seen.halt) now

/-- A body that is run is seen as `sight` says, and goes on from the last moment that is seen. -/
structure Watches (observer : Observer) (fuel : Nat) (env : EnvRef) (next : Option Instr)
    (now : Config strict) (sight : Sight) : Prop where
  sees : observer.Sees fuel env next now sight
  runs : ∀ deferred, Machine.loop .never observer.host fuel env next deferred =
    Machine.observe observer.go observer.host fuel env next deferred >>= Machine.resume observer.host

namespace Sees

theorem mono (sees : observer.Sees fuel env next now sight)
    (implies : ∀ moments halt, sight moments halt → wider moments halt) :
    observer.Sees fuel env next now wider := by
  refine fun deferred => Outcome.Attains.mono (sees deferred) id ?_
  rintro _ result ⟨seen, same, holds⟩
  exact ⟨seen, same, implies _ _ holds⟩

theorem zero (stops : ∀ halt : Halt, halt.Whole → sight [⟨env, next, now.world⟩] halt) :
    observer.Sees 0 env next now sight := by
  intro deferred
  refine ⟨now, rfl, .refl _ _, _, rfl, stops _ ?_⟩
  dsimp only
  split <;> trivial

theorem turn {instr : Instr}
    (stops : ∀ halt : Halt, halt.Whole → sight [⟨env, some instr, now.world⟩] halt)
    (goes : ∀ less < fuel, observer.go env (some instr) now.world = true →
      (step (Machine.call observer.host less) less env instr now.world).Attains observer.task
        (sight [⟨env, some instr, now.world⟩] (.stuck less))
        (fun later result => ∃ next inner, result = .ok (next, inner) ∧
          observer.Sees less inner next later
            fun rest => sight (⟨env, some instr, now.world⟩ :: rest)) now) :
    observer.Sees fuel env (some instr) now sight := by
  cases fuel with
  | zero => exact .zero stops
  | succ fuel =>
    intro deferred
    have isWorld : Run.read id now.world = .done now.world now.world := rfl
    rw [Machine.observe, Run.bind_done isWorld]
    dsimp only
    split
    · rename_i isGoing
      show (Run.bind _ _ now.world).Attains _ _ _ now
      rw [Run.bind_apply]
      refine Outcome.Attains.bind (goes fuel (Nat.lt_succ_self _) isGoing).caught ?_ ?_
      · rintro later (_ | ⟨next, inner⟩) ends
        · exact ⟨later, rfl, .refl _ _, _, rfl, ends⟩
        obtain ⟨_, _, ⟨⟩, sees⟩ := ends
        show (Run.bind _ _ later.world).Attains _ _ _ later
        rw [Run.bind_apply]
        refine Outcome.Attains.bind (sees deferred) ?_ (by simp)
        rintro last _ ⟨seen, ⟨⟩, holds⟩
        exact ⟨last, rfl, .refl _ _, _, rfl, holds⟩
      · rintro later error ⟨next, inner, same, -⟩
        cases same
    · exact ⟨now, rfl, .refl _ _, _, rfl, stops _ trivial⟩

theorem halt (stops : ∀ halt : Halt, halt.Whole → sight [⟨env, none, now.world⟩] halt)
    (resumes : ∀ less < fuel, ∀ invocation, now.world.deferring? env = some invocation →
      ∃ later : Config strict,
        later.world = ((now.world.takeSignal (now.world.threadOf env)).2.takeDefer
          (now.world.threadOf env)).2 ∧
        now.Advances observer.task later ∧
        observer.Sees less env (later.world.instr? env) later sight) :
    observer.Sees fuel env none now sight := by
  cases fuel with
  | zero => exact .zero stops
  | succ fuel =>
    intro deferred
    have isWorld : Run.read id now.world = .done now.world now.world := rfl
    rw [Machine.observe, Run.bind_done isWorld]
    dsimp only
    split
    · cases found : now.world.deferring? env with
      | some invocation =>
        obtain ⟨later, same, advances, sees⟩ := resumes fuel (Nat.lt_succ_self _) invocation found
        have resumed := Outcome.Attains.sooner (sees (invocation :: deferred)) advances
        rw [same] at resumed
        exact resumed
      | none => exact ⟨now, rfl, .refl _ _, _, rfl, stops _ trivial⟩
    · exact ⟨now, rfl, .refl _ _, _, rfl, stops _ trivial⟩

theorem watches (sees : observer.Sees fuel env next now sight) :
    observer.Watches fuel env next now sight := ⟨sees, Machine.loop_eq_observe _ _ _ _ _⟩

end Sees

end Observer

section Stages

variable [Natives] {strict : Prop} {observer : Observer} {course : Course strict}
  {start now : Config strict} {floor fuel : Nat} {env : EnvRef} {next : Option Instr}
  {blocks : List EnvRef} {layers : List Layer} {sight : Sight}

theorem Config.Leaving.signal {task thread : ThreadRef}
    {left : Signal × Option Invocation × Option RuntimeError} (leaving : now.Leaving task thread left) :
    (now.world.thread thread).signal = left.1 := congrArg (·.1) leaving.here

theorem Course.Stage.sees
    (busy : course.Busy start observer.task floor env blocks layers now)
    (stage : course.Stage observer.task env layers now next)
    (ended : ∀ world, ∀ halt : Halt, halt.Whole → sight [⟨env, none, world⟩] halt)
    (goes : ∀ less ≤ fuel, ∀ later, later.shape = now.shape →
      course.Busy start observer.task floor env blocks layers later → later.Quiet observer.task →
      course.Lands (later.world.ip env) layers →
      observer.Sees less env (later.world.instr? env) later sight) :
    observer.Sees fuel env next now sight := by
  cases stage with
  | running quiet lands => exact goes fuel (Nat.le_refl _) now rfl busy quiet lands
  | returned left =>
    refine .halt (ended _) fun _ _ invocation found => ?_
    simp [World.deferring?, busy.within.threadOf, left.signal] at found
  | panicked left allowed =>
    refine .halt (ended _) fun _ _ invocation found => ?_
    simp [World.deferring?, busy.within.threadOf, left.signal] at found
  | deferring left sound lands =>
    refine .halt (ended _) fun less isLess invocation _ => ?_
    obtain ⟨middle, took, first, busy', left, shape, ip⟩ := busy.takeSignal left
    obtain ⟨later, tookCall, second, busy', left, shape', ip'⟩ := busy'.takeDefer left
    obtain ⟨-, middleIs⟩ := Outcome.done.inj took
    obtain ⟨-, laterIs⟩ := Outcome.done.inj tookCall
    refine ⟨later, ?_, first.trans second, goes less (Nat.le_of_lt isLess) later
      (shape'.trans shape) busy' left.quiet ?_⟩
    · rw [busy.within.threadOf, ← laterIs, ← middleIs]
      rfl
    · rw [ip', ip]
      exact lands

/-- What an instruction has to do for an observation that goes on where it leads: one that fails leaves
its failure where it is, and the body has stopped. -/
def Observer.Follows (observer : Observer) (fuel : Nat) (env : EnvRef) (sight : Sight)
    (later : Config strict) : Except RuntimeError Next → Prop
  | .ok (next, inner) => observer.Sees fuel inner next later sight
  | .error error => later.Quiet observer.task ∧
    (∃ (course : Course strict) (start : Config strict) (floor : Nat) (blocks : List EnvRef)
      (layers : List Layer), course.Busy start observer.task floor env blocks layers later) ∧
    ∀ world, Step.raise env error later.world = .done (none, env) world →
      ∀ halt : Halt, halt.Whole → sight [⟨env, none, world⟩] halt

theorem Observer.Follows.mono {wider : Sight} {later : Config strict}
    {result : Except RuntimeError Next} (follows : observer.Follows fuel env sight later result)
    (implies : ∀ moments halt, sight moments halt → wider moments halt) :
    observer.Follows fuel env wider later result := by
  cases result with
  | ok next => exact Observer.Sees.mono follows implies
  | error error =>
    obtain ⟨quiet, busy, ended⟩ := follows
    exact ⟨quiet, busy, fun world raised halt whole => implies _ _ (ended world raised halt whole)⟩

/-- What is left of an instruction is done, and the observation goes on. Out of fuel, there is nothing
more to be seen. -/
def Observer.Leads (observer : Observer) (fuel : Nat) (env : EnvRef) (sight : Sight)
    (now : Config strict) (outcome : Outcome Next) : Prop :=
  outcome.Attains observer.task (sight [] (.stuck fuel)) (observer.Follows fuel env sight) now

theorem Observer.Leads.mono {wider : Sight} {outcome : Outcome Next}
    (leads : observer.Leads fuel env sight now outcome)
    (implies : ∀ moments halt, sight moments halt → wider moments halt) :
    observer.Leads fuel env wider now outcome :=
  Outcome.Attains.mono leads (implies _ _) fun _ _ follows => follows.mono implies

theorem Observer.Leads.sooner {later : Config strict} {outcome : Outcome Next}
    (leads : observer.Leads fuel env sight later outcome) (advances : now.Advances observer.task later) :
    observer.Leads fuel env sight now outcome := Outcome.Attains.sooner leads advances

theorem Observer.Sees.instr {instr : Instr}
    (stops : ∀ halt : Halt, halt.Whole → sight [⟨env, some instr, now.world⟩] halt)
    (runs : ∀ less < fuel, observer.go env (some instr) now.world = true →
      observer.Leads less env (fun rest => sight (⟨env, some instr, now.world⟩ :: rest)) now
        (Step.run (Machine.call observer.host less) less env instr now.world)) :
    observer.Sees fuel env (some instr) now sight := by
  refine .turn stops fun less isLess going => ?_
  have attempted : (Run.attempt (Step.run (Machine.call observer.host less) less env instr)
      now.world).Attains observer.task (sight [⟨env, some instr, now.world⟩] (.stuck less))
        (fun later result => ∃ ending, result = .ok ending ∧
          observer.Follows less env (fun rest => sight (⟨env, some instr, now.world⟩ :: rest)) later
            ending) now := by
    rw [Run.attempt_apply]
    exact Outcome.Attains.attempt (Outcome.Attains.mono (runs less isLess going) id
      fun later result follows => ⟨result, rfl, follows⟩)
  show (Run.bind (Run.attempt _) _ now.world).Attains _ _ _ now
  rw [Run.bind_apply]
  refine Outcome.Attains.bind attempted ?_ (by simp)
  rintro later result ⟨_, ⟨⟩, follows⟩
  cases result with
  | ok next => exact ⟨later, rfl, .refl _ _, next.1, next.2, rfl, follows⟩
  | error error =>
    obtain ⟨quiet, ⟨course, start, floor, blocks, layers, busy⟩, ended⟩ := follows
    let spot : Spot strict :=
      ⟨course, start, observer.task, floor, env, blocks, ⟨[], [], .nil⟩, 0⟩
    obtain ⟨last, ran, advances, busy, left⟩ := @Step.raise_done _ _ spot _ _ error busy quiet
    show (Step.raise env error later.world).Attains _ _ _ later
    rw [ran]
    refine ⟨last, rfl, advances, none, env, rfl, .halt (ended _ ran) fun _ _ invocation found => ?_⟩
    have isThread : last.world.threadOf env = course.thread := Course.Within.threadOf busy.within
    have signal : (last.world.thread course.thread).signal = .panic := left.signal
    simp [World.deferring?, isThread, signal] at found

end Stages

end MiniGo
