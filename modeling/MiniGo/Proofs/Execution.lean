import MiniGo.Proofs.Stepping
/-!
Bodies. Instruction by instruction, a typed body keeps the state sound until it stops; then the blocks
it is in are left and its deferred calls run. Nothing is left for the executors afterwards, and the
same blocks are open as before.
-/

namespace MiniGo

variable [Natives] {strict : Prop}

theorem Step.raise_done {spot : Spot strict} {now : Config strict} {layers : List Layer}
    {error : RuntimeError} (busy : spot.Busy layers now) (quiet : now.Quiet spot.task) :
    ∃ later : Config strict, Step.raise spot.env error now.world = .done (none, spot.env) later.world ∧
      now.Advances spot.task later ∧ spot.Busy layers later ∧
      later.Leaving spot.task spot.course.thread (.panic, none, some error) := by
  let middle := now.leaves spot.course.thread ({ · with panic := some error }) fun _ _ => .inl
  have left : middle.Leaving spot.task spot.course.thread (.none, none, some error) := by
    refine (quiet.leaving busy.own).leaves busy.own fun thread same => ?_
    obtain ⟨isSignal, isDeferred, -⟩ := Prod.mk.inj same |>.imp_right Prod.mk.inj
    simp [Thread.left, isSignal, isDeferred]
  have installed : now.world.setPanic (now.world.threadOf spot.env) error = middle.world := by
    rw [busy.within.threadOf]
    rfl
  have busyMiddle : spot.Busy layers middle := Course.Busy.leaves busy
  obtain ⟨later, ran, goes, busyLater, left, -, -⟩ :=
    @interrupt_done _ _ _ _ _ .panic _ _ busyMiddle left
  refine ⟨later, ?_, (Config.advances_leaves busy.own).trans goes, busyLater, left⟩
  have first : Run.modify (fun world => world.setPanic (world.threadOf spot.env) error) now.world =
      .done () middle.world := congrArg (Outcome.done ()) installed
  rw [Step.raise, Run.bind_done first]
  exact ran

theorem step_safe {spot : Spot strict} {now : Config strict} {call : Caller} {instr : Instr}
    (safe : call.Safe strict) (poised : spot.Poised now) (fuel : Nat)
    (typed : InstrTyped strict spot.course.base spot.course.Lands (fun _ _ _ => False)
      spot.here spot.ctx instr) :
    (step call fuel spot.env instr now.world).Safe spot.task (fun later result =>
      ∃ next env blocks layers, result = .ok (next, env) ∧
        spot.course.Busy spot.start spot.task spot.floor env blocks layers later ∧
        spot.course.Stage spot.task env layers later next) now := by
  have attempted : (Run.attempt (Step.run call fuel spot.env instr) now.world).Safe spot.task
      (fun later result => ∃ ending, result = .ok ending ∧ spot.Ended later ending) now := by
    rw [Run.attempt_apply]
    refine Outcome.Safe.attempt (Outcome.Safe.mono (Step.run_steps safe poised fuel typed) ?_)
    exact fun later result ended => ⟨result, rfl, ended⟩
  show (Run.bind (Run.attempt _) _ now.world).Safe _ _ now
  rw [Run.bind_apply]
  refine Outcome.Safe.bind attempted ?_ (by simp)
  rintro later result ⟨_, ⟨⟩, ended⟩
  cases result with
  | ok next =>
    obtain ⟨blocks, layers, busy, stage⟩ := ended
    exact ⟨later, rfl, .refl _ _, next.1, next.2, blocks, layers, rfl, busy, stage⟩
  | error error =>
    obtain ⟨allowed, quiet, layers, busy⟩ := ended
    obtain ⟨last, ran, advances, busy, left⟩ := Step.raise_done busy quiet
    show (Step.raise spot.env error later.world).Safe _ _ later
    rw [ran]
    exact ⟨last, rfl, advances, none, spot.env, _, layers, rfl, busy, .panicked left allowed⟩

section Bodies

variable {activation : Activation strict} {course : Course strict} {start now : Config strict}
  {task : ThreadRef} {floor : Nat} {env : EnvRef} {blocks : List EnvRef} {layers : List Layer}

/-- Where a body has stopped: its deferred calls can be made, and its failure is an allowed one. -/
structure Activation.Halted (activation : Activation strict) (start : Config strict)
    (task : ThreadRef) (floor : Nat) (now : Config strict) (stopped : Stopped) : Prop where
  busy : ∃ blocks layers, activation.Busy start task floor stopped.env blocks layers now
  quiet : now.Quiet task
  deferred : ∀ call ∈ stopped.deferred, call.Sound now.shape
  failure : ∀ error, stopped.failure = some error → error.Allowed strict

def Activation.Halts (activation : Activation strict) (start : Config strict) (task : ThreadRef)
    (floor : Nat) (run : Run Stopped) (now : Config strict) : Prop :=
  (run now.world).Safe task (fun later result =>
    ∃ stopped, result = .ok stopped ∧ activation.Halted start task floor later stopped) now

def Machine.LoopSafe (strict : Prop)
    (loop : EnvRef → Option Instr → List Invocation → Run Stopped) : Prop :=
  ∀ {activation : Activation strict} {start now : Config strict} {task : ThreadRef} {floor : Nat}
    {env : EnvRef} {blocks : List EnvRef} {layers : List Layer} {next : Option Instr}
    {deferred : List Invocation},
    activation.Busy start task floor env blocks layers now →
    activation.Stage task env layers now next → (∀ call ∈ deferred, call.Sound now.shape) →
    activation.Halts start task floor (loop env next deferred) now

theorem Course.Stage.at {next : Option Instr} (stage : activation.Stage task env layers now next)
    (busy : activation.Busy start task floor env blocks layers now) : now.At env next := by
  refine ⟨activation, blocks, layers, busy.within, ?_⟩
  cases stage with
  | running quiet lands =>
    have none := congrArg (·.1) (quiet.left _ busy.own)
    exact .inr ⟨none, rfl, lands⟩
  | returned left =>
    have isRet := congrArg (·.1) left.here
    exact .inl ⟨rfl, by simp_all [Thread.left], by simp_all [Thread.left], by simp_all [Thread.left]⟩
  | deferring left =>
    have isLeft := left.here
    exact .inl ⟨rfl, by simp_all [Thread.left], by simp_all [Thread.left], by simp_all [Thread.left]⟩
  | panicked left =>
    have isLeft := left.here
    exact .inl ⟨rfl, by simp_all [Thread.left], by simp_all [Thread.left], by simp_all [Thread.left]⟩

theorem Course.Busy.takes {left more : Signal × Option Invocation × Option RuntimeError}
    {α : Type} {view : Thread → α} {change : Thread → Thread}
    (busy : course.Busy start task floor env blocks layers now)
    (leaving : now.Leaving task course.thread left)
    (sound : ∀ thread call, (change thread).deferred = some call → thread.deferred = some call)
    (changes : ∀ thread : Thread, thread.left = left → (change thread).left = more) :
    ∃ later : Config strict,
      Run.update (fun world => (view (world.thread course.thread),
        world.updateThread course.thread change)) now.world =
          .done (view (now.world.thread course.thread)) later.world ∧
      now.Advances task later ∧ course.Busy start task floor env blocks layers later ∧
      later.Leaving task course.thread more ∧ later.shape = now.shape ∧
      later.world.ip env = now.world.ip env :=
  ⟨now.leaves course.thread change fun thread call same => .inl (sound thread call same), rfl,
    Config.advances_leaves busy.own, busy.leaves, leaving.leaves busy.own changes, rfl, rfl⟩

section Taking

variable {signal : Signal} {deferred : Option Invocation} {panic : Option RuntimeError}
  (busy : course.Busy start task floor env blocks layers now)
  (leaving : now.Leaving task course.thread (signal, deferred, panic))

include busy leaving

theorem Course.Busy.takeSignal : ∃ later : Config strict,
    Run.update (·.takeSignal course.thread) now.world = .done signal later.world ∧
      now.Advances task later ∧ course.Busy start task floor env blocks layers later ∧
      later.Leaving task course.thread (.none, deferred, panic) ∧ later.shape = now.shape ∧
      later.world.ip env = now.world.ip env := by
  have isSignal : (now.world.thread course.thread).signal = signal := congrArg (·.1) leaving.here
  rw [← isSignal]
  refine busy.takes leaving (fun _ _ => id) fun thread same => ?_
  obtain ⟨-, isDeferred, isPanic⟩ := Prod.mk.inj same |>.imp_right Prod.mk.inj
  simp [Thread.left, isDeferred, isPanic]

theorem Course.Busy.takeDefer : ∃ later : Config strict,
    Run.update (·.takeDefer course.thread) now.world = .done deferred later.world ∧
      now.Advances task later ∧ course.Busy start task floor env blocks layers later ∧
      later.Leaving task course.thread (signal, none, panic) ∧ later.shape = now.shape ∧
      later.world.ip env = now.world.ip env := by
  have isDeferred : (now.world.thread course.thread).deferred = deferred :=
    congrArg (·.2.1) leaving.here
  rw [← isDeferred]
  refine busy.takes leaving (by simp) fun thread same => ?_
  obtain ⟨isSignal, -, isPanic⟩ := Prod.mk.inj same |>.imp_right Prod.mk.inj
  simp [Thread.left, isSignal, isPanic]

theorem Course.Busy.takePanic : ∃ later : Config strict,
    Run.update (·.takePanic course.thread) now.world = .done panic later.world ∧
      now.Advances task later ∧ course.Busy start task floor env blocks layers later ∧
      later.Leaving task course.thread (signal, deferred, none) ∧ later.shape = now.shape ∧
      later.world.ip env = now.world.ip env := by
  have isPanic : (now.world.thread course.thread).panic = panic := congrArg (·.2.2) leaving.here
  rw [← isPanic]
  refine busy.takes leaving (fun _ _ => id) fun thread same => ?_
  obtain ⟨isSignal, isDeferred, -⟩ := Prod.mk.inj same |>.imp_right Prod.mk.inj
  simp [Thread.left, isSignal, isDeferred]

end Taking

theorem Activation.Halts.after {α : Type} {run : Run α} {next : α → Run Stopped} {value : α}
    {later : Config strict} (ran : run now.world = .done value later.world)
    (advances : now.Advances task later) (halts : activation.Halts start task floor (next value) later) :
    activation.Halts start task floor (run >>= next) now := by
  unfold Activation.Halts
  rw [Run.bind_done ran]
  exact Outcome.Safe.sooner halts advances

theorem Activation.Halted.halts {stopped : Stopped}
    (halted : activation.Halted start task floor now stopped) :
    activation.Halts start task floor (pure stopped) now :=
  ⟨now, rfl, .refl _ _, stopped, rfl, halted⟩

theorem Machine.settle_halts {resume : Option Instr → Invocation → Run Stopped}
    {deferred : List Invocation} {next : Option Instr}
    (busy : activation.Busy start task floor env blocks layers now)
    (stage : activation.Stage task env layers now next) (isNone : next = none)
    (sound : ∀ call ∈ deferred, call.Sound now.shape)
    (resumes : ∀ later call, later.shape = now.shape → call.Sound later.shape →
      activation.Busy start task floor env blocks layers later →
      activation.Stage task env layers later (later.world.instr? env) →
      activation.Halts start task floor (resume (later.world.instr? env) call) later) :
    activation.Halts start task floor (settle resume env deferred) now := by
  have isThread : Run.read (·.threadOf env) now.world = .done activation.thread now.world :=
    congrArg (Outcome.done · now.world) busy.within.threadOf
  refine .after isThread (.refl _ _) ?_
  cases stage with
  | running quiet lands =>
    obtain ⟨later, took, advances, busy, left, shape, -⟩ :=
      busy.takeSignal (quiet.leaving busy.own)
    exact .after took advances (Activation.Halted.halts
      ⟨⟨_, _, busy⟩, left.quiet, fun call member => shape ▸ sound call member, by simp⟩)
  | returned left =>
    obtain ⟨later, took, advances, busy, left, shape, -⟩ := busy.takeSignal left
    exact .after took advances (Activation.Halted.halts
      ⟨⟨_, _, busy⟩, left.quiet, fun call member => shape ▸ sound call member, by simp⟩)
  | deferring left callSound lands =>
    obtain ⟨middle, took, first, busy, left, shape, ip⟩ := busy.takeSignal left
    obtain ⟨later, tookCall, second, busy, left, shape', ip'⟩ := busy.takeDefer left
    have same : later.shape = now.shape := shape'.trans shape
    refine .after took first (.after tookCall second ?_)
    refine @Activation.Halts.after _ _ _ _ _ _ _ _ _ _ _ later rfl (.refl _ _) ?_
    refine resumes later _ same (same ▸ callSound) busy (.running left.quiet ?_)
    rw [ip', ip]
    exact lands
  | panicked left allowed =>
    obtain ⟨middle, took, first, busy, left, shape, -⟩ := busy.takeSignal left
    obtain ⟨later, tookError, second, busy, left, shape', -⟩ := busy.takePanic left
    refine .after took first (.after tookError second (Activation.Halted.halts
      ⟨⟨_, _, busy⟩, left.quiet, fun call member => ?_, ?_⟩))
    · rw [shape', shape]
      exact sound call member
    · rintro _ ⟨⟩
      exact allowed

theorem Course.Stage.running_of_some {instr : Instr}
    (stage : course.Stage task env layers now (some instr)) :
    now.Quiet task ∧ course.Lands (now.world.ip env) layers ∧
      now.world.instr? env = some instr := by
  generalize isNext : some instr = next at stage
  cases stage with
  | returned | deferring | panicked => cases isNext
  | running quiet lands => exact ⟨quiet, lands, rfl⟩

omit [Natives] in
theorem Activation.instr_typed {position : Nat} {instr : Instr}
    (lands : activation.Lands position layers)
    (found : activation.program.instr? position = some instr) :
    ∃ here : Ctx strict, activation.positions[position]? = some here ∧ Serves layers here.layers ∧
      InstrTyped strict activation.base activation.Lands (fun _ _ _ => False) position here instr := by
  obtain ⟨line, isLine, rfl⟩ := Option.map_eq_some_iff.mp found
  rw [activation.lands] at lands
  rcases lands with ⟨index, target, rfl, isTarget, serves⟩ | ⟨rfl, -⟩
  · rw [Nat.zero_add] at isLine ⊢
    rw [List.getElem?_map] at isTarget
    obtain ⟨here, isHere, rfl⟩ := Option.map_eq_some_iff.mp isTarget
    exact ⟨here, isHere, serves, activation.typed index line here isLine isHere⟩
  · have inside := (Array.getElem?_eq_some_iff.mp isLine).1
    simp [activation.length] at inside

theorem Machine.loop_succ_safe {watch : Watch} {host : Host} {fuel : Nat}
    (safe : (watchedCall watch host fuel).Safe strict)
    (loopSafe : LoopSafe strict (loop watch host fuel)) :
    LoopSafe strict (loop watch host (fuel + 1)) := by
  intro activation start now task floor env blocks layers next deferred busy stage sound
  unfold loop Activation.Halts
  by_cases stops : watch env next now.world = true
  · have paused : pause watch env next now.world = .broken (.watched env next now.world) :=
      if_pos stops
    show (Run.bind _ _ now.world).Safe _ _ now
    rw [Run.bind_apply, paused]
    exact ⟨now, rfl, .refl _, stage.at busy⟩
  · have goesOn : pause watch env next now.world = .done () now.world := if_neg stops
    rw [Run.bind_done goesOn]
    cases next with
    | none =>
      refine settle_halts busy stage rfl sound fun later call shape callSound busy stage => ?_
      refine loopSafe busy stage (List.forall_mem_cons.mpr ⟨callSound, fun call member => ?_⟩)
      rw [shape]
      exact sound call member
    | some instr =>
      obtain ⟨quiet, lands, isNext⟩ := stage.running_of_some
      rw [busy.within.instr?] at isNext
      obtain ⟨here, -, serves, typed⟩ := activation.instr_typed lands isNext
      let spot : Spot strict :=
        ⟨activation.toCourse, start, task, floor, env, blocks, here, now.world.ip env⟩
      have poised : spot.Poised now := ⟨busy.serves serves, quiet, rfl⟩
      show (Run.bind _ _ now.world).Safe _ _ now
      rw [Run.bind_apply]
      refine Outcome.Safe.bind (@step_safe _ _ spot _ _ _ safe poised fuel typed).grows ?_ (by simp)
      rintro later _ ⟨grows, next, env, blocks, layers, ⟨⟩, busy, stage⟩
      exact loopSafe busy stage fun call member => (sound call member).grows grows

theorem Machine.runDeferred_meets {call : Caller} (safe : call.Safe strict) {thread : ThreadRef}
    {failure : Option RuntimeError} {deferred : List Invocation} {start : Config strict}
    (quiet : start.Quiet task) (own : start.shape.Owns task thread)
    (less : floor ≤ start.world.envs.size)
    (sound : ∀ invocation ∈ deferred, invocation.Sound start.shape)
    (allowed : ∀ error, failure = some error → error.Allowed strict) :
    (runDeferred call thread failure deferred).Meets start task floor fun _ failure =>
      ∀ error, failure = some error → error.Allowed strict := by
  induction deferred generalizing start failure with
  | nil => exact Run.pure_meets quiet allowed
  | cons invocation deferred ih =>
    obtain ⟨first, rest⟩ := List.forall_mem_cons.mp sound
    refine (Run.attempt_meets (safe start task thread invocation floor quiet own first less)).bind
      fun now result since quiet ended => ?_
    have others (failure : Option RuntimeError)
        (allowed : ∀ error, failure = some error → error.Allowed strict) :=
      ih quiet (since.owns _ own) (Nat.le_trans less since.envs)
        (fun invocation member => (rest invocation member).grows since.grows) allowed
    cases result with
    | ok _ => exact others failure allowed
    | error error =>
      refine others (some error) ?_
      rintro _ ⟨⟩
      exact ended

theorem Course.Within.length_le (within : course.Within now env blocks layers) :
    blocks.length + course.root.index ≤ env.index := by
  induction within with
  | root => simp
  | @block env outer known _ _ _ found _ _ _ isOuter _ ih =>
    obtain ⟨-, there, present, sound⟩ := now.sound.envs env known found
    have older := sound.older outer isOuter
    rw [List.length_cons]
    omega

theorem Machine.finish_safe {call : Caller} (safe : call.Safe strict) {stopped : Stopped}
    (halted : activation.Halted start task floor now stopped) :
    (finish call activation.thread activation.root stopped now.world).Safe task
      (start.Ends task floor fun _ _ => True) now := by
  obtain ⟨blocks, layers, busy⟩ := halted.busy
  have deep : blocks.length < stopped.env.index + 1 := by
    have length := busy.within.length_le
    omega
  obtain ⟨later, unwound, -, advances, quiet, rest, busyLater⟩ := busy.unwind halted.quiet deep
  have calm := later.calm_alike (later.world.alike_drop activation.root)
  have busyLast := busyLater.calm calm
  have size : floor ≤ (later.alike (later.world.alike_drop activation.root)).world.envs.size := by
    obtain ⟨known, found, -, -⟩ := busyLast.within.known
    obtain ⟨-, there, present, -⟩ := Config.sound _ |>.envs _ known found
    have inside := (Array.getElem?_eq_some_iff.mp present).1
    exact Nat.le_of_lt (Nat.lt_of_le_of_lt busy.young inside)
  have runs := runDeferred_meets safe (calm.quiet quiet) busyLast.own size
    (fun invocation member => ((halted.deferred invocation member).grows advances.grows).grows calm.grows)
    halted.failure
  have dropped : Run.modify (·.drop activation.root) later.world =
      .done () (later.alike (later.world.alike_drop activation.root)).world := rfl
  unfold finish
  rw [Run.bind_done (Run.update_done unwound), Run.bind_done dropped]
  refine Outcome.Safe.sooner ?_ (advances.trans calm.advances)
  show (Run.bind _ _ _).Safe _ _ _
  rw [Run.bind_apply]
  refine Outcome.Safe.bind runs ?_ ?_
  · rintro last failure ⟨since, quiet, allowed⟩
    cases failure with
    | none => exact ⟨last, rfl, .refl _ _, busyLast.since_root.trans since, quiet, trivial⟩
    | some error =>
      exact ⟨last, rfl, .refl _ _, busyLast.since_root.trans since, quiet, allowed error rfl⟩
  · rintro last error ⟨since, quiet, allowed⟩
    exact ⟨busyLast.since_root.trans since, quiet, allowed⟩

theorem Machine.execWith_meets {call : Caller}
    {loop : EnvRef → Option Instr → List Invocation → Run Stopped} (safe : call.Safe strict)
    (loopSafe : LoopSafe strict loop) (quiet : start.Quiet task)
    (within : activation.Within start activation.root [] layers)
    (own : start.shape.Owns task activation.thread) (young : floor ≤ activation.root.index)
    (lands : activation.Lands (start.world.ip activation.root) layers) :
    (execWith call loop activation.root).Meets start task floor fun _ _ => True := by
  have busy : activation.Busy start task floor activation.root [] layers start :=
    ⟨.refl _ _ _, own, young, within, by simp, by simp⟩
  have isThread : Run.read (·.threadOf activation.root) start.world =
      .done activation.thread start.world :=
    congrArg (Outcome.done · start.world) within.threadOf
  have calm := start.calm_alike (start.world.alike_retain activation.root)
  have busyLater := busy.calm calm
  have stage : activation.Stage task activation.root layers
      (start.alike (start.world.alike_retain activation.root)) _ :=
    .running (calm.quiet quiet) (by
      obtain ⟨known, found, -, -⟩ := within.known
      rw [(calm.kept _ known found).1]
      exact lands)
  unfold Run.Meets execWith
  rw [Run.bind_done isThread]
  refine Outcome.Safe.sooner ?_ calm.advances
  show (Run.bind (loop activation.root _ []) _ _).Safe _ _ _
  rw [Run.bind_apply]
  refine Outcome.Safe.bind (loopSafe busyLater stage (by simp)) ?_ (by simp)
  rintro last _ ⟨stopped, ⟨⟩, halted⟩
  exact finish_safe safe halted

end Bodies

end MiniGo
