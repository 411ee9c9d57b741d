import MiniGo.Proofs.Activations
/-!
Places in a call. An instruction is run part by part: a part keeps the call where it is, and the last
one leads to a position that takes the environments found there, or leaves word for the executor.
-/

namespace MiniGo

variable [Natives] {strict : Prop}

/-- A place in a call: since when a task runs it, the environment it is in, the blocks it has entered,
and the position with what is known there. -/
structure Spot (strict : Prop) where
  course : Course strict
  start : Config strict
  task : ThreadRef
  floor : Nat
  env : EnvRef
  blocks : List EnvRef
  ctx : Ctx strict
  here : Nat

namespace Spot

variable (spot : Spot strict)

def Busy (layers : List Layer) (now : Config strict) : Prop :=
  spot.course.Busy spot.start spot.task spot.floor spot.env spot.blocks layers now

structure Poised (now : Config strict) : Prop where
  busy : spot.Busy spot.ctx.layers now
  quiet : now.Quiet spot.task
  ip : now.world.ip spot.env = spot.here

def Acts {α : Type} (run : Run α) (now : Config strict) (post : Config strict → α → Prop) : Prop :=
  (run now.world).Safe spot.task (fun later result =>
    spot.Poised later ∧ now.shape.Grows later.shape ∧
      match result with
      | .ok value => post later value
      | .error error => error.Allowed strict) now

end Spot

/-- What a call is about to do: run the instruction at its position, or leave its executor to decide
as an instruction has told. -/
inductive Course.Stage (course : Course strict) (task : ThreadRef) (env : EnvRef)
    (layers : List Layer) (now : Config strict) : Option Instr → Prop
  | running : now.Quiet task → course.Lands (now.world.ip env) layers →
    course.Stage task env layers now (now.world.instr? env)
  | returned : now.Leaving task course.thread (.ret, none, none) →
    course.Stage task env layers now none
  | deferring {call : Invocation} :
    now.Leaving task course.thread (.defer, some call, none) → call.Sound now.shape →
    course.Lands (now.world.ip env) layers → course.Stage task env layers now none
  | panicked {error : RuntimeError} :
    now.Leaving task course.thread (.panic, none, some error) → error.Allowed strict →
    course.Stage task env layers now none

/-- How the instruction ends: it has led to another place of the call, or failed where it was. -/
def Spot.Ended (spot : Spot strict) (later : Config strict) : Except RuntimeError Next → Prop
  | .ok (next, env) => ∃ blocks layers,
    spot.course.Busy spot.start spot.task spot.floor env blocks layers later ∧
      spot.course.Stage spot.task env layers later next
  | .error error => error.Allowed strict ∧ later.Quiet spot.task ∧ ∃ layers, spot.Busy layers later

def Spot.Steps (spot : Spot strict) (run : Run Next) (now : Config strict) : Prop :=
  (run now.world).Safe spot.task spot.Ended now

namespace Spot

variable {spot : Spot strict} {now later : Config strict} {α β : Type}

namespace Poised

theorem layer (poised : spot.Poised now) {layer : Layer} (found : spot.ctx.layers[0]? = some layer) :
    ∃ known, now.shape.env spot.env = some known ∧ known.level = layer.level ∧
      layer.Describes now spot.env known ∧ now.shape.Owns spot.task known.thread := by
  obtain ⟨known, other, rest, isKnown, thread, same, described⟩ := poised.busy.within.innermost
  rw [same] at found
  obtain rfl : other = layer := by simpa using found
  exact ⟨known, isKnown, described.level, described, thread ▸ poised.busy.own⟩

theorem hosts (poised : spot.Poised now) :
    now.Hosts spot.task now.world.envs.size spot.env spot.ctx.layers :=
  poised.busy.hosts poised.quiet (Nat.le_refl _)

theorem since (poised : spot.Poised now) (since : now.Since spot.task now.world.envs.size later)
    (quiet : later.Quiet spot.task) : spot.Poised later := by
  obtain ⟨known, found, -, thread⟩ := poised.busy.within.known
  obtain ⟨-, there, present, -⟩ := now.sound.envs spot.env known found
  have inside : spot.env.index < now.world.envs.size := (Array.getElem?_eq_some_iff.mp present).1
  have kept := since.kept spot.env known found (thread ▸ poised.busy.own) inside
  exact ⟨Course.Busy.since poised.busy since (Nat.le_refl _), quiet, kept.1.trans poised.ip⟩

end Poised

namespace Acts

variable {run : Run α} {post first : Config strict → α → Prop}

theorem of_meets (poised : spot.Poised now)
    (meets : run.Meets now spot.task now.world.envs.size post) : spot.Acts run now post := by
  refine Outcome.Safe.mono meets ?_
  rintro later (error | value) ⟨since, quiet, ends⟩
  · exact ⟨poised.since since quiet, since.grows, ends⟩
  · exact ⟨poised.since since quiet, since.grows, ends⟩

theorem mono (acts : spot.Acts run now first)
    (implies : ∀ later value, now.shape.Grows later.shape → first later value → post later value) :
    spot.Acts run now post := by
  refine Outcome.Safe.mono acts ?_
  rintro later (error | value) ⟨poised, grows, ends⟩
  · exact ⟨poised, grows, ends⟩
  · exact ⟨poised, grows, implies later value grows ends⟩

theorem bind {next : α → Run β} {second : Config strict → β → Prop} (acts : spot.Acts run now first)
    (goes : ∀ later value, spot.Poised later → now.shape.Grows later.shape → first later value →
      spot.Acts (next value) later second) : spot.Acts (run >>= next) now second := by
  show (Run.bind run next now.world).Safe spot.task _ now
  rw [Run.bind_apply]
  refine Outcome.Safe.bind acts ?_ ?_
  · rintro later value ⟨poised, grows, ends⟩
    refine Outcome.Safe.mono (goes later value poised grows ends) ?_
    rintro final result ⟨poised, more, ends⟩
    exact ⟨poised, grows.trans more, ends⟩
  · rintro later error ⟨poised, grows, ends⟩
    exact ⟨poised, grows, ends⟩

theorem pure {value : α} (poised : spot.Poised now) (holds : post now value) :
    spot.Acts (Pure.pure value) now post :=
  ⟨now, rfl, .refl _ _, poised, .refl _, holds⟩

theorem store {layer : Layer} {slot : Slot} {value : Value} (poised : spot.Poised now)
    (isLayer : spot.ctx.layers[0]? = some layer) (has : layer.level.Has slot)
    (notAny : slot.type ≠ .any) (inhabits : value.Inhabits now.shape slot.type) :
    spot.Acts (Run.store spot.env slot value) now fun later _ => later.shape.ready spot.env slot := by
  obtain ⟨known, found, level, -, own⟩ := poised.layer isLayer
  have has' : known.level.Has slot := level ▸ has
  have moves : now.Moves spot.env (now.store found has' inhabits) := Config.moves_store
  refine ⟨now.store found has' inhabits, rfl, moves.advances found own, ?_, moves.grows, .inl ⟨rfl, rfl⟩⟩
  refine ⟨Course.Busy.store poised.busy found has' notAny inhabits, moves.quiet poised.quiet, ?_⟩
  exact (World.ip_store _ _ _ _ _).trans poised.ip

theorem leads {next : α → Run β} {last : Config strict → Except RuntimeError β → Prop}
    (acts : spot.Acts run now first)
    (fails : ∀ later error, spot.Poised later → error.Allowed strict → last later (.error error))
    (goes : ∀ later value, spot.Poised later → now.shape.Grows later.shape → first later value →
      (next value later.world).Safe spot.task last later) :
    ((run >>= next) now.world).Safe spot.task last now := by
  show (Run.bind run next now.world).Safe spot.task _ now
  rw [Run.bind_apply]
  refine Outcome.Safe.bind acts ?_ ?_
  · rintro later value ⟨poised, grows, ends⟩
    exact goes later value poised grows ends
  · rintro later error ⟨poised, grows, ends⟩
    exact fails later error poised ends

theorem andThen {next : α → Run Next} (acts : spot.Acts run now first)
    (goes : ∀ later value, spot.Poised later → now.shape.Grows later.shape → first later value →
      spot.Steps (next value) later) : spot.Steps (run >>= next) now :=
  acts.leads (fun _ _ poised allowed => ⟨allowed, poised.quiet, _, poised.busy⟩) goes

end Acts

end Spot

theorem Spot.Steps.after {spot : Spot strict} {now middle : Config strict} {α : Type} {run : Run α}
    {next : α → Run Next} {value : α} (ran : run now.world = .done value middle.world)
    (advances : now.Advances spot.task middle) (steps : spot.Steps (next value) middle) :
    spot.Steps (run >>= next) now := by
  show (Run.bind run next now.world).Safe spot.task _ now
  rw [Run.bind_apply, ran]
  exact Outcome.Safe.sooner steps advances

theorem Spot.Steps.done {spot : Spot strict} {now later : Config strict} {run : Run Next}
    {next : Option Instr} {env : EnvRef} {blocks : List EnvRef} {layers : List Layer}
    (ran : run now.world = .done (next, env) later.world) (advances : now.Advances spot.task later)
    (busy : spot.course.Busy spot.start spot.task spot.floor env blocks layers later)
    (stage : spot.course.Stage spot.task env layers later next) : spot.Steps run now := by
  unfold Steps
  rw [ran]
  exact ⟨later, rfl, advances, blocks, layers, busy, stage⟩

section Endings

variable {spot : Spot strict} {now : Config strict} {target : List Layer}

namespace Step

theorem goto_steps {env : EnvRef} {blocks : List EnvRef} {position : Nat}
    (busy : spot.course.Busy spot.start spot.task spot.floor env blocks target now)
    (quiet : now.Quiet spot.task) (lands : spot.course.Lands position target) :
    spot.Steps (goto env position) now := by
  obtain ⟨known, found, -, thread⟩ := busy.within.known
  have moves := now.moves_setIp env position
  have landed : spot.course.Lands ((now.setIp env position).world.ip env) target := by
    rw [now.ip_setIp found]
    exact lands
  exact @Spot.Steps.done _ _ _ _ (now.setIp env position) _ _ _ _ _ rfl
    (moves.advances found (thread ▸ busy.own))
    (busy.next (moves.since busy.envYoung) (busy.within.setIp _ _))
    (.running (moves.quiet quiet) landed)

theorem advance_steps {env : EnvRef} {blocks : List EnvRef}
    (busy : spot.course.Busy spot.start spot.task spot.floor env blocks target now)
    (quiet : now.Quiet spot.task)
    (lands : spot.course.Lands (now.world.ip env + 1) target) : spot.Steps (advance env) now := by
  have same : advance env now.world = goto env (now.world.ip env + 1) now.world := rfl
  rw [Spot.Steps, same]
  exact goto_steps busy quiet lands

theorem next_steps (poised : spot.Poised now) (busy : spot.Busy target now)
    (lands : spot.course.Lands (spot.here + 1) target) : spot.Steps (advance spot.env) now :=
  advance_steps busy poised.quiet (poised.ip.symm ▸ lands)

theorem interrupt_done {signal : Signal} {deferred : Option Invocation} {panic : Option RuntimeError}
    (busy : spot.Busy target now)
    (leaving : now.Leaving spot.task spot.course.thread (.none, deferred, panic)) :
    ∃ later : Config strict, interrupt spot.env signal now.world = .done (none, spot.env) later.world ∧
      now.Advances spot.task later ∧ spot.Busy target later ∧
      later.Leaving spot.task spot.course.thread (signal, deferred, panic) ∧
      later.shape = now.shape ∧ later.world.ip spot.env = now.world.ip spot.env := by
  let later := now.leaves spot.course.thread ({ · with signal }) fun _ _ => .inl
  have left : later.Leaving spot.task spot.course.thread (signal, deferred, panic) := by
    refine leaving.leaves busy.own fun thread same => ?_
    obtain ⟨-, isDeferred, isPanic⟩ := Prod.mk.inj same |>.imp_right Prod.mk.inj
    simp [Thread.left, isDeferred, isPanic]
  have raised : now.world.raise (now.world.threadOf spot.env) signal = later.world := by
    rw [busy.within.threadOf]
    rfl
  exact ⟨later, congrArg (Outcome.done (none, spot.env)) raised, Config.advances_leaves busy.own,
    Course.Busy.leaves busy, left, rfl, rfl⟩

theorem ret_steps (busy : spot.Busy target now) (quiet : now.Quiet spot.task) :
    spot.Steps (interrupt spot.env .ret) now := by
  obtain ⟨later, ran, advances, busy, left, -, -⟩ := interrupt_done busy (quiet.leaving busy.own)
  exact .done ran advances busy (.returned left)

theorem defer_steps {invocation : Invocation} (busy : spot.Busy target now)
    (quiet : now.Quiet spot.task) (sound : invocation.Sound now.shape)
    (lands : spot.course.Lands (now.world.ip spot.env + 1) target) :
    spot.Steps (do
      Run.modify fun world =>
        let thread := world.threadOf spot.env
        (world.setIp spot.env (world.ip spot.env + 1)).installDefer thread invocation
      interrupt spot.env .defer) now := by
  obtain ⟨known, found, -, thread⟩ := busy.within.known
  have moves := now.moves_setIp spot.env (now.world.ip spot.env + 1)
  have young : spot.floor ≤ spot.env.index := busy.envYoung
  have busyMoved := Course.Busy.next busy (moves.since young) (busy.within.setIp _ _)
  let middle := (now.setIp spot.env (now.world.ip spot.env + 1)).leaves spot.course.thread
    ({ · with deferred := some invocation }) fun _ _ same => .inr (Option.some.inj same ▸ sound)
  have left : middle.Leaving spot.task spot.course.thread (.none, some invocation, none) := by
    refine ((moves.quiet quiet).leaving busyMoved.own).leaves busyMoved.own fun thread same => ?_
    obtain ⟨isSignal, -, isPanic⟩ := Prod.mk.inj same |>.imp_right Prod.mk.inj
    simp [Thread.left, isSignal, isPanic]
  have advances : now.Advances spot.task middle :=
    (moves.advances found (thread ▸ busy.own)).trans (Config.advances_leaves busyMoved.own)
  have installed : (now.world.setIp spot.env (now.world.ip spot.env + 1)).installDefer
      (now.world.threadOf spot.env) invocation = middle.world := by
    rw [busy.within.threadOf]
    rfl
  refine .after (congrArg (Outcome.done ()) installed) advances ?_
  have busyMiddle : spot.Busy target middle := busyMoved.leaves
  obtain ⟨later, ran, goes, busyLater, left, shape, ip⟩ := interrupt_done busyMiddle left
  refine .done ran goes busyLater (.deferring left (shape ▸ sound) ?_)
  rw [ip]
  show spot.course.Lands ((now.setIp spot.env _).world.ip spot.env) target
  rw [now.ip_setIp found]
  exact lands

end Step

end Endings

end MiniGo
