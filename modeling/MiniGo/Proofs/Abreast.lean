import MiniGo.Proofs.Counter
import MiniGo.Proofs.Drift
import MiniGo.Proofs.Invocations
/-!
The executor and the counter machine abreast. The executor finds its position in the environment that it
runs in, and learns from the signal of its thread that a body has ended; the counter machine is told its
position and the number of blocks that it is in. In typed code both do the same, and what they leave
behind differs in the positions of environments only.
-/

namespace MiniGo

namespace Lockstep

variable {pair : Lockstep} {call other : Caller}

open Comparison.Alike

theorem deliver_alike (calls : pair.Calls call other) (env : EnvRef) (hops : Nat)
    (results : List Slot) (values : Values) :
    pair.Alike (Action.deliver hops results values call env)
      (Action.deliver hops results values other env) :=
  (evalValues_alike calls env values).bind fun _ => (read (pair.up env hops)).bind fun _ =>
    storeSlots _ _ _

theorem effect_alike (calls : pair.Calls call other) (env : EnvRef) (instr : Instr) :
    pair.Alike (effect instr call env) (effect instr other env) := by
  cases instr with
  | eval values => exact (evalValues_alike calls env values).bind fun _ => .pure _
  | assign places values =>
    exact (ofPlaces_alike calls env places).bind fun _ =>
      (evalValues_alike calls env values).bind fun _ => storeAll _ _
  | update op place operand =>
    exact (ofPlace_alike calls env place).bind fun location => (loadLocation location).bind fun _ =>
      (eval_alike calls env operand).bind fun _ => (ofExcept _).bind fun _ => storeLocation location _
  | init slots values =>
    exact (evalValues_alike calls env values).bind fun _ => storeInit env slots _
  | _ => exact .pure ()

theorem act_alike (calls : pair.Calls call other) (env : EnvRef) (instr : Instr) :
    pair.Alike (act call env instr) (act other env instr) := by
  cases instr with
  | goto | push | pop | leave | interrupt => exact .pure _
  | jumpUnless cond position =>
    exact ((eval_alike calls env cond).bind fun _ => ofExcept _).bind fun _ => .pure _
  | ret hops results values =>
    exact (deliver_alike calls env hops results values).bind fun _ => .pure _
  | switch tag cases fallback =>
    exact (eval_alike calls env tag).bind fun _ =>
      (findCase_alike calls env _ fallback cases).bind fun _ => .pure _
  | _ => exact (effect_alike calls env _).bind fun _ => .pure _

end Lockstep

namespace World

variable {world other later : World} {ref found : EnvRef}

theorem change_beside (change : World → World)
    (unseen : ∀ world, change world.unplaced = (change world).unplaced)
    (same : world.unplaced = other.unplaced) : (change world).unplaced = (change other).unplaced := by
  rw [← unseen, same, unseen]

theorem push_beside (same : world.unplaced = other.unplaced) {objects words : Nat}
    (pushed : world.push ref objects words = (found, later)) :
    ∃ beside, other.push ref objects words = (found, beside) ∧ later.unplaced = beside.unplaced := by
  have both := congrArg (·.push ref objects words) same
  simp only [push_unplaced, pushed, Prod.mk.injEq] at both
  exact ⟨_, Prod.ext both.1.symm rfl, both.2⟩

theorem leave_beside (same : world.unplaced = other.unplaced) {hops : Nat}
    (left : world.leave ref hops = (found, later)) :
    ∃ beside, other.leave ref hops = (found, beside) ∧ later.unplaced = beside.unplaced := by
  have both := congrArg (·.leave ref hops) same
  simp only [leave_unplaced, left, Prod.mk.injEq] at both
  exact ⟨_, Prod.ext both.1.symm rfl, both.2⟩

theorem pop_beside (same : world.unplaced = other.unplaced) (popped : world.pop ref = (found, later)) :
    ∃ beside, other.leave ref 1 = (found, beside) ∧ later.unplaced = beside.unplaced := by
  have both := (world.pop_unplaced ref).trans (congrArg (·.leave ref 1) same)
  simp only [leave_unplaced, popped, Prod.mk.injEq] at both
  exact ⟨_, Prod.ext both.1.symm rfl, both.2⟩

end World

variable [Natives] {strict : Prop}

section Instructions

variable {spot : Spot strict} {now : Config strict} {call : Caller}

/-- The instruction may lead so: the blocks that it leaves have been entered, and the environments that
it leads to are known. -/
def Spot.Admits (spot : Spot strict) (layers : List Layer) : Move → Prop
  | .next => spot.course.Lands (spot.here + 1) layers
  | .jump position => spot.course.Lands position layers
  | .push objects words => ∃ level : Level, level.frame.objects = objects ∧
    level.frame.words = words ∧ spot.course.Lands (spot.here + 1) ({ level } :: layers)
  | .pop => 1 ≤ spot.blocks.length ∧ spot.course.Lands (spot.here + 1) (layers.drop 1)
  | .leave hops position => hops ≤ spot.blocks.length ∧ spot.course.Lands position (layers.drop hops)
  | .stop => True

theorem Spot.Acts.leading (move : Move) (poised : spot.Poised now)
    (admits : spot.Admits spot.ctx.layers move) :
    spot.Acts (Pure.pure move) now fun later move =>
      ∃ layers, spot.Busy layers later ∧ spot.Admits layers move :=
  .pure poised ⟨_, poised.busy, admits⟩

theorem act_acts (safe : call.Safe strict) (poised : spot.Poised now) {instr : Instr}
    (plain : instr.isPlain = true)
    (typed : InstrTyped strict spot.course.base spot.course.Lands (fun _ _ _ => False) spot.here
      spot.ctx instr) :
    spot.Acts (act call spot.env instr) now fun later move =>
      ∃ layers, spot.Busy layers later ∧ spot.Admits layers move := by
  -- Where the instruction goes on at the next one, with some slots stored in the innermost environment.
  have next {slots : List Slot} {later : Config strict} (poised : spot.Poised later)
      (ready : strict → ∀ slot ∈ slots, later.shape.ready spot.env slot)
      (lands : spot.course.Lands (spot.here + 1) (stored slots spot.ctx.layers)) :
      spot.Acts (Pure.pure Move.next) later fun later move =>
        ∃ layers, spot.Busy layers later ∧ spot.Admits layers move :=
    .pure poised ⟨_, Course.Busy.stored poised.busy ready, lands⟩
  cases typed with
  | skip lands => exact .leading .next poised lands
  | interrupt => exact .leading .stop poised trivial
  | goto lands => exact .leading (.jump _) poised lands
  | push lands => exact .leading (.push _ _) poised ⟨_, rfl, rfl, lands⟩
  | pop same inside lands =>
    refine .leading .pop poised ⟨poised.hops_le ?_, ?_⟩
    · rwa [same]
    · rwa [same]
  | leave inside lands => exact .leading (.leave _ _) poised ⟨poised.hops_le inside, lands⟩
  | exit impossible => exact impossible.elim
  | eval typed lands =>
    simp only [act, effect, Action.evaluate, Run.bind_assoc]
    exact (evalValues_acts safe poised typed).bind fun _ _ poised _ _ => .leading .next poised lands
  | jumpUnless fits follows lands =>
    refine (Step.test_acts safe poised fits).bind fun _ truth poised _ _ => .leading _ poised ?_
    cases truth with
    | true => exact follows
    | false => exact lands
  | ret isLayer shared typed assignable =>
    exact (Step.deliver_acts safe poised isLayer shared typed assignable).bind
      fun _ _ poised _ _ => .leading .stop poised trivial
  | assign places typed stores lands =>
    exact (Step.assign_acts safe poised places typed stores).bind
      fun _ _ poised _ ready => next poised ready lands
  | update typed fits takes lands =>
    exact (Step.update_acts safe poised typed fits takes).bind
      fun _ _ poised _ _ => .leading .next poised lands
  | init isLayer shared typed stores lands =>
    exact (Step.init_acts safe poised isLayer shared typed stores).bind
      fun _ _ poised _ ready => next poised ready lands
  | switch fits typed lands otherwise =>
    simp only [act]
    rw [← Run.bind_assoc]
    exact (Step.dispatch_acts safe poised fits typed lands otherwise).bind
      fun _ _ poised _ lands => .leading (.jump _) poised lands
  | _ => simp [InstrOf.isPlain, InstrOf.isSimple] at plain

end Instructions

theorem Course.Busy.idle {course : Course strict} {start now : Config strict} {task : ThreadRef}
    {floor : Nat} {env : EnvRef} {blocks : List EnvRef} {layers : List Layer}
    (busy : course.Busy start task floor env blocks layers now) (quiet : now.Quiet task) :
    now.world.Idle env := by
  constructor
  · rw [busy.within.threadOf]
    exact (now.sound.threads _).mp (now.owner_isSome quiet.isTask busy.own)
  · rw [busy.within.threadOf]
    exact quiet.left _ busy.own

/-- The executor is at a position of a call in progress, and the counter machine has been told this
position and so many blocks. -/
structure Course.Abreast (course : Course strict) (start : Config strict) (task : ThreadRef)
    (floor : Nat) (env : EnvRef) (depth position : Nat) (now : Config strict) (other : World) :
    Prop where
  busy : ∃ blocks layers, course.Busy start task floor env blocks layers now ∧
    blocks.length = depth ∧ course.Lands position layers
  quiet : now.Quiet task
  ip : now.world.ip env = position
  unplaced : now.world.unplaced = other.unplaced

section Moves

variable {course : Course strict} {start now : Config strict} {task : ThreadRef} {floor : Nat}
  {env : EnvRef} {blocks : List EnvRef} {layers : List Layer} {position : Nat} {other : World}

theorem Course.Busy.goto_abreast (busy : course.Busy start task floor env blocks layers now)
    (quiet : now.Quiet task) (lands : course.Lands position layers)
    (unplaced : now.world.unplaced = other.unplaced) :
    ∃ later : Config strict,
      Step.goto env position now.world = .done (course.program.instr? position, env) later.world ∧
      now.Advances task later ∧
      course.Abreast start task floor env blocks.length position later other := by
  obtain ⟨known, found, -, thread⟩ := busy.within.known
  have moves := now.moves_setIp env position
  have ip := now.ip_setIp found position
  have instr : (now.setIp env position).world.instr? env = course.program.instr? position := by
    rw [(busy.within.setIp env position).instr?, ip]
  refine ⟨now.setIp env position, ?_, moves.advances found (thread ▸ busy.own),
    ⟨blocks, layers, busy.next (moves.since busy.envYoung) (busy.within.setIp _ _), rfl, lands⟩,
    moves.quiet quiet, ip, (World.setIp_unplaced env position).trans unplaced⟩
  exact congrArg (fun next => Outcome.done (next, env) (now.setIp env position).world) instr

theorem Course.Busy.advance_abreast (busy : course.Busy start task floor env blocks layers now)
    (quiet : now.Quiet task) (ip : now.world.ip env = position)
    (lands : course.Lands (position + 1) layers) (unplaced : now.world.unplaced = other.unplaced) :
    ∃ later : Config strict,
      Step.advance env now.world =
        .done (course.program.instr? (position + 1), env) later.world ∧
      now.Advances task later ∧
      course.Abreast start task floor env blocks.length (position + 1) later other := by
  rw [Step.advance_apply, ip]
  exact busy.goto_abreast quiet lands unplaced

end Moves

section Leading

variable {spot : Spot strict} {now : Config strict} {layers : List Layer} {other : World}

/-- Where an instruction leads, if it goes on: the executor gets there, and the counter machine is told
to go there. -/
def Spot.Reaches (spot : Spot strict) (move : Move) (now : Config strict) (other : World) : Prop :=
  ∃ (env : EnvRef) (depth position : Nat) (later : Config strict) (otherLater : World),
    move.perform spot.env now.world =
      .done (spot.course.program.instr? position, env) later.world ∧
    now.Advances spot.task later ∧
    (∀ go, Counter.follow go spot.env spot.blocks.length spot.here (.ok move) other =
      go env depth position otherLater) ∧
    spot.course.Abreast spot.start spot.task spot.floor env depth position later otherLater

theorem Spot.reaches_push (poised : spot.Poised now) (busy : spot.Busy layers now) {level : Level}
    (lands : spot.course.Lands (spot.here + 1) ({ level } :: layers))
    (unplaced : now.world.unplaced = other.unplaced) :
    spot.Reaches (.push level.frame.objects level.frame.words) now other := by
  obtain ⟨inner, middle, pushed, first, quiet, busy, ip⟩ := Course.Busy.push busy poised.quiet level
  have calm := middle.calm_alike (middle.world.alike_drop spot.env)
  obtain ⟨beside, pushedBeside, same⟩ := World.push_beside unplaced pushed
  obtain ⟨known, found, -, -⟩ := busy.within.known
  have here : (middle.alike (middle.world.alike_drop spot.env)).world.ip inner = spot.here :=
    (calm.kept inner known found).1.trans (ip.trans poised.ip)
  have dropped : (middle.world.drop spot.env).unplaced = (beside.drop spot.env).unplaced :=
    World.change_beside (·.drop spot.env) (fun _ => World.drop_unplaced _) same
  obtain ⟨later, ran, second, abreast⟩ :=
    (busy.calm calm).advance_abreast (calm.quiet quiet) here lands dropped
  refine ⟨inner, _, _, later, _, ?_, (first.trans calm.advances).trans second, fun go => ?_, abreast⟩
  · exact (Run.bind_done (Run.update_done pushed) _).trans ran
  · exact Run.bind_done (Run.update_done pushedBeside) _

theorem Spot.reaches_pop (poised : spot.Poised now) (busy : spot.Busy layers now)
    (inside : 1 ≤ spot.blocks.length) (lands : spot.course.Lands (spot.here + 1) (layers.drop 1))
    (unplaced : now.world.unplaced = other.unplaced) : spot.Reaches .pop now other := by
  obtain ⟨outer, middle, popped, first, quiet, busy, ip⟩ :=
    Course.Busy.pop busy poised.quiet (List.ne_nil_of_length_pos inside)
  obtain ⟨beside, leftBeside, same⟩ := World.pop_beside unplaced popped
  obtain ⟨later, ran, second, abreast⟩ :=
    busy.advance_abreast quiet (ip.trans poised.ip) (List.drop_one ▸ lands) same
  rw [List.length_tail] at abreast
  refine ⟨outer, _, _, later, _, ?_, first.trans second, fun go => ?_, abreast⟩
  · exact (Run.bind_done (Run.update_done popped) _).trans ran
  · exact Run.bind_done (Run.update_done leftBeside) _

theorem Spot.reaches_leave (poised : spot.Poised now) (busy : spot.Busy layers now)
    {hops position : Nat} (inside : hops ≤ spot.blocks.length)
    (lands : spot.course.Lands position (layers.drop hops))
    (unplaced : now.world.unplaced = other.unplaced) :
    spot.Reaches (.leave hops position) now other := by
  obtain ⟨outer, middle, left, first, quiet, busy⟩ :=
    Course.Busy.leave busy poised.quiet hops inside
  obtain ⟨beside, leftBeside, same⟩ := World.leave_beside unplaced left
  obtain ⟨later, ran, second, abreast⟩ := busy.goto_abreast quiet lands same
  rw [List.length_drop] at abreast
  refine ⟨outer, _, _, later, _, ?_, first.trans second, fun go => ?_, abreast⟩
  · exact (Run.bind_done (Run.update_done left) _).trans ran
  · exact Run.bind_done (Run.update_done leftBeside) _

theorem Spot.reaches (poised : spot.Poised now) (busy : spot.Busy layers now) {move : Move}
    (admits : spot.Admits layers move) (goes : move ≠ .stop)
    (unplaced : now.world.unplaced = other.unplaced) : spot.Reaches move now other := by
  cases move with
  | next =>
    obtain ⟨later, ran, advances, abreast⟩ :=
      Course.Busy.advance_abreast busy poised.quiet poised.ip admits unplaced
    exact ⟨_, _, _, later, other, ran, advances, fun _ => rfl, abreast⟩
  | jump position =>
    obtain ⟨later, ran, advances, abreast⟩ :=
      Course.Busy.goto_abreast busy poised.quiet admits unplaced
    exact ⟨_, _, _, later, other, ran, advances, fun _ => rfl, abreast⟩
  | push objects words =>
    obtain ⟨level, rfl, rfl, lands⟩ := admits
    exact Spot.reaches_push poised busy lands unplaced
  | pop => exact Spot.reaches_pop poised busy admits.1 admits.2 unplaced
  | leave hops position => exact Spot.reaches_leave poised busy admits.1 admits.2 unplaced
  | stop => exact absurd rfl goes

end Leading

/-- Two runs of a task whose states differ in positions only. The state of the first run is sound, and
what others do while it waits leaves the task alone. -/
def Comparison.escorted (strict : Prop) (task : ThreadRef) (early late : Prop) : Comparison where
  State := (EnvRef → Prop) × Config strict
  goes before after := before.2.Advances task after.2
  waits before after := after.1 = before.1 ∧ before.2.Waits task after.2
  holds state left right := state.2.world = left ∧ World.Drift state.1 left right
  early := early
  late := late
  refl state := .refl task state.2
  trans := .trans

theorem Outcome.Agree.escorted {α β : Type} {task : ThreadRef} {early late : Prop}
    {fixed : (Comparison.drifting early late).State} {now : Config strict} {first : Outcome α}
    {second : Outcome β}
    {ends : (EnvRef → Prop) → Except RuntimeError α → Except RuntimeError β → Prop}
    {post : Config strict → Except RuntimeError α → Prop}
    (agree : first.Agree (.drifting early late) ends fixed second) (safe : first.Safe task post now) :
    first.Agree (.escorted strict task early late)
      (fun state result found => ends state.1 result found ∧ post state.2 result) (fixed, now)
      second := by
  induction agree generalizing now with
  | done _ drift same =>
    obtain ⟨later, rfl, advances, holds⟩ := safe
    exact @Outcome.Agree.done (.escorted ..) _ _ _ _ (_, later) _ _ _ _ advances ⟨rfl, drift⟩
      ⟨same, holds⟩
  | fail _ drift same =>
    obtain ⟨later, rfl, advances, holds⟩ := safe
    exact @Outcome.Agree.fail (.escorted ..) _ _ _ _ (_, later) _ _ _ _ advances ⟨rfl, drift⟩
      ⟨same, holds⟩
  | await _ drift _ ih =>
    obtain ⟨later, rfl, advances, -, resumes⟩ := safe
    refine @Outcome.Agree.await (.escorted ..) _ _ _ _ (_, later) _ _ _ _ _ advances ⟨rfl, drift⟩ ?_
    rintro ⟨fixed, next⟩ left right ⟨rfl, waits⟩ ⟨rfl, drift⟩
    exact ih _ _ _ rfl drift (resumes next waits)
  | early may => exact .early may
  | late may => exact .late may
  | exhausted => exact .exhausted

def Counter.conclude (halt : Counter.Halt) : Run Unit := do
  Run.modify (·.drop halt.1)
  match halt.2 with
  | some error => Run.fail error
  | none => pure ()

section Bodies

variable {activation : Activation strict} {start now : Config strict} {task : ThreadRef} {floor : Nat}
  {env : EnvRef} {blocks : List EnvRef} {layers : List Layer} {other : World} {early late : Prop}

/-- The state of a run that is about to go on, of whose positions nothing is known. -/
abbrev Config.unfixed (config : Config strict) : (EnvRef → Prop) × Config strict :=
  (fun _ => False, config)

omit [Natives] in
theorem World.Drift.of_unplaced {left right : World} (same : left.unplaced = right.unplaced) :
    World.Drift (fun _ => False) left right := ⟨same, fun _ => False.elim⟩

abbrev Config.Matches {α : Type} (task : ThreadRef) (early late : Prop) (now : Config strict)
    (run other : Run α) (beside : World) : Prop :=
  (run now.world).Agree (.escorted strict task early late) (fun _ result found => result = found)
    now.unfixed (other beside)

namespace Config.Matches

variable {α : Type}

theorem done {run otherRun : Run α} {value : α} {beside : World} (later : Config strict)
    (advances : now.Advances task later) (unplaced : later.world.unplaced = beside.unplaced)
    (ran : run now.world = .done value later.world := by rfl)
    (otherRan : otherRun other = .done value beside := by rfl) :
    now.Matches task early late run otherRun other := by
  unfold Config.Matches
  rw [ran, otherRan]
  exact @Outcome.Agree.done (.escorted ..) _ _ _ _ later.unfixed _ _ _ _ advances
    ⟨rfl, .of_unplaced unplaced⟩ rfl

theorem fail {run otherRun : Run α} {error : RuntimeError} {beside : World} (later : Config strict)
    (advances : now.Advances task later) (unplaced : later.world.unplaced = beside.unplaced)
    (ran : run now.world = .fail error later.world := by rfl)
    (otherRan : otherRun other = .fail error beside := by rfl) :
    now.Matches task early late run otherRun other := by
  unfold Config.Matches
  rw [ran, otherRan]
  exact @Outcome.Agree.fail (.escorted ..) _ _ _ _ later.unfixed _ _ _ _ advances
    ⟨rfl, .of_unplaced unplaced⟩ rfl

theorem after {later : Config strict} {run rest otherRun otherRest : Run α} {beside : World}
    (agree : later.Matches task early late rest otherRest beside)
    (ran : run now.world = rest later.world) (otherRan : otherRun other = otherRest beside)
    (advances : now.Advances task later) : now.Matches task early late run otherRun other := by
  unfold Config.Matches
  rw [ran, otherRan]
  exact Outcome.Agree.sooner agree advances

theorem agree {state : (EnvRef → Prop) × Config strict} {run otherRun : Run α}
    (agree : state.2.Matches task early late run otherRun other) :
    (run state.2.world).Agree (.escorted strict task early late) (fun _ result found => result = found)
      state (otherRun other) :=
  Outcome.Agree.sooner agree (.refl task state.2)

end Config.Matches

theorem Machine.finish_matches (call : Caller)
    (busy : activation.Busy start task floor env blocks layers now) (quiet : now.Quiet task)
    (unplaced : now.world.unplaced = other.unplaced) (failure : Option RuntimeError) :
    now.Matches task early late
      (finish call activation.thread activation.root ⟨env, [], failure⟩)
      (Counter.stop env blocks.length failure >>= Counter.conclude) other := by
  have deep : blocks.length < env.index + 1 := by
    have length := busy.within.length_le
    omega
  obtain ⟨later, unwound, left, advances, -, -, -⟩ := busy.unwind quiet deep
  obtain ⟨beside, leftBeside, same⟩ := World.leave_beside unplaced left
  have dropped : (later.world.drop activation.root).unplaced =
      (beside.drop activation.root).unplaced :=
    World.change_beside (·.drop activation.root) (fun _ => World.drop_unplaced _) same
  have calm := later.calm_alike (later.world.alike_drop activation.root)
  let last := later.alike (later.world.alike_drop activation.root)
  have goes : now.Advances task last := advances.trans calm.advances
  have ran : finish call activation.thread activation.root ⟨env, [], failure⟩ now.world = _ :=
    Run.bind_done (Run.update_done unwound) _
  have otherRan : (Counter.stop env blocks.length failure >>= Counter.conclude) other =
      Counter.conclude (activation.root, failure) beside := by
    unfold Counter.stop
    rw [Run.bind_assoc, Run.bind_done (Run.update_done leftBeside)]
    rfl
  cases failure with
  | none => exact .done last goes dropped ran otherRan
  | some error => exact .fail last goes dropped ran otherRan

end Bodies

/-- The executor has no more fuel than the counter machine and its calls, or it has more than both. -/
def Counter.Bounds (early late : Prop) (fuel less calls : Nat) : Prop :=
  (early ∧ fuel ≤ less ∧ fuel ≤ calls) ∨ (late ∧ less + calls < fuel)

namespace Counter.Bounds

variable {early late : Prop} {fuel less calls : Nat}

omit [Natives]

theorem pred (bounds : Bounds early late (fuel + 1) (less + 1) calls) :
    Bounds early late fuel less calls := by
  rcases bounds with ⟨may, few⟩ | ⟨may, many⟩
  · exact .inl ⟨may, by omega⟩
  · exact .inr ⟨may, by omega⟩

theorem fuels (bounds : Bounds early late fuel less calls) :
    (Comparison.drifting early late).Fuels fuel calls := by
  rcases bounds with ⟨may, few⟩ | ⟨may, many⟩
  · exact .inr (.inl ⟨may, few.2⟩)
  · exact .inr (.inr ⟨may, by omega⟩)

theorem spare (bounds : Bounds early late fuel less calls) (out : fuel = 0) : early := by
  rcases bounds with ⟨may, -⟩ | ⟨-, many⟩
  · exact may
  · omega

end Counter.Bounds

section Bodies

variable {activation : Activation strict} {start now : Config strict} {task : ThreadRef} {floor : Nat}
  {env : EnvRef} {blocks : List EnvRef} {layers : List Layer} {other : World} {early late : Prop}
  {host : Host} {fuel less calls : Nat}

def Activation.rest (activation : Activation strict) (host : Host) (finisher : Caller) (fuel : Nat)
    (env : EnvRef) (next : Option Instr) : Run Unit :=
  Machine.loop .never host fuel env next [] >>=
    Machine.finish finisher activation.thread activation.root

def Counter.rest (program : Program) (call : Caller) (fuel : Nat) (env : EnvRef)
    (depth position : Nat) : Run Unit :=
  run program call fuel env depth position >>= conclude

theorem Machine.stops_matches (finisher : Caller) {found : World} {failure : Option RuntimeError}
    (busy : activation.Busy start task floor env blocks layers now) (quiet : now.Quiet task)
    (unplaced : now.world.unplaced = other.unplaced)
    (settled : ∀ resume, settle resume env [] found = .done ⟨env, [], failure⟩ now.world)
    (spare : fuel = 0 → early) :
    (activation.rest host finisher fuel env none found).Agree (.escorted strict task early late)
      (fun _ result found => result = found) now.unfixed
      ((Counter.stop env blocks.length failure >>= Counter.conclude) other) := by
  unfold Activation.rest
  cases fuel with
  | zero =>
    rw [loop]
    exact .early (spare rfl)
  | succ fuel =>
    have ended : loop .never host (fuel + 1) env none [] found =
        .done ⟨env, [], failure⟩ now.world := by
      rw [loop]
      exact settled _
    rw [Run.bind_done ended]
    exact finish_matches finisher busy quiet unplaced failure

def Machine.lead (env : EnvRef) : Except RuntimeError Move → Run Next
  | .ok move => move.perform env
  | .error error => Step.raise env error

section Step

variable {spot : Spot strict} (finisher : Caller) (isCourse : spot.course = activation.toCourse)
  (spare : fuel = 0 → early)
  (goes : ∀ {env depth position later beside},
    activation.Abreast spot.start spot.task spot.floor env depth position later beside →
    later.Matches spot.task early late
      (activation.rest host finisher fuel env (activation.program.instr? position))
      (Counter.rest activation.program (Machine.call host calls) less env depth position) beside)

include isCourse spare goes

theorem Machine.lead_matches (poised : spot.Poised now) (busy : spot.Busy layers now)
    (unplaced : now.world.unplaced = other.unplaced) {ending : Except RuntimeError Move}
    (admits : ∀ move, ending = .ok move → spot.Admits layers move) :
    now.Matches spot.task early late
      (lead spot.env ending >>= fun next => activation.rest host finisher fuel next.2 next.1)
      (Counter.follow (Counter.run activation.program (call host calls) less) spot.env
        spot.blocks.length spot.here ending >>= Counter.conclude) other := by
  obtain ⟨course, start, task, floor, env, blocks, ctx, here⟩ := spot
  obtain rfl : course = activation.toCourse := isCourse
  have idle := Course.Busy.idle busy poised.quiet
  have stops {failure : Option RuntimeError} {found : World}
      (ran : lead env ending now.world = .done (none, env) found)
      (settled : ∀ resume, settle resume env [] found = .done ⟨env, [], failure⟩ now.world) :
      now.Matches task early late
        (lead env ending >>= fun next => activation.rest host finisher fuel next.2 next.1)
        (Counter.stop env blocks.length failure >>= Counter.conclude) other := by
    unfold Config.Matches
    rw [Run.bind_done ran]
    exact stops_matches finisher busy poised.quiet unplaced settled spare
  cases ending with
  | error error => exact stops rfl fun resume => settle_raised idle resume [] error
  | ok move =>
    by_cases isStop : move = .stop
    · subst isStop
      exact stops rfl fun resume => settle_signal idle resume [] .ret
    · obtain ⟨env, depth, position, later, beside, ran, advances, follows, abreast⟩ :=
        Spot.reaches poised busy (admits move rfl) isStop unplaced
      refine (goes abreast).after (Run.bind_done ran _) ?_ advances
      show Run.bind _ _ other = Run.bind _ _ beside
      rw [Run.bind_apply, Run.bind_apply, follows]

theorem Machine.step_matches (natives : ∀ native ∈ host, HostFunction.Unplaced native)
    (hostSafe : host.Safe strict) (poised : spot.Poised now) {instr : Instr}
    (plain : instr.isPlain = true)
    (typed : InstrTyped strict spot.course.base spot.course.Lands (fun _ _ _ => False) spot.here
      spot.ctx instr)
    (unplaced : now.world.unplaced = other.unplaced)
    (fuels : (Comparison.drifting early late).Fuels fuel calls) :
    now.Matches spot.task early late
      (activation.rest host finisher (fuel + 1) spot.env (some instr))
      (Run.attempt (act (call host calls) spot.env instr) >>=
        Counter.follow (Counter.run activation.program (call host calls) less) spot.env
          spot.blocks.length spot.here >>= Counter.conclude) other := by
  have stepped : loop .never host (fuel + 1) spot.env (some instr) [] =
      Run.attempt (act (call host fuel) spot.env instr) >>= lead spot.env >>= fun next =>
        loop .never host fuel next.2 next.1 [] := by
    rw [loop]
    show step _ fuel spot.env instr >>= _ = _
    rw [step_eq plain]
    rfl
  have agree := @Lockstep.act_alike (.drifting early late) _ _ (call_drifts natives fuels) spot.env instr
    _ _ _ (World.Drift.of_unplaced unplaced)
  have acts := act_acts (watchedCall_safe .never hostSafe fuel).1 poised plain typed
  have attempted : (Run.attempt (act (call host fuel) spot.env instr) now.world).Agree
      (.escorted strict spot.task early late) (fun state result found => ∃ ending,
        result = .ok ending ∧ found = .ok ending ∧ spot.Poised state.2 ∧ ∃ layers,
          spot.Busy layers state.2 ∧ ∀ move, ending = .ok move → spot.Admits layers move)
      now.unfixed (Run.attempt (act (call host calls) spot.env instr) other) := by
    rw [Run.attempt_apply, Run.attempt_apply]
    refine Outcome.Agree.attempt ((Outcome.Agree.escorted agree acts).mono ?_)
    rintro state result _ ⟨rfl, poised, -, ends⟩
    refine ⟨result, rfl, rfl, poised, ?_⟩
    cases result with
    | ok move =>
      obtain ⟨layers, busy, admits⟩ := ends
      refine ⟨layers, busy, ?_⟩
      rintro _ ⟨⟩
      exact admits
    | error error => exact ⟨_, poised.busy, by simp⟩
  rw [Activation.rest, stepped, Run.bind_assoc, Run.bind_assoc, Run.bind_assoc]
  show (Run.bind _ _ now.world).Agree _ _ _ (Run.bind _ _ other)
  rw [Run.bind_apply, Run.bind_apply]
  refine attempted.bind ?_ (by simp)
  rintro ⟨fixed, later⟩ _ _ _ right ⟨rfl, drift⟩ ⟨ending, ⟨⟩, ⟨⟩, poised, layers, busy, admits⟩
  exact (lead_matches finisher isCourse spare goes poised busy drift.unplaced admits).agree

end Step

theorem Machine.loop_matches (natives : ∀ native ∈ host, HostFunction.Unplaced native)
    (hostSafe : host.Safe strict)
    (plain : ∀ position instr, activation.program.instr? position = some instr →
      instr.isPlain = true) (finisher : Caller) {depth position : Nat}
    (bounds : Counter.Bounds early late fuel less calls)
    (abreast : activation.Abreast start task floor env depth position now other) :
    now.Matches task early late
      (activation.rest host finisher fuel env (activation.program.instr? position))
      (Counter.rest activation.program (call host calls) less env depth position) other := by
  induction fuel generalizing less env depth position now other with
  | zero =>
    rw [Activation.rest, loop]
    exact .early (bounds.spare rfl)
  | succ fuel ih =>
    cases less with
    | zero =>
      rcases bounds with ⟨-, impossible, -⟩ | ⟨may, -⟩
      · omega
      · exact .late may
    | succ less =>
      obtain ⟨⟨blocks, layers, busy, rfl, lands⟩, quiet, ip, unplaced⟩ := abreast
      rw [Counter.rest, Counter.run]
      cases isInstr : activation.program.instr? position with
      | none =>
        exact stops_matches finisher busy quiet unplaced
          (fun resume => settle_idle (busy.idle quiet) resume []) (by simp)
      | some instr =>
        obtain ⟨here, -, serves, typed⟩ := activation.instr_typed lands isInstr
        let spot : Spot strict :=
          ⟨activation.toCourse, start, task, floor, env, blocks, here, position⟩
        have poised : spot.Poised now := ⟨busy.serves serves, quiet, ip⟩
        exact step_matches finisher rfl bounds.pred.spare (fun abreast => ih bounds.pred abreast)
          natives hostSafe poised (plain position instr isInstr) typed unplaced bounds.pred.fuels

theorem Machine.exec_matches (natives : ∀ native ∈ host, HostFunction.Unplaced native)
    (hostSafe : host.Safe strict) {template : Template} {root : EnvRef}
    (plain : ∀ position instr, Program.instr? template.program position = some instr →
      instr.isPlain = true)
    (bounds : Counter.Bounds early late fuel less calls) (quiet : start.Quiet task)
    (ready : template.Ready start task root) (unplaced : start.world.unplaced = other.unplaced) :
    start.Matches task early late (exec host fuel root)
      (Counter.exec template.program (call host calls) less root) other := by
  obtain ⟨activation, layers, same, rfl, own, within, ip, lands⟩ := ready
  rw [← same] at plain ⊢
  have busy : activation.Busy start task 0 activation.root [] layers start :=
    ⟨.refl _ _ _, own, Nat.zero_le _, within, by simp, by simp⟩
  have calm := start.calm_alike (start.world.alike_retain activation.root)
  let first := start.alike (start.world.alike_retain activation.root)
  have here : first.world.ip activation.root = 0 := by
    obtain ⟨known, found, -, -⟩ := within.known
    exact (calm.kept _ known found).1.trans ip
  have retained : first.world.unplaced = (other.retain activation.root).unplaced :=
    World.change_beside (·.retain activation.root) (fun _ => World.retain_unplaced _) unplaced
  have abreast : activation.Abreast start task 0 activation.root 0 0 first
      (other.retain activation.root) :=
    ⟨⟨[], layers, busy.calm calm, rfl, lands⟩, calm.quiet quiet, here, retained⟩
  refine (loop_matches natives hostSafe plain (call host fuel) bounds abreast).after ?_ rfl calm.advances
  have isThread : start.world.threadOf activation.root = activation.thread := within.threadOf
  have isInstr : first.world.instr? activation.root = activation.program.instr? 0 := by
    rw [(busy.calm calm).within.instr?, here]
  rw [Activation.rest, ← isThread, ← isInstr]
  rfl

end Bodies

section Calls

variable {start : Config strict} {task thread : ThreadRef} {early late : Prop} {template : Template}
  {outer : EnvRef} {args : List Value}

omit [Natives] in
theorem Lockstep.enter_alike (pair : Lockstep) (template : Template) (outer : EnvRef)
    (thread : ThreadRef) (args : List Value) :
    pair.Alike (Machine.enter template outer thread args)
      (Machine.enter template outer thread args) :=
  (acquire_alike thread _ _ _ _ _).bind fun env => (storeInit env _ args).bind fun _ =>
    (storeZeros env _).bind fun _ => .pure env

theorem Machine.release_matches (template : Template) (thread : ThreadRef) (root : EnvRef)
    (ended : Except RuntimeError Unit) {now : Config strict} {other : World}
    (unplaced : now.world.unplaced = other.unplaced) :
    now.Matches task early late (release template thread root ended)
      (release template thread root ended) other := by
  cases ended with
  | error error =>
    have dropped : (now.world.drop root).unplaced = (other.drop root).unplaced :=
      World.change_beside (·.drop root) (fun _ => World.drop_unplaced _) unplaced
    exact .fail (now.alike (now.world.alike_drop root)) (now.calm_alike _).advances dropped
  | ok _ =>
    have recycled : (now.world.recycle thread root).unplaced =
        (other.recycle thread root).unplaced :=
      World.change_beside (·.recycle thread root) (fun _ => World.recycle_unplaced _ _) unplaced
    have loads : template.results.map (other.load root) = template.results.map (now.world.load root) :=
      List.map_congr_left fun slot _ => by
        rw [← World.load_unplaced, ← unplaced, World.load_unplaced]
    refine .done (now.alike (now.world.alike_recycle thread root)) (now.calm_alike _).advances recycled
      rfl ?_
    exact congrArg (Outcome.done · (other.recycle thread root)) loads

theorem Machine.invoke_matches {run otherRun : EnvRef → Run Unit} (quiet : start.Quiet task)
    (own : start.shape.Owns task thread) (known : ∀ value ∈ args, value.Known start.shape)
    (are : strict → List.Forall₂ Value.Is args template.signature.params)
    (isKnown : (FuncBody.closure template outer).Known start.shape template.signature)
    (bodies : ∀ {now : Config strict} {root : EnvRef} {beside : World}, now.Quiet task →
      template.Ready now task root → now.world.unplaced = beside.unplaced →
      now.Matches task early late (run root) (otherRun root) beside) :
    start.Matches task early late (invoke run template outer thread args)
      (invoke otherRun template outer thread args) start.world := by
  obtain ⟨-, ctx, typed, spans⟩ := isKnown
  have agree := (Lockstep.drifting early late).enter_alike template outer thread args (fun _ => False)
    start.world start.world (.of_unplaced rfl)
  have enters := enter_meets quiet own (Nat.zero_le _) known are typed spans.lasting
    (by simp [Ctx.lasting, Layer.lasting])
  rw [invoke_eq, invoke_eq]
  show (Run.bind _ _ start.world).Agree _ _ _ (Run.bind _ _ start.world)
  rw [Run.bind_apply, Run.bind_apply]
  refine (Outcome.Agree.escorted agree enters).bind ?_ ?_
  · rintro ⟨fixed, now⟩ root _ _ right ⟨rfl, drift⟩ ⟨⟨⟩, -, quiet, ready, -⟩
    have ended := Outcome.Agree.attempt
      ((bodies quiet ready drift.unplaced).mono fun _ _ _ same => congrArg Except.ok same)
    refine Config.Matches.agree ?_
    show (Run.bind (Run.attempt (run root)) _ now.world).Agree _ _ _
      (Run.bind (Run.attempt (otherRun root)) _ right)
    rw [Run.bind_apply, Run.bind_apply, Run.attempt_apply, Run.attempt_apply]
    refine ended.bind ?_ (by simp)
    rintro ⟨fixed, later⟩ result _ _ right ⟨rfl, drift⟩ ⟨⟩
    exact (release_matches template thread root result drift.unplaced).agree
  · rintro state error _ ⟨⟨⟩, -⟩
    rfl

end Calls

end MiniGo
