import MiniGo.Proofs.Branching
import MiniGo.Proofs.Stores
import MiniGo.Proofs.Windows
/-!
Instructions that a statement puts around its parts. They enter and leave environments, jump, and keep
values in slots that no other code stores to. Each leads where it leads in every state, and so a run is
seen to come to one of them and to go on from there.
-/

namespace MiniGo

variable {strict : Prop}

/-- The moment is at a position in an environment. -/
structure Moment.Stands (moment : Moment) (env : EnvRef) (position : Nat) : Prop where
  env : moment.env = env
  position : moment.position = position

/-- A run comes to an instruction, and `goes` tells how it goes on from there. The observation may stop
before. -/
inductive Comes (env : EnvRef) (position : Nat) (goes : World → Sight) : Sight
  | stops {moment : Moment} {halt : Halt} : moment.Stands env position → halt.Whole →
    Comes env position goes [moment] halt
  | goes {moment : Moment} {rest : List Moment} {halt : Halt} : moment.Stands env position →
    goes moment.world rest halt → Comes env position goes (moment :: rest) halt

/-- A run stays among some instructions, and may end there or not get on, until it goes on as `after`
tells, or takes an exit and goes on as `leaves` tells. The observation may stop anywhere before. -/
inductive Stretch (inside : Moment → Prop) (after : Sight) (leaves : Moment → Sight) : Sight
  | ended {env : EnvRef} {world : World} {halt : Halt} : halt.Whole →
    Stretch inside after leaves [⟨env, none, world⟩] halt
  | stops {moment : Moment} {halt : Halt} : inside moment → Stretch inside after leaves [moment] halt
  | goes {moment : Moment} {rest : List Moment} {halt : Halt} : inside moment →
    Stretch inside after leaves rest halt → Stretch inside after leaves (moment :: rest) halt
  | after {moments : List Moment} {halt : Halt} : after moments halt →
    Stretch inside after leaves moments halt
  | leaves {moment : Moment} {rest : List Moment} {halt : Halt} : inside moment →
    leaves moment rest halt → Stretch inside after leaves (moment :: rest) halt

/-- A run does some work, and goes on as its result says; when the work fails, the failure is left with
the thread and nothing runs next. -/
inductive Does {α : Type} (others : World → World → Prop) (env : EnvRef) (work : Run α)
    (goes : World → α → Sight) (before : World) : Sight
  | done {value : α} {later : World} {moments : List Moment} {halt : Halt} :
    (work before).Finishes others (.ok value) later → goes later value moments halt →
    Does others env work goes before moments halt
  | failed {error : RuntimeError} {later world : World} {halt : Halt} :
    (work before).Finishes others (.error error) later →
    Step.raise env error later = .done (none, env) world → halt.Whole →
    Does others env work goes before [⟨env, none, world⟩] halt

/-- A run does some work that may run out of fuel, and then no more is seen. -/
inductive Works {α : Type} (others : World → World → Prop) (env : EnvRef) (work : Nat → Run α)
    (goes : World → α → Sight) (before : World) : Sight
  | ends {fuel : Nat} {moments : List Moment} {halt : Halt} :
    Does others env (work fuel) goes before moments halt → Works others env work goes before moments halt
  | stuck {fuel : Nat} : (work fuel before).Exhausts others →
    Works others env work goes before [] (.stuck fuel)

theorem Stretch.absorbs (inside : Moment → Prop) (after : Sight) (leaves : Moment → Sight) :
    Absorbs (Stretch inside after leaves) inside :=
  ⟨fun _ _ _ => .ended, fun _ _ => .stops, fun _ _ _ => .goes⟩

section Mono

variable {α : Type} {env : EnvRef} {position : Nat} {moments : List Moment} {halt : Halt}

theorem Comes.mono {goes wider : World → Sight} (seen : Comes env position goes moments halt)
    (implies : ∀ world moments halt, goes world moments halt → wider world moments halt) :
    Comes env position wider moments halt := by
  cases seen with
  | stops stands whole => exact .stops stands whole
  | goes stands seen => exact .goes stands (implies _ _ _ seen)

theorem Stretch.mono {inside : Moment → Prop} {after wider : Sight} {leaves exits : Moment → Sight}
    (seen : Stretch inside after leaves moments halt)
    (implies : ∀ moments halt, after moments halt → wider moments halt)
    (leads : ∀ moment moments halt, leaves moment moments halt → exits moment moments halt) :
    Stretch inside wider exits moments halt := by
  induction seen with
  | ended whole => exact .ended whole
  | stops isInside => exact .stops isInside
  | goes isInside _ ih => exact .goes isInside ih
  | after seen => exact .after (implies _ _ seen)
  | leaves isInside seen => exact .leaves isInside (leads _ _ _ seen)

theorem Does.mono {others : World → World → Prop} {work : Run α} {goes wider : World → α → Sight}
    {before : World} (seen : Does others env work goes before moments halt)
    (implies : ∀ later value moments halt,
      goes later value moments halt → wider later value moments halt) :
    Does others env work wider before moments halt := by
  cases seen with
  | done finishes seen => exact .done finishes (implies _ _ _ _ seen)
  | failed finishes raised whole => exact .failed finishes raised whole

theorem Works.mono {others : World → World → Prop} {work : Nat → Run α} {goes wider : World → α → Sight}
    {before : World} (seen : Works others env work goes before moments halt)
    (implies : ∀ later value moments halt,
      goes later value moments halt → wider later value moments halt) :
    Works others env work wider before moments halt := by
  cases seen with
  | ends seen => exact .ends (seen.mono implies)
  | stuck exhausts => exact .stuck exhausts

end Mono

theorem ProgramOf.Carries.opened {program : Program} {targets : Targets}
    {here level breakTo continueTo : Nat} {lines : List Line}
    (carries : program.Carries targets here (lines.map (·.close level breakTo continueTo))) :
    program.Carries (targets.closing level breakTo continueTo) here lines := by
  intro index line found
  rw [← InstrOf.under_close]
  exact carries index _ (by simp [found])

theorem inScope_wrapped {owned : Bool} {span : Span} {here : Nat}
    {compile : Frame → Nat → Compiled Piece} {fragment : Fragment}
    (compiled : inScope owned span here compile = .ok fragment) :
    ∃ piece, compile { owned } (here + owned.toNat) = .ok piece ∧
      fragment.lines = opening owned span piece.frame ++ piece.lines ++ closing owned span ∧
      (owned = false → piece.frame.objects = 0 ∧ piece.frame.words = 0) := by
  have position : (if owned then here + 1 else here) = here + owned.toNat := by cases owned <;> rfl
  unfold inScope at compiled
  rw [position] at compiled
  simp only [Compiled.bind_eq_ok] at compiled
  obtain ⟨piece, content, compiled⟩ := compiled
  refine ⟨piece, content, ?_⟩
  cases owned with
  | true =>
    simp only [if_true] at compiled
    split at compiled
    · simp at compiled
    simp only [Compiled.pure_eq_ok] at compiled
    exact ⟨by rw [← compiled]; rfl, by simp⟩
  | false =>
    simp only [Bool.false_eq_true, if_false] at compiled
    split at compiled
    · simp at compiled
    rename_i empty
    simp only [Compiled.pure_eq_ok] at compiled
    have total : piece.frame.objects + piece.frame.words = 0 := by simpa using empty
    refine ⟨by simp [← compiled, opening, closing], fun _ => by omega⟩

theorem Outcome.Finishes.of_done {α : Type} {others : World → World → Prop} {value : α}
    {world later : World} {result : Except RuntimeError α}
    (finishes : (Outcome.done value world).Finishes others result later) :
    result = .ok value ∧ later = world := by
  cases finishes
  exact ⟨rfl, rfl⟩

theorem Outcome.Finishes.broken {α : Type} {others : World → World → Prop} {reason : Broken}
    {later : World} {result : Except RuntimeError α}
    (finishes : (Outcome.broken reason).Finishes others result later) : False := by
  cases finishes

theorem World.deferring?_taken (world : World) (env : EnvRef) :
    ((world.takeSignal (world.threadOf env)).2.takeDefer (world.threadOf env)).2.deferring? env =
      none := by
  have none : (((world.takeSignal (world.threadOf env)).2.takeDefer (world.threadOf env)).2.thread
      (world.threadOf env)).signal = .none := by
    simp only [World.takeSignal, World.takeDefer, World.thread, World.updateThread,
      Array.getD_eq_getD_getElem?, Array.getElem?_modify, if_true]
    cases world.threads[(world.threadOf env).index]? <;> rfl
  refine if_neg fun isDefer => ?_
  have same := none.symm.trans isDefer
  cases same

/-- Why no more is seen of a run with some fuel: at the last moment the observer stops, or nothing is
left to run; or the fuel is spent, and what is left does not suffice for the last instruction. No
moment takes more than two units of fuel. -/
def Observer.Settles (observer : Observer) (fuel : Nat) : Sight := fun moments halt =>
  match halt with
  | .stopped => ∃ last, moments.getLast? = some last ∧
      (observer.go last.env last.next last.world = false ∨ last.next = none)
  | .spent => fuel ≤ 2 * moments.length
  | .stuck less => fuel ≤ less + 2 * moments.length

theorem Observer.Settles.pred {observer : Observer} {fuel : Nat} {moments : List Moment} {halt : Halt}
    (settles : observer.Settles (fuel + 1) moments halt) : observer.Settles fuel moments halt := by
  cases halt with
  | stopped => exact settles
  | spent | stuck => exact Nat.le_of_succ_le settles

theorem Observer.Settles.cons {observer : Observer} {fuel : Nat} {moment : Moment}
    {moments : List Moment} {halt : Halt} (settles : observer.Settles fuel moments halt) :
    observer.Settles (fuel + 2) (moment :: moments) halt := by
  cases halt with
  | stopped =>
    obtain ⟨last, isLast, stops⟩ := settles
    exact ⟨last, by rw [List.getLast?_cons, isLast]; rfl, stops⟩
  | spent | stuck =>
    simp only [Settles, List.length_cons] at settles ⊢
    omega

theorem Machine.observe_settles {observer : Observer} {others : World → World → Prop} {fuel : Nat}
    {env : EnvRef} {next : Option Instr} {deferred : List Invocation} {world later : World} {seen : Seen}
    (finishes : (observe observer.go observer.host fuel env next deferred world).Finishes others
      (.ok seen) later) :
    observer.Settles fuel seen.moments seen.halt ∧
      ((next = none → world.deferring? env = none) →
        observer.Settles (fuel + 1) seen.moments seen.halt) := by
  induction fuel generalizing env next deferred world later seen with
  | zero =>
    have isWorld : Run.read id world = .done world world := rfl
    rw [observe, Run.bind_done isWorld] at finishes
    obtain ⟨⟨⟩, -⟩ := finishes.of_done
    dsimp only [Seen.moments]
    split
    · exact ⟨Nat.zero_le _, fun _ => (by decide : 1 ≤ 2)⟩
    · rename_i halts
      have stops : observer.go env next world = false := by simpa using halts
      exact ⟨⟨_, rfl, .inl stops⟩, fun _ => ⟨_, rfl, .inl stops⟩⟩
  | succ fuel ih =>
    have isWorld : Run.read id world = .done world world := rfl
    rw [observe, Run.bind_done isWorld] at finishes
    dsimp only at finishes
    split at finishes
    · cases next with
      | some instr =>
        suffices observer.Settles (fuel + 1 + 1) seen.moments seen.halt from
          ⟨this.pred, fun _ => this⟩
        obtain ⟨found, middle, -, finishes⟩ := Run.finishes_bind finishes
        cases found with
        | none =>
          obtain ⟨⟨⟩, -⟩ := finishes.of_done
          exact Nat.le_refl _
        | some found =>
          obtain ⟨others, _, inner, finishes⟩ := Run.finishes_bind finishes
          obtain ⟨⟨⟩, -⟩ := finishes.of_done
          exact (@ih _ _ _ _ _ others inner).1.cons
      | none =>
        dsimp only at finishes
        cases found : world.deferring? env with
        | some invocation =>
          rw [found] at finishes
          refine ⟨(ih finishes).2 fun _ => world.deferring?_taken env, fun none => ?_⟩
          cases none rfl
        | none =>
          rw [found] at finishes
          obtain ⟨⟨⟩, -⟩ := finishes.of_done
          exact ⟨⟨_, rfl, .inr rfl⟩, fun _ => ⟨_, rfl, .inr rfl⟩⟩
    · rename_i halts
      have stops : observer.go env next world = false := by simpa using halts
      obtain ⟨⟨⟩, -⟩ := finishes.of_done
      exact ⟨⟨_, rfl, .inl stops⟩, fun _ => ⟨_, rfl, .inl stops⟩⟩

variable [Natives] {observer : Observer} {course : Course strict} {start now : Config strict}
  {task : ThreadRef} {floor fuel : Nat} {env : EnvRef} {blocks : List EnvRef} {layer : Layer}
  {layers : List Layer}

namespace Observer.Sees

variable {later : Config strict} {next : Option Instr} {instr : Instr} {inner : EnvRef}
  {position : Nat} {goes : World → Sight} {sight : Sight}

theorem stop (halts : observer.go env next now.world = false)
    (seen : sight [⟨env, next, now.world⟩] .stopped) : observer.Sees fuel env next now sight := by
  intro deferred
  have isWorld : Run.read id now.world = .done now.world now.world := rfl
  cases fuel with
  | zero =>
    rw [Machine.observe, Run.bind_done isWorld, halts]
    exact ⟨now, rfl, .refl _ _, _, rfl, seen⟩
  | succ fuel =>
    rw [Machine.observe, Run.bind_done isWorld]
    dsimp only
    rw [halts]
    exact ⟨now, rfl, .refl _ _, _, rfl, seen⟩

theorem comes (isNext : now.world.instr? env = some instr) (ip : now.world.ip env = position)
    (ran : ∀ call fuel, Step.run call fuel env instr now.world =
      .done (later.world.instr? inner, inner) later.world)
    (advances : now.Advances observer.task later)
    (sees : ∀ less < fuel,
      observer.Sees less inner (later.world.instr? inner) later (goes now.world)) :
    observer.Sees fuel env (now.world.instr? env) now (Comes env position goes) := by
  have stands : (⟨env, some instr, now.world⟩ : Moment).Stands env position := ⟨rfl, ip⟩
  rw [isNext]
  refine .turn (fun _ => .stops stands) fun less isLess _ => ?_
  have stepped : step (Machine.call observer.host less) less env instr now.world =
      .done (later.world.instr? inner, inner) later.world := by
    have attempted : Run.attempt (Step.run (Machine.call observer.host less) less env instr) now.world =
        .done (.ok (later.world.instr? inner, inner)) later.world := by
      rw [Run.attempt_apply, ran]
      rfl
    rw [step, Run.bind_done attempted]
    rfl
  rw [stepped]
  exact ⟨later, rfl, advances, _, _, rfl, (sees less isLess).mono fun _ _ => .goes stands⟩

theorem settles (sees : observer.Sees fuel env next now sight) :
    observer.Sees fuel env next now fun moments halt =>
      sight moments halt ∧ observer.Settles fuel moments halt := by
  refine fun deferred => Outcome.Attains.mono (Outcome.Attains.finishes (sees deferred)) id ?_
  rintro later result ⟨finishes, seen, rfl, holds⟩
  exact ⟨seen, rfl, holds, (Machine.observe_settles finishes).1⟩

theorem headed (sees : observer.Sees fuel env (some instr) now sight) :
    observer.Sees fuel env (some instr) now fun moments halt =>
      (∃ rest, moments = ⟨env, some instr, now.world⟩ :: rest) ∧ sight moments halt := by
  refine fun deferred => Outcome.Attains.mono (Outcome.Attains.finishes (sees deferred)) id ?_
  rintro later result ⟨finishes, seen, rfl, holds⟩
  refine ⟨seen, rfl, ?_, holds⟩
  have isWorld : Run.read id now.world = .done now.world now.world := rfl
  cases fuel with
  | zero =>
    rw [Machine.observe, Run.bind_done isWorld] at finishes
    obtain ⟨⟨⟩, -⟩ := finishes.of_done
    exact ⟨[], rfl⟩
  | succ fuel =>
    rw [Machine.observe, Run.bind_done isWorld] at finishes
    dsimp only at finishes
    split at finishes
    · obtain ⟨found, middle, -, finishes⟩ := Run.finishes_bind finishes
      cases found with
      | none =>
        obtain ⟨⟨⟩, -⟩ := finishes.of_done
        exact ⟨[], rfl⟩
      | some found =>
        obtain ⟨others, _, -, finishes⟩ := Run.finishes_bind finishes
        obtain ⟨⟨⟩, -⟩ := finishes.of_done
        exact ⟨others.moments, rfl⟩
    · obtain ⟨⟨⟩, -⟩ := finishes.of_done
      exact ⟨[], rfl⟩

theorem runs (isNext : now.world.instr? env = some instr) (ip : now.world.ip env = position)
    (leads : ∀ less < fuel, observer.Leads less env (goes now.world) now
      (Step.run (Machine.call observer.host less) less env instr now.world)) :
    observer.Sees fuel env (now.world.instr? env) now (Comes env position goes) := by
  have stands : (⟨env, some instr, now.world⟩ : Moment).Stands env position := ⟨rfl, ip⟩
  rw [isNext]
  exact .instr (fun _ => .stops stands) fun less isLess _ =>
    (leads less isLess).mono fun _ _ => .goes stands

end Observer.Sees

namespace Observer.Leads

variable {less : Nat} {sight : Sight} {α : Type}

theorem done {outcome : Outcome Next} {inner : EnvRef} {later : Config strict}
    (ran : outcome = .done (later.world.instr? inner, inner) later.world)
    (advances : now.Advances observer.task later)
    (sees : observer.Sees less inner (later.world.instr? inner) later sight) :
    observer.Leads less env sight now outcome := by
  rw [ran]
  exact ⟨later, rfl, advances, sees⟩

section Work

variable {spot : Spot strict} {rest : α → Run Next} {known : Config strict → α → Prop}
  {goes : World → α → Sight}

theorem bind {work : Run α} (sameTask : spot.task = observer.task) (acts : spot.Acts work now known)
    (stuck : (work now.world).Exhausts (Config.Others strict observer.task) → sight [] (.stuck less))
    (done : ∀ later value, spot.Poised later → now.shape.Grows later.shape → known later value →
      (work now.world).Finishes (Config.Others strict observer.task) (.ok value) later.world →
      observer.Leads less spot.env sight later (rest value later.world))
    (failed : ∀ error later world halt,
      (work now.world).Finishes (Config.Others strict observer.task) (.error error) later →
      Step.raise spot.env error later = .done (none, spot.env) world → halt.Whole →
      sight [⟨spot.env, none, world⟩] halt) :
    observer.Leads less spot.env sight now ((work >>= rest) now.world) := by
  have attains := Outcome.Attains.finishes (Outcome.Safe.attains acts)
  rw [sameTask] at attains
  show (Run.bind _ _ now.world).Attains _ _ _ now
  rw [Run.bind_apply]
  refine Outcome.Attains.bind (attains.mono stuck fun _ _ => id) ?_ ?_
  · rintro later value ⟨finishes, poised, grows, isKnown⟩
    exact done later value poised grows isKnown finishes
  · rintro later error ⟨finishes, poised, -, -⟩
    have busy := poised.busy
    unfold Spot.Busy at busy
    rw [sameTask] at busy
    exact ⟨sameTask ▸ poised.quiet, ⟨_, _, _, _, _, busy⟩, fun world raised halt whole =>
      failed error later.world world halt finishes raised whole⟩

theorem does {work : Run α} (sameTask : spot.task = observer.task) (acts : spot.Acts work now known)
    (lasts : ¬(work now.world).Exhausts (Config.Others strict observer.task))
    (leads : ∀ later value, spot.Poised later → now.shape.Grows later.shape → known later value →
      (work now.world).Finishes (Config.Others strict observer.task) (.ok value) later.world →
      observer.Leads less spot.env (goes later.world value) later (rest value later.world)) :
    observer.Leads less spot.env
      (Does (Config.Others strict observer.task) spot.env work goes now.world) now
      ((work >>= rest) now.world) :=
  bind sameTask acts (fun exhausts => absurd exhausts lasts)
    (fun later value poised grows isKnown finishes =>
      (leads later value poised grows isKnown finishes).mono fun _ _ => .done finishes)
    fun _ _ _ _ => .failed

theorem works {work : Nat → Run α} (sameTask : spot.task = observer.task)
    (acts : spot.Acts (work less) now known)
    (leads : ∀ later value, spot.Poised later → now.shape.Grows later.shape → known later value →
      (work less now.world).Finishes (Config.Others strict observer.task) (.ok value) later.world →
      observer.Leads less spot.env (goes later.world value) later (rest value later.world)) :
    observer.Leads less spot.env
      (Works (Config.Others strict observer.task) spot.env work goes now.world) now
      ((work less >>= rest) now.world) :=
  bind sameTask acts .stuck
    (fun later value poised grows isKnown finishes =>
      (leads later value poised grows isKnown finishes).mono fun _ _ seen => .ends (.done finishes seen))
    fun _ _ _ _ finishes raised whole => .ends (.failed finishes raised whole)

end Work

end Observer.Leads

theorem Course.Within.env_eq (within : course.Within now env blocks layers) :
    env = blocks.headD course.root := by
  cases within <;> rfl

omit [Natives] in
theorem World.push_fresh {world : World} {ref : EnvRef} {env : Env} (found : world.env? ref = some env)
    (objects words : Nat) : (world.push ref objects words).1 = ⟨world.envs.size⟩ := by
  obtain ⟨_, -, acquired⟩ :=
    world.acquire_spec env.thread (some ref) env.program env.ip objects words
  rw [World.push_spec found, acquired]

namespace Course.Busy

theorem pushes (busy : course.Busy start task floor env blocks layers now) (quiet : now.Quiet task)
    (level : Level) :
    ∃ (inner : EnvRef) (later : Config strict),
      (∀ call fuel, Step.run call fuel env (.push level.frame.objects level.frame.words) now.world =
        .done (later.world.instr? inner, inner) later.world) ∧
      now.Advances task later ∧ later.Quiet task ∧
      course.Busy start task floor inner (inner :: blocks) ({ level } :: layers) later ∧
      later.world.ip inner = now.world.ip env + 1 ∧ now.world.env? inner = none := by
  obtain ⟨inner, middle, pushed, first, quiet, busyInner, ip⟩ := busy.push quiet level
  obtain ⟨known, found, -, -⟩ := busy.within.known
  obtain ⟨-, there, present, -⟩ := now.sound.envs env known found
  have isNew : inner = ⟨now.world.envs.size⟩ := by
    rw [← World.push_fresh present level.frame.objects level.frame.words, pushed]
  have calm := middle.calm_alike (middle.world.alike_drop env)
  obtain ⟨isKnown, isFound, -, -⟩ := busyInner.within.known
  obtain ⟨later, gone, second, busyLater, quietLater, -, ip', -⟩ :=
    (busyInner.calm calm).goto (calm.quiet quiet)
      ((middle.alike (middle.world.alike_drop env)).world.ip inner + 1)
  refine ⟨inner, later, fun call fuel => ?_, (first.trans calm.advances).trans second, quietLater,
    busyLater, ?_, ?_⟩
  · rw [Step.run, Run.bind_done (Run.update_done pushed)]
    exact gone
  · rw [ip', (calm.kept inner isKnown isFound).1, ip]
  · simp [World.env?, isNew]

theorem pops (busy : course.Busy start task floor env blocks layers now) (quiet : now.Quiet task)
    (inside : blocks ≠ []) :
    ∃ later : Config strict,
      (∀ call fuel, Step.run call fuel env .pop now.world =
        .done (later.world.instr? (blocks.tail.headD course.root), blocks.tail.headD course.root)
          later.world) ∧
      now.Advances task later ∧ later.Quiet task ∧
      course.Busy start task floor (blocks.tail.headD course.root) blocks.tail layers.tail later ∧
      later.world.ip (blocks.tail.headD course.root) = now.world.ip env + 1 := by
  obtain ⟨outer, middle, popped, first, quiet, busyOuter, ip⟩ := busy.pop quiet inside
  obtain rfl := busyOuter.within.env_eq
  obtain ⟨later, gone, second, busyLater, quietLater, -, ip', -⟩ :=
    busyOuter.goto quiet (middle.world.ip (blocks.tail.headD course.root) + 1)
  refine ⟨later, fun call fuel => ?_, first.trans second, quietLater, busyLater, ?_⟩
  · rw [Step.run, Run.bind_done (Run.update_done popped)]
    exact gone
  · rw [ip', ip]

theorem seals (busy : course.Busy start task floor env blocks (layer :: layers) now) {slot : Slot}
    (value : Value) (isSealed : slot ∈ layer.level.sealed) :
    ∃ later : Config strict, later.world = now.world.store env slot value ∧
      now.Advances task later ∧ (now.Quiet task → later.Quiet task) ∧
      course.Busy start task floor env blocks ({ layer with
        held := (slot, slot.kept value) :: layer.held.filter (·.1 ≠ slot) } :: layers) later ∧
      later.shape = now.shape ∧ later.world.ip env = now.world.ip env := by
  obtain ⟨known, found, -, thread⟩ := busy.within.known
  obtain ⟨-, there, present, sound⟩ := now.sound.envs env known found
  obtain ⟨known', _, _, found', -, same, described⟩ := busy.within.innermost
  obtain ⟨rfl, rfl⟩ := List.cons.inj same
  obtain rfl := Option.some.inj (found'.symm.trans found)
  have isSealed' : slot ∈ known'.level.sealed := described.level ▸ isSealed
  have moves := now.moves_storeSealed value found isSealed'
  set later := now.storeSealed value found isSealed' with isLater
  have stored : later.world.load env slot = slot.kept value := by
    have loaded : later.world.load env slot = (there.slots.store slot value).load slot := by
      simp [isLater, Config.storeSealed, World.load, World.store, World.env?_updateEnv, present]
    rw [loaded, sound.load_store value (known'.level.sealed_among slot isSealed')]
  have others {ref : EnvRef} {target : Slot}
      (differs : ¬(ref = env ∧ target.slotClass = slot.slotClass ∧ target.index = slot.index)) :
      later.world.load ref target = now.world.load ref target := World.load_store_ne _ _ differs
  have distinct {target : Slot} (isTarget : target ∈ layer.level.sealed) (differs : target ≠ slot) :
      ¬(env = env ∧ target.slotClass = slot.slotClass ∧ target.index = slot.index) := fun same =>
    differs ((layer.level.sealed_among slot isSealed).unique
      (layer.level.sealed_among target isTarget) same.2.1 same.2.2)
  have top {known : EnvShape} (described : layer.Describes now env known) :
      ({ layer with held := (slot, slot.kept value) :: layer.held.filter (·.1 ≠ slot) } :
        Layer).Describes later env known := by
    refine ⟨described.level, described.ready, fun entry member => ?_, fun entry member => ?_⟩
    · obtain ⟨parks, is⟩ := described.parked entry member
      refine ⟨parks, fun isStrict => ?_⟩
      rw [others fun same => parks.1.ne_sealed isSealed ⟨same.2.1.symm, same.2.2.symm⟩]
      exact is isStrict
    · rcases List.mem_cons.mp member with rfl | member
      · exact ⟨isSealed, stored⟩
      · obtain ⟨member, differs⟩ := List.mem_filter.mp member
        obtain ⟨isTarget, holds⟩ := described.held entry member
        exact ⟨isTarget, (others (distinct isTarget (by simpa using differs))).trans holds⟩
  have around {ref : EnvRef} {inner : List EnvRef} {rest : List Layer} (less : ref.index < env.index)
      (within : course.Within now ref inner rest) : course.Within later ref inner rest := by
    refine within.carry moves.grows fun other there layer isThere _ older described => ?_
    exact described.kept moves.grows (moves.kept other there isThere (by rintro rfl; omega))
  refine ⟨later, rfl, moves.advances found (thread ▸ busy.own), moves.quiet,
    busy.next (moves.since busy.envYoung) ?_, rfl, World.ip_store _ _ _ _ _⟩
  cases busy.within with
  | root isKnown program thread described outer plain length =>
    exact .root isKnown program thread (top described) outer plain length
  | block isKnown program thread described outer rest =>
    obtain ⟨-, there, present, sound⟩ := now.sound.envs _ _ isKnown
    exact .block isKnown program thread (top described) outer (around (sound.older _ outer) rest)

theorem copies {inner outer : Layer}
    (busy : course.Busy start task floor env blocks (inner :: outer :: layers) now)
    (quiet : now.Quiet task) {source slot : Slot} {value : Value} (shared : inner.level.Shared slot)
    (held : (source, value) ∈ outer.held) (inhabits : value.Inhabits now.shape slot.type) :
    ∃ later : Config strict,
      (∀ pairs, Step.adopt env ((source, slot) :: pairs) now.world =
        Step.adopt env pairs later.world) ∧
      now.Advances task later ∧ later.Quiet task ∧
      course.Busy start task floor env blocks (MiniGo.stored [slot] (inner :: outer :: layers)) later ∧
      later.world.ip env = now.world.ip env ∧ later.world.load env slot = slot.kept value ∧
      ∀ other, inner.level.Shared other → other ≠ slot →
        later.world.load env other = now.world.load env other := by
  obtain ⟨known, found, -, thread⟩ := busy.within.known
  obtain ⟨-, there, present, sound⟩ := now.sound.envs env known found
  obtain ⟨known', _, _, found', -, same, described⟩ := busy.within.innermost
  obtain ⟨rfl, rfl⟩ := List.cons.inj same
  obtain rfl := Option.some.inj (found'.symm.trans found)
  obtain ⟨around, isAround, describes⟩ := busy.within.second
  have shared' : known'.level.Shared slot := described.level ▸ shared
  have calm : now.Calm (now.store found shared'.1 inhabits) := Config.calm_store shared'
  set later := now.store found shared'.1 inhabits with isLater
  have holds : now.world.load (now.world.up env 1) source = value := (describes.held _ held).2
  have loads : Run.load env 1 source now.world = .done value now.world := by
    rw [← holds]
    rfl
  have stores : Run.store env slot value now.world = .done () later.world := rfl
  refine ⟨later, fun pairs => ?_, calm.advances, calm.quiet quiet,
    (busy.calm calm).stored fun _ other member => ?_, World.ip_store _ _ _ _ _, ?_, ?_⟩
  · rw [Step.adopt, Run.bind_done loads, Run.bind_done stores]
  · obtain rfl := List.mem_singleton.mp member
    exact .inl ⟨rfl, rfl⟩
  · have loaded : later.world.load env slot = (there.slots.store slot value).load slot := by
      simp [isLater, Config.store, World.load, World.store, World.env?_updateEnv, present]
    rw [loaded, sound.load_store value shared'.1.1]
  · intro other isShared differs
    refine World.load_store_ne _ _ fun same => differs ?_
    exact shared.1.1.unique isShared.1.1 same.2.1 same.2.2

/-- The instruction that copies parked values to the variables of a clause, each with its source, its
slot and its value. -/
theorem adopts {inner outer : Layer} {given : List (Slot × Slot × Value)}
    (busy : course.Busy start task floor env blocks (inner :: outer :: layers) now)
    (quiet : now.Quiet task)
    (fits : ∀ copy ∈ given, inner.level.Shared copy.2.1 ∧ (copy.1, copy.2.2) ∈ outer.held ∧
      copy.2.2.Inhabits now.shape copy.2.1.type)
    (distinct : (given.map (·.2.1)).Nodup) :
    ∃ later : Config strict,
      Step.adopt env (given.map fun copy => (copy.1, copy.2.1)) now.world = .done () later.world ∧
      now.Advances task later ∧ later.Quiet task ∧
      course.Busy start task floor env blocks
        (MiniGo.stored (given.map (·.2.1)) (inner :: outer :: layers)) later ∧
      later.world.ip env = now.world.ip env ∧
      (∀ copy ∈ given, later.world.load env copy.2.1 = copy.2.1.kept copy.2.2) ∧
      ∀ other, inner.level.Shared other → other ∉ given.map (·.2.1) →
        later.world.load env other = now.world.load env other := by
  induction given generalizing now inner with
  | nil =>
    exact ⟨now, rfl, .refl _ _, quiet, by simpa [MiniGo.stored] using busy, rfl, by simp, by simp⟩
  | cons copy given ih =>
    obtain ⟨⟨shared, held, inhabits⟩, rest⟩ := List.forall_mem_cons.mp fits
    obtain ⟨isNew, distinct⟩ := List.nodup_cons.mp distinct
    obtain ⟨middle, ran, first, quiet, busy, ip, loads, others⟩ :=
      busy.copies quiet shared held inhabits
    obtain ⟨later, ran', second, quiet, busy, ip', loads', others'⟩ := ih busy quiet
      (fun copy member => ⟨(rest copy member).1, (rest copy member).2.1,
        (rest copy member).2.2.grows first.grows⟩) distinct
    refine ⟨later, (ran _).trans ran', first.trans second, quiet, busy.serves ?_, ip'.trans ip,
      ?_, ?_⟩
    · show Serves (MiniGo.stored _ (MiniGo.stored [copy.2.1] (inner :: outer :: layers))) _
      rw [stored_stored]
      exact stored_serves _ (by simp)
    · refine List.forall_mem_cons.mpr ⟨?_, loads'⟩
      rw [others' copy.2.1 shared isNew, loads]
    · intro other isShared missing
      rw [List.map_cons, List.mem_cons, not_or] at missing
      rw [others' other isShared missing.2, others other isShared missing.1]

end Course.Busy

end MiniGo
