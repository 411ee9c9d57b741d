import MiniGo.Proofs.Invocations
import MiniGo.Proofs.Observation
import MiniGo.Proofs.Realization
/-!
Stretches of a program. The instructions that a part of a statement was compiled to stand in a program
with their exits closed. A run that enters them stays among them until it is past their end, in the
environment that it came with, or takes an exit of a statement around, or stops.
-/

namespace MiniGo

variable {strict : Prop}

def ProgramOf.Carries (program : Program) (targets : Targets) (here : Nat) (lines : List Line) :
    Prop :=
  ∀ index line, lines[index]? = some line →
    program.instr? (here + index) = some (line.instr.under targets)

namespace ProgramOf.Carries

variable {program : Program} {targets : Targets} {here : Nat} {line : Line}
  {first second lines : List Line}

theorem left (carries : Carries program targets here (first ++ second)) :
    Carries program targets here first := by
  intro index line found
  refine carries index line ?_
  rw [List.getElem?_append_left (List.getElem?_eq_some_iff.mp found).1]
  exact found

theorem right (carries : Carries program targets here (first ++ second)) :
    Carries program targets (here + first.length) second := by
  intro index line found
  have carried := carries (first.length + index) line
    (by rw [List.getElem?_append_right (by omega)]; simpa using found)
  rwa [← Nat.add_assoc] at carried

theorem head (carries : Carries program targets here (line :: lines)) :
    program.instr? here = some (line.instr.under targets) := carries 0 line rfl

theorem tail (carries : Carries program targets here (line :: lines)) :
    Carries program targets (here + 1) lines := @right _ _ _ [line] lines carries

end ProgramOf.Carries

/-- Once its exits are closed, an instruction is typed where no exits are offered, unless it is an exit
itself. -/
theorem InstrTyped.under {base here : Nat} {lands : Nat → List Layer → Prop}
    {out : Nat → ExitKind → List Layer → Prop} {ctx : Ctx strict} {instr : Instr}
    (typed : InstrTyped strict base lands out here ctx instr) (targets : Targets) :
    (∃ hops level kind, instr = .leave hops (.exit level kind) ∧
      out level kind (ctx.layers.drop hops)) ∨
      InstrTyped strict base lands (fun _ _ _ => False) here ctx (instr.under targets) := by
  cases typed with
  | exit next => exact .inl ⟨_, _, _, rfl, next⟩
  | _ => exact .inr (by constructor <;> assumption)

theorem Serves.take {source target : List Layer} (serves : Serves source target) (count : Nat) :
    Serves (source.take count) (target.take count) := by
  induction serves generalizing count with
  | nil => simpa using Serves.refl []
  | cons head tail ih =>
    cases count with
    | zero => exact .nil
    | succ count => exact .cons head (ih count)

theorem Serves.append {source target more : List Layer} (serves : Serves source target) :
    Serves (source ++ more) (target ++ more) := by
  induction serves with
  | nil => exact .refl more
  | cons head _ ih => exact .cons head ih

variable [Natives] {course : Course strict} {start mid now : Config strict} {task : ThreadRef}
  {floor : Nat} {root env : EnvRef} {blocks inner : List EnvRef} {layer first : Layer}
  {layers rest : List Layer}

def Course.inside (course : Course strict) (root : EnvRef) (base : Nat)
    (lands : Nat → List Layer → Prop) : Course strict :=
  { course with root, base, Lands := lands }

theorem Course.Within.eq_root (within : course.Within now env [] layers) : env = course.root := by
  cases within
  rfl

theorem Course.Busy.inside (busy : course.Busy start task floor env blocks (layer :: layers) now)
    (plain : ∀ outer ∈ layers, outer.parked = [] ∧ outer.held = [])
    (lands : Nat → List Layer → Prop) :
    (course.inside env layers.length lands).Busy now task env.index env [] (layer :: layers) now := by
  obtain ⟨known, found, program, thread⟩ := busy.within.known
  obtain ⟨known', top, tail, found', -, same, described⟩ := busy.within.innermost
  obtain ⟨rfl, rfl⟩ := List.cons.inj same
  obtain rfl : known' = known := Option.some.inj (found'.symm.trans found)
  have spans := busy.within.spans
  cases spans with
  | cons isKnown _ _ outer =>
    obtain rfl := Option.some.inj (isKnown.symm.trans found)
    exact ⟨.refl _ _ _, busy.own, Nat.le_refl _,
      .root found program thread described outer plain rfl, by simp, by simp⟩

theorem Course.Within.join {lands : Nat → List Layer → Prop} {base : Nat}
    (within : (course.inside root base lands).Within now env inner layers)
    (around : course.Within mid root blocks (first :: rest))
    (stays : mid.Stays task root.index now) (own : mid.shape.Owns task course.thread) :
    course.Within now env (inner ++ blocks) (layers.take (inner.length + 1) ++ rest) := by
  induction within with
  | @root known layer layers found program thread described outer plain length =>
    cases around with
    | root found' _ _ _ outer' plain' length' =>
      obtain rfl := Option.some.inj ((stays.grows.env _ _ found').symm.trans found)
      exact .root found program thread described (outer'.grows stays.grows) plain' length'
    | @block _ next known' _ _ _ found' _ _ _ isOuter within' =>
      obtain rfl := Option.some.inj ((stays.grows.env _ _ found').symm.trans found)
      obtain ⟨-, there, present, sound⟩ := mid.sound.envs _ _ found'
      have older := sound.older _ isOuter
      refine .block found program thread described isOuter ?_
      refine within'.carry stays.grows fun ref other layer isThere sameThread less described => ?_
      exact described.kept stays.grows
        (stays.kept ref other isThere (sameThread ▸ own) (Nat.lt_of_le_of_lt less older))
  | block found program thread described isOuter _ ih =>
    exact .block found program thread described isOuter ih

theorem Course.Busy.join {lands : Nat → List Layer → Prop} {base : Nat}
    (busy : (course.inside root base lands).Busy mid task root.index env inner layers now)
    (around : course.Busy start task floor root blocks (first :: rest) mid) :
    course.Busy start task floor env (inner ++ blocks) (layers.take (inner.length + 1) ++ rest)
      now := by
  have young : floor ≤ root.index := around.envYoung
  refine ⟨around.stays.trans (busy.stays.weaken young), busy.own, around.young,
    busy.within.join around.within busy.stays around.own, ?_, ?_⟩
  · intro ref known found own
    rw [busy.opens ref known found own, List.mem_append]
    have early (isThere : mid.shape.env ref = some known) := around.opens ref known isThere
      (Config.owns_before busy.stays.grows (mid.sound.envs ref known isThere).1 own)
    have there {other : EnvShape} (isThere : mid.shape.env ref = some other) :
        mid.shape.env ref = some known := by
      rw [isThere, ← found, busy.stays.grows.env _ _ isThere]
    constructor
    · rintro (isOpen | member)
      · obtain ⟨other, isThere⟩ := mid.known_of_isOpen isOpen
        exact ((early (there isThere)).mp isOpen).imp_right .inr
      · exact .inr (.inl member)
    · rintro (isOpen | member | member)
      · obtain ⟨other, isThere⟩ := start.known_of_isOpen isOpen
        exact .inl ((early (there (around.stays.grows.env _ _ isThere))).mpr (.inl isOpen))
      · exact .inr member
      · obtain ⟨⟨other, isThere, -⟩, -⟩ := around.within.block_spec.1 ref member
        exact .inl ((early (there isThere)).mpr (.inr member))
  · intro ref member
    rcases List.mem_append.mp member with member | member
    · exact Nat.le_trans around.stays.envs (busy.fresh ref member)
    · exact around.fresh ref member

theorem Course.Busy.goto (busy : course.Busy start task floor env blocks layers now)
    (quiet : now.Quiet task) (position : Nat) :
    ∃ later : Config strict, Step.goto env position now.world =
        .done (later.world.instr? env, env) later.world ∧
      now.Advances task later ∧ course.Busy start task floor env blocks layers later ∧
      later.Quiet task ∧ later.shape = now.shape ∧ later.world.ip env = position ∧
      ∀ ref slot, later.world.load ref slot = now.world.load ref slot := by
  obtain ⟨known, found, -, thread⟩ := busy.within.known
  have moves := now.moves_setIp env position
  exact ⟨now.setIp env position, rfl, moves.advances found (thread ▸ busy.own),
    busy.next (moves.since busy.envYoung) (busy.within.setIp _ _), moves.quiet quiet, rfl,
    now.ip_setIp found position, fun ref slot => now.load_setIp env ref position slot⟩

/-- What may be seen of a stretch: it may end anywhere, and whatever holds of the rest holds of the
whole. -/
structure Absorbs (sight : Sight) (inside : Moment → Prop) : Prop where
  ended : ∀ env world (halt : Halt), halt.Whole → sight [⟨env, none, world⟩] halt
  stops : ∀ moment halt, inside moment → sight [moment] halt
  goes : ∀ moment rest halt, inside moment → sight rest halt → sight (moment :: rest) halt

/-- The moment is at one of the instructions from one position on and before another. -/
def Moment.Between (first last : Nat) (moment : Moment) : Prop :=
  first ≤ moment.position ∧ moment.position < last

/-- The moment is at an instruction that takes an exit of the lines from a position on. -/
def Moment.Exits (here : Nat) (lines : List Line) (level : Nat) (kind : ExitKind) (moment : Moment) :
    Prop :=
  ∃ index hops span, moment.position = here + index ∧
    lines[index]? = some ⟨.leave hops (.exit level kind), span⟩

namespace Moment.Exits

variable {here level : Nat} {lines : List Line} {kind : ExitKind} {moment : Moment}

omit [Natives] in
theorem between (exits : moment.Exits here lines level kind) :
    moment.Between here (here + lines.length) := by
  obtain ⟨index, hops, span, position, found⟩ := exits
  have inside := (List.getElem?_eq_some_iff.mp found).1
  unfold Between
  omega

omit [Natives] in
theorem within (before after : List Line) (exits : moment.Exits (here + before.length) lines level kind) :
    moment.Exits here (before ++ lines ++ after) level kind := by
  obtain ⟨index, hops, span, position, found⟩ := exits
  have inside := (List.getElem?_eq_some_iff.mp found).1
  refine ⟨before.length + index, hops, span, by omega, ?_⟩
  rw [List.append_assoc, List.getElem?_append_right (by omega), Nat.add_sub_cancel_left,
    List.getElem?_append_left inside]
  exact found

end Moment.Exits

section Stretch

variable {observer : Observer} {sight : Sight} {targets : Targets} {base here : Nat}
  {out : Nat → ExitKind → List Layer → Prop} {lines : List Line} {exit : List Layer}
  {positions : List (Ctx strict)}

/-- The instructions of a stretch, in an environment entered at its start. What the observation goes on
with after its end, or after an exit, is left open. -/
theorem Observer.Sees.stretch (hostSafe : Host.Safe strict observer.host)
    (flows : Flows strict base (Lands here (positions.map (·.layers)) exit) out here lines positions)
    (carries : course.program.Carries targets here lines)
    (absorbs : Absorbs sight (Moment.Between here (here + lines.length)))
    {least : Nat}
    (finish : ∀ less ≤ least, ∀ later env inner layers,
      (course.inside root base (Lands here (positions.map (·.layers)) exit)).Busy mid observer.task
        floor env inner layers later → later.Quiet observer.task → Serves layers exit →
      later.world.ip env = here + lines.length →
      observer.Sees less env (later.world.instr? env) later sight)
    (leaves : ∀ less < least, ∀ later env inner layers given hops level kind next,
      (course.inside root base (Lands here (positions.map (·.layers)) exit)).Busy mid observer.task
        floor env inner layers later → later.Quiet observer.task → Serves layers given →
      out level kind (given.drop hops) → Moment.Exits here lines level kind ⟨env, next, later.world⟩ →
      observer.Leads less env (fun rest => sight (⟨env, next, later.world⟩ :: rest)) later
        (Step.run (Machine.call observer.host less) less env (.leave hops (.line (targets level kind)))
          later.world))
    {fuel : Nat} (few : fuel ≤ least)
    (busy : (course.inside root base (Lands here (positions.map (·.layers)) exit)).Busy mid
      observer.task floor env inner layers now)
    (quiet : now.Quiet observer.task)
    (lands : Lands here (positions.map (·.layers)) exit (now.world.ip env) layers) :
    observer.Sees fuel env (now.world.instr? env) now sight := by
  induction fuel using Nat.strongRecOn generalizing now env inner layers with
  | _ fuel ih =>
  have length := flows.length_eq
  rcases lands with ⟨index, target, ip, found, serves⟩ | ⟨ip, serves⟩
  · rw [List.getElem?_map, Option.map_eq_some_iff] at found
    obtain ⟨ctx, isCtx, rfl⟩ := found
    have less : index < lines.length := length ▸ (List.getElem?_eq_some_iff.mp isCtx).1
    have isLine : lines[index]? = some lines[index] := List.getElem?_eq_getElem less
    have typed := flows.get isLine isCtx
    have isNext : now.world.instr? env = some (lines[index].instr.under targets) := by
      rw [busy.within.instr?, ip]
      exact carries index _ isLine
    rw [isNext]
    have inside : Moment.Between here (here + lines.length)
        ⟨env, some (lines[index].instr.under targets), now.world⟩ := by
      simp only [Moment.Between, Moment.position, ip]
      omega
    rcases typed.under targets with ⟨hops, level, kind, isExit, exits⟩ | typed
    · have exiting : Moment.Exits here lines level kind
          ⟨env, some (lines[index].instr.under targets), now.world⟩ :=
        ⟨index, hops, lines[index].span, ip, by rw [isLine, ← isExit]⟩
      rw [isExit] at inside exiting ⊢
      exact .instr (fun halt _ => absorbs.stops _ halt inside) fun less isLess _ =>
        leaves less (Nat.lt_of_lt_of_le isLess few) now env inner layers ctx.layers hops level kind _ busy
          quiet serves exits exiting
    · refine .turn (fun halt _ => absorbs.stops _ halt inside) fun less isLess _ => ?_
      let spot : Spot strict := ⟨course.inside root base
        (Lands here (positions.map (·.layers)) exit), mid, observer.task, floor, env, inner, ctx,
        here + index⟩
      have poised : spot.Poised now := ⟨busy.serves serves, quiet, ip⟩
      have safe := (Machine.watchedCall_safe .never hostSafe less).1
      refine (Outcome.Safe.attains (@step_safe _ _ spot _ _ _ safe poised less typed)).mono
        (fun _ => absorbs.stops _ _ inside) ?_
      rintro later _ ⟨next, env', blocks', layers', rfl, busy', stage⟩
      refine ⟨next, env', rfl, stage.sees busy'
        (fun world halt whole => absorbs.goes _ _ _ inside (absorbs.ended env' world halt whole)) ?_⟩
      intro lesser isLesser last _ busy'' quiet' lands
      refine (ih lesser (Nat.lt_of_le_of_lt isLesser isLess) (by omega) busy'' quiet' lands).mono ?_
      exact fun rest halt holds => absorbs.goes _ rest halt inside holds
  · rw [List.length_map, length] at ip
    exact finish fuel few now env inner layers busy quiet serves ip

theorem Course.Busy.follows_leave {call : Caller} {fuel less hops position : Nat}
    (busy : course.Busy start observer.task floor env blocks layers now)
    (quiet : now.Quiet observer.task) (few : hops ≤ blocks.length)
    (goes : ∀ later outer, now.shape.Grows later.shape →
      course.Busy start observer.task floor outer (blocks.drop hops) (layers.drop hops) later →
      later.Quiet observer.task → later.world.ip outer = position →
      observer.Sees less outer (later.world.instr? outer) later sight) :
    observer.Leads less env sight now
      (Step.run call fuel env (.leave hops (.line position)) now.world) := by
  obtain ⟨outer, middle, left, first, quiet, busy⟩ := busy.leave quiet hops few
  obtain ⟨later, gone, second, busy, quiet, -, ip, -⟩ := busy.goto quiet position
  have ran : Step.run call fuel env (.leave hops (.line position)) now.world =
      .done (later.world.instr? outer, outer) later.world := by
    show (Run.update (·.leave env hops) >>= fun outer => Step.goto outer position) now.world = _
    rw [Run.bind_done (Run.update_done left), gone]
  rw [ran]
  have advances := first.trans second
  exact ⟨later, rfl, advances, goes later outer advances.grows busy quiet ip⟩

omit [Natives] in
theorem drop_past {α : Type} {first second : List α} {count : Nat} (past : first.length ≤ count) :
    (first ++ second).drop count = second.drop (count - first.length) := by
  rw [List.drop_append, List.drop_eq_nil_of_le past, List.nil_append]

/-- The instructions of a part of a statement, entered from their start. The run gets to their end in
the environment it came with, or it takes an exit, or it stops. -/
theorem Observer.Sees.through {entry : List Layer} {sites : List Site} {fuel : Nat}
    (hostSafe : Host.Safe strict observer.host)
    (runs : Runs strict base out here lines sites entry exit)
    (carries : course.program.Carries targets here lines)
    (absorbs : Absorbs sight (Moment.Between here (here + lines.length)))
    (busy : course.Busy start observer.task floor root blocks (first :: rest) now)
    (entered : Serves (first :: rest) entry)
    (plain : ∀ outer ∈ rest, outer.parked = [] ∧ outer.held = [])
    (deep : rest.length = base) (back : exit.length = base + 1)
    (outs : ∀ level kind given, out level kind given →
      course.base < given.length ∧ given.length ≤ base + 1)
    (quiet : now.Quiet observer.task) (ip : now.world.ip root = here)
    (finish : ∀ less ≤ fuel, ∀ later, now.shape.Grows later.shape →
      course.Busy start observer.task floor root blocks (exit.take 1 ++ rest) later →
      later.Quiet observer.task → later.world.ip root = here + lines.length →
      observer.Sees less root (later.world.instr? root) later sight)
    (leaves : ∀ less < fuel, ∀ later env given level kind moment, out level kind given →
      now.shape.Grows later.shape →
      course.Busy start observer.task floor env (blocks.drop (base + 1 - given.length))
        ((given.take 1 ++ rest).drop (base + 1 - given.length)) later →
      later.Quiet observer.task → later.world.ip env = targets level kind →
      moment.Exits here lines level kind →
      observer.Sees less env (later.world.instr? env) later fun rest => sight (moment :: rest)) :
    observer.Sees fuel root (now.world.instr? root) now sight := by
  obtain ⟨positions, -, flows, enter⟩ := runs
  subst deep
  have inner := busy.inside plain (Lands here (positions.map (·.layers)) exit)
  refine .stretch hostSafe flows carries absorbs ?_ ?_ (Nat.le_refl fuel) inner quiet
    (ip ▸ enter.serves entered)
  · intro less isLess later env inner layers busy' quiet' serves ip'
    have joined := busy'.join busy
    have length := busy'.within.length_eq
    have none : inner = [] := by
      rw [serves.length_eq, back] at length
      exact List.length_eq_zero_iff.mp (by simp only [Course.inside] at length; omega)
    subst none
    obtain rfl : env = root := busy'.within.eq_root
    exact finish less isLess later busy'.stays.grows (joined.serves (serves.take 1).append) quiet' ip'
  · intro less isLess later env inner layers given hops level kind next busy' quiet' serves exits exiting
    obtain ⟨above, below⟩ := outs level kind _ exits
    have length := busy'.within.length_eq
    have whole := busy.within.length_eq
    have same := serves.length_eq
    rw [List.length_drop] at above below
    simp only [Course.inside] at length
    simp only [List.length_cons] at whole
    by_cases own : given.length - hops = rest.length + 1
    · refine busy'.follows_leave quiet' (by omega) fun last outer _ busyLast quietLast ipLast => ?_
      have joined := busyLast.join busy
      have none : inner.drop hops = [] := List.drop_eq_nil_of_le (by omega)
      rw [none] at busyLast joined
      obtain rfl : outer = root := busyLast.within.eq_root
      refine leaves less isLess last outer (given.drop hops) level kind _ exits busyLast.stays.grows ?_
        quietLast ipLast exiting
      rw [List.length_drop, own, Nat.sub_self]
      exact joined.serves ((serves.drop hops).take 1).append
    · refine (busy'.join busy).follows_leave quiet' ?_
        fun last outer grows busyLast quietLast ipLast => ?_
      · rw [List.length_append]
        omega
      · refine leaves less isLess last outer (given.drop hops) level kind _ exits
          (busy'.stays.grows.trans grows) ?_ quietLast ipLast exiting
        have past : rest.length + 1 - (given.drop hops).length = hops - inner.length := by
          rw [List.length_drop]
          omega
        have taken : (layers.take (inner.length + 1)).length = inner.length + 1 := by
          rw [List.length_take]
          omega
        have top : ((given.drop hops).take 1).length = 1 := by
          rw [List.length_take, List.length_drop]
          omega
        rw [drop_past (by omega), drop_past (by omega), taken] at busyLast
        rw [past, drop_past (by omega), top, Nat.sub_sub]
        exact busyLast

end Stretch

end MiniGo
