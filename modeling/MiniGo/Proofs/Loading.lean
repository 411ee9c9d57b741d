import MiniGo.Proofs.Startup
/-!
Loading a file. Its instructions are carried out one after the other: the functions are bound, the
variables are given their initial values in the order of the source, and then the `init` functions are
called in that order. Whatever code the initial values call runs when all functions are bound. A
variable that has not been stored to holds the zero value of its type, but for a string variable, which
holds nil; in a file without string variables, every variable holds a value of its type at every step.
-/

namespace MiniGo

namespace Machine

/-- Carries out instructions one after the other, up to the first that fails. -/
def carryOut (watch : Watch) (host : Host) (env : EnvRef) : Nat → List Instr → Run Stopped
  | 0, _ => Run.exhausted
  | fuel + 1, [] => loop watch host (fuel + 1) env none []
  | fuel + 1, instr :: rest => do
    pause watch env (some instr)
    match ← Run.attempt (Step.run (watchedCall watch host fuel) fuel env instr) with
    | .ok _ => carryOut watch host env fuel rest
    | .error error => do
      let _ ← Step.raise env error
      loop watch host fuel env none []

end Machine

section Sameness

variable [Natives] {strict : Prop} {α β : Type} {task : ThreadRef}

/-- Two outcomes that are the same as far as a task can come while others only do what they may while
it waits. -/
inductive Outcome.Same (task : ThreadRef) : Config strict → Outcome α → Outcome α → Prop
  | refl {since : Config strict} (outcome : Outcome α) : Same task since outcome outcome
  | await {since now : Config strict} {wait : Wait} {resume other : World → Outcome α} :
    since.Advances task now → now.Quiet task →
    (∀ later : Config strict, now.Waits task later →
      Same task later (resume later.world) (other later.world)) →
    Same task since (.await wait now.world resume) (.await wait now.world other)

namespace Outcome.Same

variable {start later : Config strict} {outcome other : Outcome α}

theorem sooner (same : Same task later outcome other) (advances : start.Advances task later) :
    Same task start outcome other := by
  cases same with
  | refl => exact .refl _
  | await goes quiet resumes => exact .await (advances.trans goes) quiet resumes

theorem bind (same : Same task start outcome other) (next : α → World → Outcome β) :
    Same task start (outcome.bind next) (other.bind next) := by
  induction same with
  | refl => exact .refl _
  | await goes quiet _ ih => exact .await goes quiet ih

theorem attempt (same : Same task start outcome other) :
    Same task start outcome.attempt other.attempt := by
  induction same with
  | refl => exact .refl _
  | await goes quiet _ ih => exact .await goes quiet ih

theorem of_bind {post : Config strict → Except RuntimeError α → Prop}
    {next following : α → World → Outcome β} (safe : outcome.Safe task post start)
    (goes : ∀ now value, post now (.ok value) →
      Same task now (next value now.world) (following value now.world)) :
    Same task start (outcome.bind next) (outcome.bind following) := by
  induction outcome generalizing start with
  | done value world =>
    obtain ⟨now, rfl, advances, ends⟩ := safe
    exact (goes now value ends).sooner advances
  | fail error world => exact .refl _
  | broken reason => exact .refl _
  | await wait world resume ih =>
    obtain ⟨now, rfl, advances, quiet, resumes⟩ := safe
    exact .await advances quiet fun later waits => ih _ (resumes later waits)

end Outcome.Same

theorem Tasks.drive_same {start : Spawn → Run β} (starts : Starts strict start) {front : ThreadRef}
    (fuel : Nat) {tasks : Tasks β} {now : Config strict} {refs : List ThreadRef}
    {outcome other : Outcome α} (same : Outcome.Same front now outcome other)
    (sound : tasks.Sound now [front] refs) :
    drive start fuel tasks outcome = drive start fuel tasks other := by
  induction fuel generalizing tasks now refs outcome other with
  | zero =>
    cases same with
    | refl => rfl
    | await => simp only [drive]
  | succ fuel ih =>
    cases same with
    | refl => rfl
    | @await _ middle wait resume other advances quiet resumes =>
      have turned := turn_sound starts (sound.advances advances quiet)
      unfold drive
      cases turn : Tasks.turn start tasks middle.world with
      | error reason => rfl
      | ok result =>
        obtain ⟨tasks', world, progress⟩ := result
        rw [turn] at turned
        obtain ⟨later, refs, rfl, sound, -, waits⟩ := turned
        have waited := waits front (.head _)
        dsimp only
        split
        · exact ih (resumes later waited) sound
        · split
          · refine ih (.await (.refl _ _) (waited.quiet quiet) fun last more => ?_) sound
            exact resumes last (waited.trans more)
          · rfl

end Sameness

def Slot.initial (slot : Slot) : Value := if slot.type = .string then .nil else .zero slot.type

theorem Slots.load_fresh {slot : Slot} (kind : slot.slotClass = .word ↔ slot.type.isScalar = true)
    (objects words : Nat) : (Slots.fresh objects words).load slot = slot.initial := by
  unfold Slots.load Slot.initial
  split
  · next isObject =>
    have boxed : slot.type.isScalar = false := by simpa [isObject] using kind
    have nothing : (Slots.fresh objects words).object slot.index = .nil := by
      simp [Slots.fresh, Slots.object, Array.getD]
    rw [nothing]
    split
    · rfl
    · cases isType : slot.type <;> simp_all [Value.zero, Const.zero, Ty.isScalar]
  · next isWord =>
    have scalar := kind.mp isWord
    have nothing : (Slots.fresh objects words).word slot.index = 0 := by
      simp [Slots.fresh, Slots.word, Array.getD]
    rw [nothing, if_neg (by rintro isString; simp [isString, Ty.isScalar] at scalar)]
    cases isType : slot.type <;> simp_all [Ty.isScalar] <;> rfl

namespace World

variable {world : World} {env : EnvRef}

/-- A function is bound in an environment, which goes on to its next instruction. -/
def bound (world : World) (env : EnvRef) (entry : Slot × Template) : World :=
  let stored := (world.retain env).store env entry.1 (.func ⟨entry.2.signature, .closure entry.2 env⟩)
  stored.setIp env (stored.ip env + 1)

def Holds (world : World) (env : EnvRef) (objects : Nat) : Prop :=
  ∃ there, world.env? env = some there ∧ there.slots.objects.size = objects

theorem Holds.bound {objects : Nat} (holds : world.Holds env objects) (entry : Slot × Template) :
    (world.bound env entry).Holds env objects := by
  obtain ⟨there, present, size⟩ := holds
  simp [Holds, World.bound, World.retain, World.store, World.setIp, env?_updateEnv, present, size]

theorem Holds.retain {objects : Nat} (holds : world.Holds env objects) :
    (world.retain env).Holds env objects := by
  obtain ⟨there, present, size⟩ := holds
  simp [Holds, World.retain, env?_updateEnv, present, size]

theorem load_retain (slot : Slot) : (world.retain env).load env slot = world.load env slot := by
  cases present : world.env? env <;> simp [World.load, World.retain, env?_updateEnv, present]

theorem load_bound_ne {slot : Slot} {entry : Slot × Template}
    (differs : ¬(slot.slotClass = entry.1.slotClass ∧ slot.index = entry.1.index)) :
    (world.bound env entry).load env slot = world.load env slot := by
  cases present : world.env? env with
  | none =>
    simp [World.bound, World.load, World.retain, World.store, World.setIp, env?_updateEnv, present]
  | some there =>
    simp [World.bound, World.load, World.retain, World.store, World.setIp, env?_updateEnv, present,
      Slots.load_store_of_ne _ _ differs]

theorem load_bound {entry : Slot × Template} {objects : Nat} (holds : world.Holds env objects)
    (isObject : entry.1.slotClass = .object) (inside : entry.1.index < objects) :
    (world.bound env entry).load env entry.1 = .func ⟨entry.2.signature, .closure entry.2 env⟩ := by
  obtain ⟨there, present, rfl⟩ := holds
  simp [World.bound, World.load, World.retain, World.store, World.setIp, env?_updateEnv, present,
    Slots.load, isObject, Slots.object_store, inside]

theorem load_bounds_ne {slot : Slot} {binds : List (Slot × Template)}
    (differs : ∀ entry ∈ binds,
      ¬(slot.slotClass = entry.1.slotClass ∧ slot.index = entry.1.index)) :
    (binds.foldl (·.bound env ·) world).load env slot = world.load env slot := by
  induction binds generalizing world with
  | nil => rfl
  | cons entry binds ih =>
    obtain ⟨first, rest⟩ := List.forall_mem_cons.mp differs
    rw [List.foldl_cons, ih rest, load_bound_ne first]

theorem load_bounds {binds : List (Slot × Template)} {objects : Nat} (holds : world.Holds env objects)
    (distinct : binds.Pairwise (·.1.index ≠ ·.1.index))
    (inside : ∀ entry ∈ binds, entry.1.slotClass = .object ∧ entry.1.index < objects) :
    ∀ entry ∈ binds, (binds.foldl (·.bound env ·) world).load env entry.1 =
      .func ⟨entry.2.signature, .closure entry.2 env⟩ := by
  induction binds generalizing world with
  | nil => simp
  | cons first binds ih =>
    obtain ⟨differs, distinct⟩ := List.pairwise_cons.mp distinct
    obtain ⟨⟨isObject, less⟩, inside⟩ := List.forall_mem_cons.mp inside
    refine List.forall_mem_cons.mpr ⟨?_, ih (holds.bound first) distinct inside⟩
    rw [List.foldl_cons, load_bounds_ne fun entry member both => differs entry member both.2]
    exact load_bound holds isObject less

end World

namespace Interpreter

theorem storeNatives_done {env : EnvRef} {symbols : List (String × Slot)} {objects : Nat}
    {natives : List (Native × Nat)} {world : World} (holds : world.Holds env objects) :
    ∃ later, storeNatives env symbols natives world = .done () later ∧ later.Holds env objects ∧
      ∀ slot : Slot, (∀ entry ∈ natives, ∀ found, symbols.lookup entry.1.name = some found →
          ¬(slot.slotClass = found.slotClass ∧ slot.index = found.index)) →
        later.load env slot = world.load env slot := by
  induction natives generalizing world with
  | nil => exact ⟨world, rfl, holds, fun _ _ => rfl⟩
  | cons entry natives ih =>
    obtain ⟨native, index⟩ := entry
    unfold storeNatives
    cases isSlot : symbols.lookup native.name with
    | none =>
      obtain ⟨later, ran, holds, same⟩ := ih holds
      exact ⟨later, ran, holds, fun slot apart => same slot (List.forall_mem_cons.mp apart).2⟩
    | some found =>
      obtain ⟨there, present, size⟩ := holds
      obtain ⟨later, ran, holds, same⟩ := @ih
        (world.store env found (.func ⟨native.signature, .native index⟩))
        (by simp [World.Holds, World.store, World.env?_updateEnv, present, size])
      refine ⟨later, ran, holds, fun slot apart => ?_⟩
      obtain ⟨first, rest⟩ := List.forall_mem_cons.mp apart
      rw [same slot rest]
      exact World.load_store_ne _ _ fun both => first found isSlot both.2

theorem openFile_done (interpreter : Interpreter) (file : CompiledFile) (world : World) :
    ∃ opened, interpreter.openFile file world = .done ⟨world.envs.size⟩ opened ∧
      opened.Holds ⟨world.envs.size⟩ file.objects ∧
      ∀ slot : Slot, (slot.slotClass = .word ↔ slot.type.isScalar = true) →
        (∀ native ∈ interpreter.natives, ∀ found, file.symbols.lookup native.name = some found →
          ¬(slot.slotClass = found.slotClass ∧ slot.index = found.index)) →
        opened.load ⟨world.envs.size⟩ slot = slot.initial := by
  obtain ⟨middle, alike, acquired⟩ := world.acquire_spec interpreter.thread none file.program 0
    file.objects file.words
  let env : EnvRef := ⟨world.envs.size⟩
  let first : World := { middle with
    envs := middle.envs.push
      ⟨Slots.fresh file.objects file.words, 0, file.program, none, interpreter.thread, 1⟩ }
  have present : first.env? env =
      some ⟨Slots.fresh file.objects file.words, 0, file.program, none, interpreter.thread, 1⟩ := by
    simp [first, env, World.env?, ← alike.size]
  have holds : (first.setFileEnv interpreter.thread env).Holds env file.objects :=
    ⟨_, present, by simp [Slots.fresh]⟩
  obtain ⟨opened, ran, holds, same⟩ := @storeNatives_done env file.symbols file.objects
    interpreter.natives.zipIdx _ holds
  refine ⟨opened, ?_, holds, fun slot kind apart => ?_⟩
  · have acquires : (Run.update fun world => world.acquire interpreter.thread none file.program 0
        file.objects file.words) world = .done env first := Run.update_done acquired
    rw [openFile, Run.bind_done acquires]
    show (storeNatives env file.symbols interpreter.natives.zipIdx >>= fun _ => pure env)
      (first.setFileEnv interpreter.thread env) = _
    rw [Run.bind_done ran]
    rfl
  · rw [same slot fun entry member found isFound =>
      apart entry.1 (List.fst_mem_of_mem_zipIdx member) found isFound]
    have there : (first.setFileEnv interpreter.thread env).env? env = _ := present
    rw [World.load, there]
    exact Slots.load_fresh kind _ _

end Interpreter

section Order

variable [Natives] {strict : Prop}

inductive InstrOf.OfFile : Instr → Prop
  | bind {slot : Slot} {template : Template} : InstrOf.OfFile (.bind slot template)
  | init {slots : List (Option Slot)} {values : Values} : InstrOf.OfFile (.init slots values)
  | callInit {template : Template} : InstrOf.OfFile (.callInit template)

/-- An instruction that is done leads to the next one in the same environment. -/
def Spot.Passed (spot : Spot strict) (later : Config strict) : Except RuntimeError Next → Prop
  | .ok (next, env) => env = spot.env ∧ next = later.world.instr? spot.env ∧
    later.world.ip spot.env = spot.here + 1 ∧ later.Quiet spot.task ∧
    ∃ layers, spot.Busy layers later ∧ spot.course.Lands (spot.here + 1) layers
  | .error _ => True

namespace Step

variable {spot : Spot strict} {now : Config strict} {call : Caller}

theorem advance_passes {layers : List Layer} (poised : spot.Poised now) (busy : spot.Busy layers now)
    (lands : spot.course.Lands (spot.here + 1) layers) :
    (advance spot.env now.world).Safe spot.task spot.Passed now := by
  obtain ⟨known, found, -, thread⟩ := busy.within.known
  have moves := now.moves_setIp spot.env (now.world.ip spot.env + 1)
  have busyLater := Course.Busy.next busy (moves.since (Course.Busy.envYoung busy))
    (busy.within.setIp _ _)
  have ip : (now.setIp spot.env (now.world.ip spot.env + 1)).world.ip spot.env = spot.here + 1 := by
    rw [now.ip_setIp found, poised.ip]
  exact ⟨now.setIp spot.env (now.world.ip spot.env + 1), rfl,
    moves.advances found (thread ▸ Course.Busy.own busy), rfl, rfl, ip, moves.quiet poised.quiet,
    layers, busyLater, lands⟩

theorem run_passes (safe : call.Safe strict) (poised : spot.Poised now) (fuel : Nat) {instr : Instr}
    (ofFile : instr.OfFile)
    (typed : InstrTyped strict spot.course.base spot.course.Lands (fun _ _ _ => False)
      spot.here spot.ctx instr) :
    (Step.run call fuel spot.env instr now.world).Safe spot.task spot.Passed now := by
  have fails (later : Config strict) (error : RuntimeError) (_ : spot.Poised later)
      (_ : error.Allowed strict) : spot.Passed later (.error error) := trivial
  cases ofFile with
  | bind =>
    cases typed with
    | bind isLayer shared templateTyped same lands =>
      refine bind_leads fails poised isLayer shared templateTyped same fun later poised ready => ?_
      exact advance_passes poised (Course.Busy.stored poised.busy fun _ _ member =>
        List.mem_singleton.mp member ▸ ready) lands
  | init =>
    cases typed with
    | init isLayer shared valuesTyped stores lands =>
      refine init_leads fails safe poised isLayer shared valuesTyped stores fun later poised ready => ?_
      exact advance_passes poised (Course.Busy.stored poised.busy ready) lands
  | callInit =>
    cases typed with
    | callInit templateTyped none lands =>
      exact callInit_leads fails safe poised templateTyped none fun later poised =>
        advance_passes poised poised.busy lands

end Step

namespace Machine

variable {activation : Activation strict} {start now : Config strict} {task : ThreadRef} {floor : Nat}
  {layers : List Layer} {watch : Watch} {host : Host}

omit [Natives] in
theorem loop_some_eq (fuel : Nat) (env : EnvRef) (instr : Instr) :
    loop watch host (fuel + 1) env (some instr) [] = (do
      pause watch env (some instr)
      match ← Run.attempt (Step.run (watchedCall watch host fuel) fuel env instr) with
      | .ok next => loop watch host fuel next.2 next.1 []
      | .error error => do
        let _ ← Step.raise env error
        loop watch host fuel env none []) := by
  rw [loop]
  unfold step
  refine bind_congr fun _ => (Run.bind_assoc _ _ _).trans (bind_congr fun result => ?_)
  cases result with
  | ok next => rfl
  | error error =>
    funext world
    rfl

theorem loop_same (hostSafe : host.Safe strict) (fuel : Nat) {instrs : List Instr}
    (ofFile : ∀ instr ∈ instrs, instr.OfFile)
    (busy : activation.Busy start task floor activation.root [] layers now) (quiet : now.Quiet task)
    (lands : activation.Lands (now.world.ip activation.root) layers)
    (rest : (activation.program.lines.toList.map (·.instr)).drop (now.world.ip activation.root) =
      instrs) :
    Outcome.Same task now
      (loop watch host fuel activation.root (now.world.instr? activation.root) [] now.world)
      (carryOut watch host activation.root fuel instrs now.world) := by
  induction fuel generalizing now layers instrs with
  | zero =>
    unfold loop carryOut
    exact .refl _
  | succ fuel ih =>
    have isNext := busy.within.instr?
    have found : activation.program.instr? (now.world.ip activation.root) = instrs[0]? := by
      rw [← rest, List.getElem?_drop, List.getElem?_map]
      simp [Program.instr?]
    rw [isNext, found]
    cases instrs with
    | nil =>
      unfold carryOut
      exact .refl _
    | cons instr instrs =>
      obtain ⟨first, others⟩ := List.forall_mem_cons.mp ofFile
      obtain ⟨here, -, serves, typed⟩ := activation.instr_typed lands found
      let spot : Spot strict :=
        ⟨activation.toCourse, start, task, floor, activation.root, [], here,
          now.world.ip activation.root⟩
      have poised : spot.Poised now := ⟨busy.serves serves, quiet, rfl⟩
      have safe := (watchedCall_safe watch hostSafe fuel).1
      have passes := @Step.run_passes _ _ spot now _ safe poised fuel _ first typed
      have attempted : (Run.attempt (Step.run (watchedCall watch host fuel) fuel activation.root instr)
          now.world).Safe task
            (fun later result => ∃ ending, result = .ok ending ∧ spot.Passed later ending) now := by
        rw [Run.attempt_apply]
        exact Outcome.Safe.attempt (passes.mono fun later result passed => ⟨result, rfl, passed⟩)
      rw [List.getElem?_cons_zero, loop_some_eq, carryOut]
      by_cases stops : watch activation.root (some instr) now.world = true
      · have paused : pause watch activation.root (some instr) now.world =
            .broken (.watched activation.root (some instr) now.world) := if_pos stops
        show Outcome.Same task now (Run.bind _ _ now.world) (Run.bind _ _ now.world)
        rw [Run.bind_apply, Run.bind_apply, paused]
        exact .refl _
      · have goesOn : pause watch activation.root (some instr) now.world = .done () now.world :=
          if_neg stops
        rw [Run.bind_done goesOn, Run.bind_done goesOn]
        show Outcome.Same task now (Run.bind _ _ now.world) (Run.bind _ _ now.world)
        rw [Run.bind_apply, Run.bind_apply]
        refine .of_bind attempted ?_
        rintro later result ⟨_, ⟨⟩, passed⟩
        cases result with
        | error error => exact .refl _
        | ok next =>
          obtain ⟨next, env⟩ := next
          obtain ⟨rfl, rfl, ip, quiet, layers, busy, lands⟩ := passed
          refine ih others busy quiet (ip ▸ lands) ?_
          rw [show later.world.ip activation.root = now.world.ip activation.root + 1 from ip,
            ← List.drop_drop, rest]
          rfl

def execInOrder (watch : Watch) (host : Host) (fuel : Nat) (instrs : List Instr) (root : EnvRef) :
    Run Unit :=
  execWith (watchedCall watch host fuel) (fun env _ _ => carryOut watch host env fuel instrs) root

theorem watchedExec_same (hostSafe : host.Safe strict) (fuel : Nat)
    (ofFile : ∀ instr ∈ activation.program.lines.toList.map (·.instr), instr.OfFile)
    (quiet : now.Quiet task) (own : now.shape.Owns task activation.thread)
    (within : activation.Within now activation.root [] layers)
    (ip : now.world.ip activation.root = 0) (lands : activation.Lands 0 layers) :
    Outcome.Same task now (watchedExec watch host fuel activation.root now.world)
      (execInOrder watch host fuel (activation.program.lines.toList.map (·.instr)) activation.root
        now.world) := by
  have calm := now.calm_alike (now.world.alike_retain activation.root)
  have busy : activation.Busy now task 0 activation.root [] layers now :=
    ⟨.refl _ _ _, own, Nat.zero_le _, within, by simp, by simp⟩
  have stays : (now.alike (now.world.alike_retain activation.root)).world.ip activation.root = 0 := by
    obtain ⟨known, found, -, -⟩ := within.known
    rw [(calm.kept _ known found).1, ip]
  have same := @loop_same _ _ _ _ _ _ _ _ watch host hostSafe fuel _ ofFile (busy.calm calm)
    (calm.quiet quiet) (stays.symm ▸ lands) (by rw [stays, List.drop_zero])
  show Outcome.Same task now (Run.bind _ _ _) (Run.bind _ _ _)
  rw [Run.bind_apply, Run.bind_apply]
  exact (same.bind _).sooner calm.advances

end Machine

namespace Interpreter

/-- Opens a file and carries out instructions in its environment, one after the other. -/
def startUp (interpreter : Interpreter) (fuel : Nat) (file : CompiledFile) (instrs : List Instr) :
    Run EnvRef := do
  let env ← interpreter.openFile file
  runFile (Machine.execInOrder interpreter.watch interpreter.host fuel instrs) env

variable {interpreter : Interpreter} {now : Config strict} {refs : List ThreadRef}
  {file : CompiledFile} {level : Level}

section Opening

variable (sound : interpreter.Sound now refs) (objects : level.frame.objects = file.objects)
  (words : level.frame.words = file.words) (symbols : level.frame.vars = file.symbols)
  (program : ProgramTyped strict 0 file.program [{ level }])
  (natives : strict → ∀ entry ∈ interpreter.natives.zipIdx,
    Natives.signature? entry.2 = some entry.1.signature ∧
      ∀ slot, file.symbols.lookup entry.1.name = some slot → slot.type = entry.1.signature.toTy)

include sound objects words symbols program natives

theorem enterFile_same (ofFile : ∀ instr ∈ file.program.lines.toList.map (·.instr), instr.OfFile)
    (fuel : Nat) :
    Outcome.Same interpreter.thread now (interpreter.enterFile fuel file now.world)
      (interpreter.startUp fuel file (file.program.lines.toList.map (·.instr)) now.world) := by
  rw [enterFile_eq, startUp]
  show Outcome.Same _ now (Run.bind _ _ _) (Run.bind _ _ _)
  rw [Run.bind_apply, Run.bind_apply]
  refine .of_bind (openFile_meets sound objects words symbols program natives) ?_
  rintro opened _ ⟨-, quiet, -, activation, rfl, isOpened⟩
  rw [← isOpened.program]
  have same := @Machine.watchedExec_same _ _ _ _ _ _ interpreter.watch _ sound.host fuel
    (isOpened.program ▸ ofFile) quiet (.inl isOpened.thread) isOpened.within isOpened.ip isOpened.lands
  show Outcome.Same _ opened (Run.bind _ _ _) (Run.bind _ _ _)
  rw [Run.bind_apply, Run.bind_apply, Run.attempt_apply, Run.attempt_apply]
  exact same.attempt.bind _

theorem perform_enterFile (ofFile : ∀ instr ∈ file.program.lines.toList.map (·.instr), instr.OfFile)
    (fuel : Nat) :
    interpreter.perform fuel (interpreter.enterFile fuel file) = interpreter.perform fuel
      (interpreter.startUp fuel file (file.program.lines.toList.map (·.instr))) := by
  have same := enterFile_same sound objects words symbols program natives ofFile fuel
  unfold perform
  rw [sound.world, Tasks.drive_same (sound.starts fuel) fuel same sound.tasks]

theorem perform_enterFile_stops {fuel : Nat} {reason : Broken}
    (stopped : (interpreter.perform fuel (interpreter.enterFile fuel file)).1 =
      .error (.broken reason)) :
    ∃ opened : Config strict, opened.shape.env ⟨interpreter.world.envs.size⟩ =
      some ⟨level, none, file.program, interpreter.thread⟩ ∧ reason.From opened.shape := by
  have opens := openFile_meets sound objects words symbols program natives
  obtain ⟨world, ran, -, -⟩ := interpreter.openFile_done file now.world
  unfold Run.Meets at opens
  rw [ran] at opens
  obtain ⟨opened, rfl, advances, -, quiet, -, activation, isRoot, isOpened⟩ := opens
  refine ⟨opened, ?_, ?_⟩
  · rw [sound.world, ← isRoot]
    exact isOpened.known
  · have driven := Tasks.drive_sound (sound.starts fuel) (fun _ _ ends => ends.2.1) fuel
      (runFile_meets sound symbols quiet isOpened fuel) (sound.tasks.advances advances quiet)
    unfold perform at stopped
    rw [sound.world, enterFile_eq, Run.bind_done ran, ← isRoot] at stopped
    split at stopped
    · simp at stopped
    · simp at stopped
    · simp at stopped
    · next scheduled =>
      rw [scheduled] at driven
      exact HostError.broken.inj (Except.error.inj stopped) ▸ driven

end Opening

end Interpreter

theorem Config.load_is {now : Config True} {env : EnvRef} {known : EnvShape} {slot : Slot}
    (found : now.shape.env env = some known) (has : known.level.Has slot)
    (notString : slot.type ≠ .string) : (now.world.load env slot).Is slot.type := by
  obtain ⟨-, there, present, holds⟩ := now.sound.envs env known found
  simp only [World.load, present]
  exact ((holds.load_rests has).2 trivial).resolve_right fun isString => notString isString.1

end Order

namespace Startup

/-- All functions of a file are bound, and its variables are as they were in the beginning. -/
structure Bound (startup : Startup) (env : EnvRef) (world : World) : Prop where
  functions : ∀ entry ∈ startup.binds,
    world.load env entry.1 = .func ⟨entry.2.signature, .closure entry.2 env⟩
  vars : ∀ slot ∈ startup.slots, world.load env slot = slot.initial

end Startup

namespace Machine

variable {watch : Watch} {host : Host} {env : EnvRef}

theorem carryOut_binds (binds : List (Slot × Template)) (rest : List Instr) (fuel : Nat)
    (world : World) :
    (∃ entry ∈ binds, ∃ now,
      carryOut watch host env fuel (binds.map (fun entry => .bind entry.1 entry.2) ++ rest) world =
        .broken (.watched env (some (.bind entry.1 entry.2)) now)) ∨
    carryOut watch host env fuel (binds.map (fun entry => .bind entry.1 entry.2) ++ rest) world =
      carryOut watch host env (fuel - binds.length) rest (binds.foldl (·.bound env ·) world) := by
  induction binds generalizing fuel world with
  | nil => exact .inr rfl
  | cons entry binds ih =>
    cases fuel with
    | zero =>
      rw [Nat.zero_sub, carryOut, carryOut]
      exact .inr rfl
    | succ fuel =>
      rw [List.map_cons, List.cons_append, carryOut]
      by_cases stops : watch env (some (.bind entry.1 entry.2)) world = true
      · have paused : pause watch env (some (.bind entry.1 entry.2)) world =
            .broken (.watched env (some (.bind entry.1 entry.2)) world) := if_pos stops
        refine .inl ⟨entry, .head _, world, ?_⟩
        show Run.bind _ _ world = _
        rw [Run.bind_apply, paused]
        rfl
      · have goesOn : pause watch env (some (.bind entry.1 entry.2)) world = .done () world :=
          if_neg stops
        rw [Run.bind_done goesOn, List.length_cons, Nat.add_sub_add_right, List.foldl_cons]
        rcases ih fuel (world.bound env entry) with ⟨found, member, now, same⟩ | same
        · exact .inl ⟨found, .tail _ member, now, same⟩
        · exact .inr same

end Machine

namespace Startup

variable {startup : Startup} {source : SourceFile} {file : CompiledFile}

theorem Of.ofFile (isOf : startup.Of source file) :
    ∀ instr ∈ file.program.lines.toList.map (·.instr), instr.OfFile := by
  intro instr member
  simp only [isOf.program, binding, storing, calling, List.mem_append, List.mem_map] at member
  rcases member with (⟨_, -, rfl⟩ | ⟨_, -, rfl⟩) | ⟨_, -, rfl⟩
  · exact .bind
  · exact .init
  · exact .callInit

/-- Once the functions of a file that has been opened are bound, they all are, and no variable has
been stored to. -/
theorem Apart.bound {interpreter : Interpreter} {world opened : World}
    (apart : startup.Apart file
      (interpreter.natives.map fun native => (native.name, native.signature)))
    (holds : opened.Holds ⟨world.envs.size⟩ file.objects)
    (fresh : ∀ slot : Slot, (slot.slotClass = .word ↔ slot.type.isScalar = true) →
      (∀ native ∈ interpreter.natives, ∀ found, file.symbols.lookup native.name = some found →
        ¬(slot.slotClass = found.slotClass ∧ slot.index = found.index)) →
      opened.load ⟨world.envs.size⟩ slot = slot.initial) :
    startup.Bound ⟨world.envs.size⟩
      (startup.binds.foldl (·.bound ⟨world.envs.size⟩ ·) (opened.retain ⟨world.envs.size⟩)) := by
  refine ⟨World.load_bounds holds.retain apart.functions apart.objects, fun slot member => ?_⟩
  rw [World.load_bounds_ne fun entry isBind => apart.vars entry isBind slot member,
    World.load_retain]
  refine fresh slot (apart.kinds slot member) fun native isNative found isFound => ?_
  exact (apart.natives _ (List.mem_map_of_mem isNative) found isFound).2 slot member

end Startup

theorem Interpreter.load_stopped {interpreter : Interpreter} {fuel : Nat} {source : SourceFile}
    {file : CompiledFile} {reason : Broken}
    (compiled : Compile.file source
      (interpreter.natives.map fun native => (native.name, native.signature)) = .ok file)
    (stopped : (interpreter.load fuel source).1 = .error (.broken reason)) :
    (interpreter.perform fuel (interpreter.enterFile fuel file)).1 = .error (.broken reason) := by
  simp only [load, compiled] at stopped
  split at stopped
  · next performed =>
    rw [performed]
    exact congrArg Except.error (Except.error.inj stopped)
  · simp at stopped

/-- Loading a file binds its functions, then gives its variables their initial values in the order of
the source, then calls its `init` functions in that order. When code of the file is first run, all
functions are bound and no variable has been stored to. In a file without string variables, every
variable holds a value of its type wherever the load can be stopped, in whatever function. -/
theorem initialises_in_order [Natives] {interpreter : Interpreter} {held : List Value}
    {source : SourceFile} {file : CompiledFile} (session : interpreter.Session held)
    (compiled : Compile.file source
      (interpreter.natives.map fun native => (native.name, native.signature)) = .ok file) :
    ∃ startup : Startup, startup.Of source file ∧
      (∀ fuel, interpreter.perform fuel (interpreter.enterFile fuel file) =
        interpreter.perform fuel (interpreter.startUp fuel file
          (startup.binding ++ startup.storing ++ startup.calling))) ∧
      (let env : EnvRef := ⟨interpreter.world.envs.size⟩
        ∃ opened bound, interpreter.openFile file interpreter.world = .done env opened ∧
          startup.Bound env bound ∧ ∀ fuel rest,
            let begun := Machine.carryOut interpreter.watch interpreter.host env fuel
              (startup.binding ++ rest) (opened.retain env)
            (∃ entry ∈ startup.binds, ∃ now,
              begun = .broken (.watched env (some (.bind entry.1 entry.2)) now)) ∨
            begun = Machine.carryOut interpreter.watch interpreter.host env
              (fuel - startup.binds.length) rest bound) ∧
      ∀ {now : Config True} {refs : List ThreadRef}, interpreter.Sound now refs →
        (∀ entry ∈ interpreter.natives.zipIdx, Natives.signature? entry.2 = some entry.1.signature) →
        (∀ head ∈ source.heads, head.Proper) → file.strings = [] →
        (∀ entry ∈ startup.binds, entry.2.signature.toTy = entry.1.type) →
        ∀ {fuel env next world},
          (interpreter.load fuel source).1 = .error (.broken (.watched env next world)) →
          ∀ entry ∈ file.symbols,
            (world.load ⟨interpreter.world.envs.size⟩ entry.2).Is entry.2.type := by
  obtain ⟨startup, level, isOf, apart, objects, words, symbols, typed⟩ :=
    Compile.file_startup compiled
  refine ⟨startup, isOf, fun fuel => ?_, ?_, ?_⟩
  · obtain ⟨now, refs, sound, -⟩ := session.sound
    rw [← isOf.program]
    exact Interpreter.perform_enterFile sound objects words symbols
      (typed False False.elim False.elim) False.elim isOf.ofFile fuel
  · obtain ⟨opened, opens, holds, fresh⟩ := interpreter.openFile_done file interpreter.world
    refine ⟨opened, _, opens, apart.bound holds fresh, fun fuel rest => ?_⟩
    exact Machine.carryOut_binds startup.binds rest fuel _
  · intro now refs sound signatures proper noStrings agrees fuel env next world stopped entry member
    have natives : ∀ native ∈ interpreter.natives.zipIdx,
        Natives.signature? native.2 = some native.1.signature ∧
          ∀ slot, file.symbols.lookup native.1.name = some slot →
            slot.type = native.1.signature.toTy :=
      fun native isNative => ⟨signatures native isNative, fun slot found =>
        (apart.natives _ (List.mem_map_of_mem (List.fst_mem_of_mem_zipIdx isNative)) slot found).1⟩
    have program := typed True (fun _ => proper) fun _ => ⟨noStrings, agrees⟩
    obtain ⟨opened, isEnv, later, rfl, grows, -⟩ := Interpreter.perform_enterFile_stops sound objects
      words symbols program (fun _ => natives) (Interpreter.load_stopped compiled stopped)
    refine Config.load_is (grows.env _ _ isEnv)
      (Interpreter.shared_of_vars (symbols.symm ▸ member)).1 fun isString => ?_
    have isOne : entry.2 ∈ file.strings := by
      simpa [CompiledFile.strings, isString] using ⟨entry.1, member⟩
    simp [noStrings] at isOne

/-- A file whose first variable is given its value by a function that reads another. -/
def doubled : SourceFile :=
  let ident (name : String) : Expr := .ident ⟨name, {}⟩
  [.var [.mk [⟨"total", {}⟩] (some (.named "int")) [.call (ident "double") [] false {}] {}] {},
    .var [.mk [⟨"base", {}⟩] (some (.named "int")) [.int 3 {}] {}] {},
    .func ⟨"double", {}⟩ { results := [⟨none, .named "int"⟩] }
      (.mk [.ret [.binary .add (ident "base") (ident "base") {}] {}] {}) {},
    .func ⟨"init", {}⟩ {}
      (.mk [.assign [ident "total"] .assign [.call (ident "double") [] false {}] {}] {}) {}]

def returnWatch : Watch := fun _ next _ =>
  match next with
  | some (.ret ..) => true
  | _ => false

def doubledWatched : Interpreter := { Interpreter.new {} with watch := returnWatch }

def InstrOf.bindsOwn : Instr → Bool
  | .bind slot template => template.signature.toTy == slot.type
  | _ => true

theorem initialises_in_order_doubled :
    ∃ (_ : Natives) (file : CompiledFile) (startup : Startup) (env : EnvRef) (next : Option Instr)
      (world : World), Compile.file doubled [] = .ok file ∧ startup.Of doubled file ∧
      file.symbols.length = 3 ∧
      (∀ fuel, doubledWatched.perform fuel (doubledWatched.enterFile fuel file) =
        doubledWatched.perform fuel (doubledWatched.startUp fuel file
          (startup.binding ++ startup.storing ++ startup.calling))) ∧
      (doubledWatched.load 50 doubled).1 = .error (.broken (.watched env next world)) ∧
      ∀ entry ∈ file.symbols, (world.load ⟨0⟩ entry.2).Is entry.2.type := by
  let natives : Natives := ⟨fun _ => none⟩
  have stops : ∃ env next world, (doubledWatched.load 50 doubled).1 =
      .error (.broken (.watched env next world)) := ⟨_, _, _, by cbv⟩
  obtain ⟨env, next, world, stopped⟩ := stops
  have symbols : (Compile.file doubled []).toOption.map (·.symbols.length) = some 3 := by
    decide +kernel
  have noStrings : (Compile.file doubled []).toOption.map (·.strings) = some [] := by decide +kernel
  have own : (Compile.file doubled []).toOption.map (fun file =>
      (file.program.lines.toList.map (·.instr)).all InstrOf.bindsOwn) = some true := by decide +kernel
  have heads : doubled.heads.all (!·.variadic) = true := by decide +kernel
  have proper : ∀ head ∈ doubled.heads, head.Proper := fun head member variadic => by
    simpa [variadic] using List.all_eq_true.mp heads head member
  obtain ⟨now, sound⟩ := @Interpreter.new_sound _ True {} (by simp [Natives.signature?, natives])
  have watched : doubledWatched.Sound now [] :=
    ⟨sound.host, sound.world, sound.tasks, sound.closed, sound.file⟩
  have session : doubledWatched.Session [] := .watch returnWatch (.new {})
  cases compiled : Compile.file doubled [] with
  | error error => simp [compiled, Except.toOption] at symbols
  | ok file =>
    simp only [compiled, Except.toOption, Option.map_some, Option.some.injEq] at symbols noStrings own
    obtain ⟨startup, isOf, order, -, typed⟩ := initialises_in_order session compiled
    refine ⟨natives, file, startup, env, next, world, rfl, isOf, symbols, order, stopped, ?_⟩
    refine typed watched (by simp [doubledWatched, Interpreter.new]) proper noStrings
      (fun entry member => ?_) stopped
    have bound : InstrOf.bind entry.1 entry.2 ∈ file.program.lines.toList.map (·.instr) := by
      rw [isOf.program]
      simp [Startup.binding, member]
    simpa [InstrOf.bindsOwn] using List.all_eq_true.mp own _ bound

/-- A file whose first variable is given what a function reads of the second, a string. -/
def peeking : SourceFile :=
  let ident (name : String) : Expr := .ident ⟨name, {}⟩
  [.var [.mk [⟨"seen", {}⟩] (some (.named "any")) [.call (ident "peek") [] false {}] {}] {},
    .var [.mk [⟨"text", {}⟩] (some (.named "string")) [.string "x" {}] {}] {},
    .func ⟨"peek", {}⟩ { results := [⟨none, .named "any"⟩] } (.mk [.ret [ident "text"] {}] {}) {}]

/-- What is read of a string variable before its turn is nil, and no string. -/
theorem initialises_in_order_peeking :
    ((Interpreter.new {}).load 60 peeking).1 = .ok () ∧
      (((Interpreter.new {}).load 60 peeking).2.symbols.lookup "text").map (·.type) = some .string ∧
      ((Interpreter.new {}).load 60 peeking).2.global? "seen" = some .nil ∧ ¬Value.nil.Is .string :=
  ⟨by cbv, by cbv, by cbv,
    by simp [Value.Is, Value.dynamicType, Const.type, Ty.assignableTo, Ty.isNillable]⟩

end MiniGo
