import MiniGo.Interpreter
import MiniGo.Proofs.Files
import MiniGo.Proofs.Scheduling
/-!
Sessions. Whatever a host asks for, in any order, the state of the program stays sound as long as each
request ends; and wherever a request is stopped, the instruction about to run is one that the compiler
has put there for the environments found.
-/

namespace MiniGo

variable [Natives] {strict : Prop}

theorem Run.Meets.closes {α : Type} {run : Run α} {start : Config strict} {task : ThreadRef}
    {floor : Nat} {post : Config strict → α → Prop} (meets : run.Meets start task floor post)
    (closed : start.Closed task) :
    (run start.world).Safe task (fun final result => final.Quiet task ∧ final.Closed task ∧
      match result with
      | .ok value => post final value
      | .error error => error.Allowed strict) start :=
  Outcome.Safe.mono meets fun _ _ ends => ⟨ends.2.1, ends.1.closed closed, ends.2.2⟩

theorem Machine.runTask_starts {host : Host} (watch : Watch) (hostSafe : host.Safe strict)
    (fuel : Nat) : Tasks.Starts strict (runTask watch host fuel) := by
  intro spawn now quiet closed sound
  have calls := (watchedCall_safe watch hostSafe fuel).1 now spawn.thread spawn.thread
    spawn.invocation 0 quiet (.inl rfl) sound (Nat.zero_le _)
  have runs : (runTask watch host fuel spawn).Meets now spawn.thread 0 fun _ _ => True := by
    refine (Run.attempt_meets calls).bind fun later result _ quiet allowed => ?_
    cases result with
    | ok results => exact Run.pure_meets quiet trivial
    | error error =>
      refine (Run.modifyAlike_meets quiet ?_).bind fun _ _ _ quiet _ => Run.fail_meets quiet allowed
      exact { World.Alike.refl later.world with }
  exact (runs.closes closed).mono fun _ _ ends => ⟨ends.1, ends.2.1⟩

theorem Config.enters (start : Config strict) {thread : ThreadRef} {program : Program} {level : Level}
    (inside : (start.shape.owner thread).isSome = true)
    (typed : ProgramTyped strict 0 program [{ level }]) :
    ∃ (later : Config strict) (activation : Activation strict),
      start.world.acquire thread none program 0 level.frame.objects level.frame.words =
        (activation.root, later.world) ∧
      activation.thread = thread ∧ start.Calm later ∧
      later.shape.env activation.root = some ⟨level, none, program, thread⟩ ∧
      activation.root.index < later.world.envs.size ∧
      activation.Within later activation.root [] [{ level }] ∧
      later.world.ip activation.root = 0 ∧ activation.Lands 0 [{ level }] := by
  obtain ⟨positions, exit, laid, length, entry, instrs⟩ := typed
  obtain ⟨later, acquired, calm, isEnv, ip, size⟩ :=
    @Config.acquire _ _ start thread none program 0 level inside (by simp)
  let activation : Activation strict :=
    ⟨⟨thread, ⟨start.world.envs.size⟩, program, 0, _⟩, positions, exit, rfl, laid, length, instrs⟩
  refine ⟨later, activation, acquired, rfl, calm, isEnv, by simp [activation, size], ?_, ip, entry⟩
  exact .root isEnv rfl rfl ⟨rfl, by simp, by simp, by simp⟩ .nil (by simp) rfl

omit [Natives] in
theorem World.alike_replaced {world later : World} (same : later = world) (former : Option EnvRef) :
    later.Alike (match former with
      | some former => world.drop former
      | none => world) := by
  subst same
  split
  · exact World.alike_drop _ _
  · exact .refl _

namespace Interpreter

/-- The state of a program whose requests have all ended. -/
structure Sound (interpreter : Interpreter) (now : Config strict) (refs : List ThreadRef) : Prop where
  host : interpreter.host.Safe strict
  world : interpreter.world = now.world
  tasks : interpreter.tasks.Sound now [interpreter.thread] refs
  closed : now.Closed interpreter.thread
  file : ∀ env, interpreter.fileEnv = some env → ∃ known, now.shape.env env = some known ∧
    ∀ entry ∈ interpreter.symbols, known.level.Shared entry.2

namespace Sound

variable {interpreter final : Interpreter} {now : Config strict} {refs : List ThreadRef}

theorem quiet (sound : interpreter.Sound now refs) : now.Quiet interpreter.thread :=
  sound.tasks.2.quiet _ (sound.tasks.2.tasks _ (by simp))

theorem starts (sound : interpreter.Sound now refs) (fuel : Nat) :
    Tasks.Starts strict (interpreter.runTask fuel) :=
  Machine.runTask_starts _ sound.host fuel

theorem alike (sound : interpreter.Sound now refs) {world : World} (same : now.world.Alike world) :
    ∃ later : Config strict, later.shape = now.shape ∧ later.world = world ∧
      later.Closed interpreter.thread ∧ interpreter.tasks.Sound later [interpreter.thread] refs := by
  have calm := now.calm_alike same
  have since : now.Since interpreter.thread 0 (now.alike same) := calm.since
  exact ⟨now.alike same, rfl, rfl, since.closed sound.closed,
    sound.tasks.advances calm.advances (calm.quiet sound.quiet)⟩

end Sound

def Ended {α : Type} : Except HostError α → Prop
  | .error .stuck => False
  | .error (.broken _) => False
  | _ => True

instance {α : Type} (result : Except HostError α) : Decidable (Ended result) :=
  match result with
  | .error .stuck | .error (.broken _) => isFalse id
  | .error (.compile _) | .error (.runtime _) | .error .notLoaded | .error (.undefinedFunction _)
  | .ok _ => isTrue trivial

/-- The answer to a request: where it has been stopped, or the state in the end. -/
structure Answers {α : Type} (now : Config strict)
    (post : Config strict → List ThreadRef → α → Prop)
    (answer : Except HostError α × Interpreter) : Prop where
  broken : ∀ reason, answer.1 = .error (.broken reason) → reason.Sound strict
  ended : Ended answer.1 → ∃ (later : Config strict) (refs : List ThreadRef),
    answer.2.Sound later refs ∧ now.shape.Grows later.shape ∧
      (∀ value, answer.1 = .ok value → post later refs value) ∧
      ∀ error, answer.1 = .error (.runtime error) → error.Allowed strict

/-- The host itself runs a function of its own, as the program would when it calls it. -/
def work (interpreter : Interpreter) (fuel : Nat) (native : HostFunction) (args : List Value) :
    Except HostError (List Value) × Interpreter :=
  interpreter.perform fuel
    (native (Machine.watchedCall interpreter.watch interpreter.host fuel) interpreter.thread args)

section Requests

variable {α : Type} {interpreter : Interpreter} {now : Config strict} {refs : List ThreadRef}

theorem Sound.refuses {post : Config strict → List ThreadRef → α → Prop} {error : HostError}
    (sound : interpreter.Sound now refs) (refused : ∀ reason, error ≠ .broken reason)
    (noFailure : ∀ failure, error ≠ .runtime failure) :
    Answers now post (.error error, interpreter) :=
  ⟨fun reason same => absurd (Except.error.inj same) (refused reason),
    fun _ => ⟨now, refs, sound, .refl _, by simp, fun failure same =>
      absurd (Except.error.inj same) (noFailure failure)⟩⟩

theorem perform_answers {post : Config strict → α → Prop} {run : Run α}
    (sound : interpreter.Sound now refs) (fuel : Nat)
    (meets : run.Meets now interpreter.thread 0 post) :
    Answers now (fun later _ value => post later value) (interpreter.perform fuel run) := by
  have safe := (meets.closes sound.closed).grows
  have driven := Tasks.drive_sound (sound.starts fuel) (fun _ _ ends => ends.2.1) fuel safe sound.tasks
  have keeps {later : Config strict} (grows : now.shape.Grows later.shape) (env : EnvRef)
      (isFile : interpreter.fileEnv = some env) : ∃ known, later.shape.env env = some known ∧
        ∀ entry ∈ interpreter.symbols, known.level.Shared entry.2 := by
    obtain ⟨known, found, shared⟩ := sound.file env isFile
    exact ⟨known, grows.env _ _ found, shared⟩
  unfold perform
  rw [sound.world]
  split
  · next scheduled =>
    rw [scheduled] at driven
    obtain ⟨later, refs, rfl, ⟨grows, -, closed, holds⟩, tasks⟩ := driven
    exact ⟨by simp, fun _ => ⟨later, refs, ⟨sound.host, rfl, tasks, closed, keeps grows⟩, grows,
      fun value same => Except.ok.inj same ▸ holds, by simp⟩⟩
  · next scheduled =>
    rw [scheduled] at driven
    obtain ⟨later, refs, rfl, ⟨grows, -, closed, allowed⟩, tasks⟩ := driven
    exact ⟨by simp, fun _ => ⟨later, refs, ⟨sound.host, rfl, tasks, closed, keeps grows⟩, grows,
      by simp, fun error same => HostError.runtime.inj (Except.error.inj same) ▸ allowed⟩⟩
  · exact ⟨by simp, False.elim⟩
  · next scheduled =>
    rw [scheduled] at driven
    exact ⟨fun reason same => HostError.broken.inj (Except.error.inj same) ▸ Broken.From.sound driven,
      False.elim⟩

theorem Sound.global_known (sound : interpreter.Sound now refs) {name : String} {value : Value}
    (isValue : interpreter.global? name = some value) : value.Known now.shape := by
  simp only [global?, Option.bind_eq_bind, Option.pure_def, Option.bind_eq_some_iff,
    Option.some.injEq] at isValue
  obtain ⟨env, isFile, slot, isSlot, rfl⟩ := isValue
  obtain ⟨known, found, shared⟩ := sound.file env isFile
  obtain ⟨before, after, same, -⟩ := List.lookup_eq_some_iff.mp isSlot
  obtain ⟨-, there, present, holds⟩ := now.sound.envs env known found
  have rests := holds.load_rests (shared (name, slot) (by simp [same])).1
  simp only [World.load, sound.world, present]
  exact rests.1

theorem call_answers (sound : interpreter.Sound now refs) (fuel : Nat) {name : String}
    {args : List Value} (known : ∀ value ∈ args, value.Known now.shape)
    (typed : strict → ∀ function, interpreter.global? name = some (.func function) →
      ∃ targets, List.Forall₂ Value.Is args targets ∧ function.signature.Accepts false targets) :
    Answers now (fun later _ results => ∀ value ∈ results, value.Known later.shape)
      (interpreter.call fuel name args) := by
  unfold call
  split
  · exact sound.refuses (by simp) (by simp)
  · split
    · next function isFunction =>
      have invocation : Invocation.Sound now.shape ⟨.func function, args, false⟩ := by
        refine ⟨sound.global_known isFunction, known, fun isStrict => ?_⟩
        obtain ⟨targets, are, accepts⟩ := typed isStrict function isFunction
        refine ⟨function.signature, targets, ?_, are, accepts⟩
        simp [Value.Is, Value.dynamicType, Ty.assignableTo]
      have meets := (Machine.watchedCall_safe interpreter.watch sound.host fuel).1 now
        interpreter.thread interpreter.thread _ 0 sound.quiet (.inl rfl) invocation (Nat.zero_le _)
      exact perform_answers sound fuel (meets.mono fun _ _ _ _ ends => ends.1)
    · exact sound.refuses (by simp) (by simp)

theorem work_answers {native : HostFunction} (sound : interpreter.Sound now refs)
    (safe : native.Safe strict none) (fuel : Nat) {args : List Value}
    (known : ∀ value ∈ args, value.Known now.shape) :
    Answers now (fun later _ results => ∀ value ∈ results, value.Known later.shape)
      (interpreter.work fuel native args) := by
  obtain ⟨calls, -⟩ := Machine.watchedCall_safe interpreter.watch sound.host fuel
  have meets := safe _ calls now interpreter.thread interpreter.thread args 0 sound.quiet (.inl rfl)
    known (by simp) (Nat.zero_le _)
  exact perform_answers sound fuel (meets.mono fun _ _ _ _ ends => ends.1)

theorem wait_answers (sound : interpreter.Sound now refs) (fuel : Nat) :
    Answers now (fun later refs _ => refs = [] ∧ later.world.pending = [])
      (interpreter.wait fuel) := by
  have joined := @Tasks.join_sound _ _ _ _ (sound.starts fuel) interpreter.thread Tasks.isIdle fuel
    _ _ _ sound.tasks
  unfold wait
  rw [sound.world]
  split
  · next joins =>
    rw [joins] at joined
    obtain ⟨later, refs, rfl, tasks, waits, none, idle⟩ := joined
    have noRefs : refs = [] := by
      have sounds := tasks.1
      rw [List.isEmpty_iff.mp idle] at sounds
      exact List.forall₂_nil_left_iff.mp sounds
    refine ⟨by simp, fun _ => ⟨later, refs, ⟨sound.host, rfl, tasks, waits.closed sound.closed,
      fun env isFile => ?_⟩, waits.grows, fun _ _ => ⟨noRefs, none⟩, by simp⟩⟩
    obtain ⟨known, found, shared⟩ := sound.file env isFile
    exact ⟨known, waits.grows.env _ _ found, shared⟩
  · exact ⟨by simp, False.elim⟩
  · next joins =>
    rw [joins] at joined
    exact ⟨fun reason same => HostError.broken.inj (Except.error.inj same) ▸ Broken.From.sound joined,
      False.elim⟩

end Requests

theorem storeNatives_meets {start : Config strict} {task : ThreadRef} {floor : Nat} {env : EnvRef}
    {known : EnvShape} {symbols : List (String × Slot)} {natives : List (Native × Nat)}
    (quiet : start.Quiet task) (found : start.shape.env env = some known)
    (shared : ∀ entry ∈ symbols, known.level.Shared entry.2)
    (typed : strict → ∀ entry ∈ natives, Natives.signature? entry.2 = some entry.1.signature ∧
      ∀ slot, symbols.lookup entry.1.name = some slot → slot.type = entry.1.signature.toTy) :
    (storeNatives env symbols natives).Meets start task floor fun _ _ => True := by
  induction natives generalizing start with
  | nil => exact Run.pure_meets quiet trivial
  | cons entry natives ih =>
    obtain ⟨native, index⟩ := entry
    have goes {later : Config strict} (since : start.Since task floor later)
        (quiet : later.Quiet task) : (storeNatives env symbols natives).Meets later task floor
          fun _ _ => True :=
      ih quiet (since.grows.env _ _ found) fun isStrict entry member =>
        typed isStrict entry (by simp [member])
    unfold storeNatives
    split
    · next slot isSlot =>
      obtain ⟨before, after, same, -⟩ := List.lookup_eq_some_iff.mp isSlot
      have sharedSlot : known.level.Shared slot := shared (native.name, slot) (by simp [same])
      have inhabits : (Value.func ⟨native.signature, .native index⟩).Inhabits start.shape
          slot.type := by
        refine ⟨fun isStrict => (typed isStrict (native, index) (by simp)).1, fun isStrict => ?_⟩
        rw [(typed isStrict (native, index) (by simp)).2 slot isSlot]
        simp [Value.Is, Value.dynamicType, Ty.assignableTo]
      exact (Run.store_meets quiet found sharedSlot inhabits).bind fun _ _ since quiet _ =>
        goes since quiet
    · exact goes (.refl _ _ _) quiet

omit [Natives] in
theorem shared_of_vars {level : Level} {entry : String × Slot} (member : entry ∈ level.frame.vars) :
    level.Shared entry.2 := by
  simp only [Frame.vars, List.mem_filterMap] at member
  obtain ⟨⟨name, symbol⟩, named, found⟩ := member
  split at found
  · next slot same =>
    obtain rfl := Option.some.inj found
    cases same
    exact level.named name slot named
  · simp at found

def openFile (interpreter : Interpreter) (file : CompiledFile) : Run EnvRef := do
  let env ← Run.update fun world =>
    world.acquire interpreter.thread none file.program 0 file.objects file.words
  Run.modify (·.setFileEnv interpreter.thread env)
  storeNatives env file.symbols interpreter.natives.zipIdx
  pure env

/-- Executes a file that has been opened. Its environment is kept unless that fails. -/
def runFile (exec : EnvRef → Run Unit) (env : EnvRef) : Run EnvRef := do
  match ← Run.attempt (exec env) with
  | .ok () => pure env
  | .error error => do
    Run.modify (·.drop env)
    Run.fail error

omit [Natives] in
theorem enterFile_eq (interpreter : Interpreter) (fuel : Nat) (file : CompiledFile) :
    interpreter.enterFile fuel file = interpreter.openFile file >>=
      runFile (Machine.watchedExec interpreter.watch interpreter.host fuel) := by
  unfold enterFile openFile runFile
  simp only [Run.bind_assoc]
  rfl

/-- A file that has been opened: its program is about to be run in a new environment. -/
structure Opened (interpreter : Interpreter) (file : CompiledFile) (level : Level)
    (now : Config strict) (activation : Activation strict) : Prop where
  program : activation.program = file.program
  thread : activation.thread = interpreter.thread
  known : now.shape.env activation.root = some ⟨level, none, file.program, interpreter.thread⟩
  within : activation.Within now activation.root [] [{ level }]
  ip : now.world.ip activation.root = 0
  lands : activation.Lands 0 [{ level }]

section Opening

variable {interpreter : Interpreter} {now : Config strict} {refs : List ThreadRef}
  {file : CompiledFile} {level : Level} (sound : interpreter.Sound now refs)
  (objects : level.frame.objects = file.objects) (words : level.frame.words = file.words)
  (symbols : level.frame.vars = file.symbols)
  (program : ProgramTyped strict 0 file.program [{ level }])
  (natives : strict → ∀ entry ∈ interpreter.natives.zipIdx,
    Natives.signature? entry.2 = some entry.1.signature ∧
      ∀ slot, file.symbols.lookup entry.1.name = some slot → slot.type = entry.1.signature.toTy)

include sound objects words symbols program natives

theorem openFile_meets :
    (interpreter.openFile file).Meets now interpreter.thread 0 fun later env =>
      env = ⟨now.world.envs.size⟩ ∧ ∃ activation : Activation strict,
        activation.root = env ∧ interpreter.Opened file level later activation := by
  have shared : ∀ entry ∈ file.symbols, level.Shared entry.2 := fun entry member =>
    shared_of_vars (symbols.symm ▸ member)
  obtain ⟨first, activation, acquired, isThread, calm, isEnv, young, within, ip, lands⟩ :=
    now.enters (now.owner_isSome sound.quiet.isTask (.inl rfl)) program
  rw [objects, words] at acquired
  have acquires : (Run.update fun world => world.acquire interpreter.thread none file.program 0
      file.objects file.words).Meets now interpreter.thread 0
        fun later env => later = first ∧ env = activation.root :=
    .calm first (Run.update_done acquired) calm sound.quiet ⟨rfl, rfl⟩
  refine acquires.bind ?_
  rintro first _ - quiet ⟨rfl, rfl⟩
  have alike : first.world.Alike (first.world.setFileEnv interpreter.thread activation.root) :=
    World.alike_updateThread _ _ fun _ => rfl
  have sets : (Run.modify (·.setFileEnv interpreter.thread activation.root)).Meets first
      interpreter.thread first.world.envs.size fun _ _ => True :=
    (Run.modifyAlike_meets quiet alike).mono fun _ _ _ _ _ => trivial
  refine sets.bindOver (Nat.zero_le _) fun second _ since quiet _ => ?_
  have stores : (storeNatives activation.root file.symbols interpreter.natives.zipIdx).Meets second
      interpreter.thread first.world.envs.size fun _ _ => True :=
    storeNatives_meets quiet (since.grows.env _ _ isEnv) shared natives
  refine stores.bindOver (Nat.zero_le _) fun third _ later quiet _ => ?_
  have both := since.trans later
  have own : first.shape.Owns interpreter.thread activation.thread := .inl isThread
  have kept := both.kept _ _ isEnv (.inl rfl) young
  have isProgram : activation.program = file.program := by
    obtain ⟨known, found, same, -⟩ := within.known
    obtain rfl := Option.some.inj (isEnv.symm.trans found)
    exact same.symm
  exact Run.pure_meets quiet ⟨congrArg Prod.fst acquired.symm, activation, rfl, isProgram, isThread,
    both.grows.env _ _ isEnv, within.since own both (Nat.le_refl _), kept.1.trans ip, lands⟩

omit objects words program natives in
theorem runFile_meets {opened : Config strict} {activation : Activation strict}
    (quiet : opened.Quiet interpreter.thread)
    (isOpened : interpreter.Opened file level opened activation) (fuel : Nat) :
    (runFile (Machine.watchedExec interpreter.watch interpreter.host fuel) activation.root).Meets
      opened interpreter.thread 0 fun later env => ∃ known, later.shape.env env = some known ∧
        ∀ entry ∈ file.symbols, known.level.Shared entry.2 := by
  obtain ⟨safe, loopSafe⟩ := Machine.watchedCall_safe interpreter.watch sound.host fuel
  have executes := Run.attempt_meets (Machine.execWith_meets safe loopSafe quiet isOpened.within
    (.inl isOpened.thread) (Nat.zero_le _) (isOpened.ip.symm ▸ isOpened.lands))
  refine executes.bind fun last result since quiet ended => ?_
  cases result with
  | error error =>
    exact (Run.modifyAlike_meets quiet (World.alike_drop _ _)).bind fun _ _ _ quiet _ =>
      Run.fail_meets quiet ended
  | ok _ =>
    exact Run.pure_meets quiet ⟨_, since.grows.env _ _ isOpened.known, fun entry member =>
      shared_of_vars (symbols.symm ▸ member)⟩

theorem enterFile_meets (fuel : Nat) :
    (interpreter.enterFile fuel file).Meets now interpreter.thread 0 fun later env =>
      ∃ known, later.shape.env env = some known ∧
        ∀ entry ∈ file.symbols, known.level.Shared entry.2 := by
  rw [enterFile_eq]
  refine (openFile_meets sound objects words symbols program natives).bind ?_
  rintro opened _ - quiet ⟨-, activation, rfl, isOpened⟩
  exact runFile_meets sound symbols quiet isOpened fuel

end Opening

theorem load_answers {interpreter : Interpreter} {now : Config False} {refs : List ThreadRef}
    (sound : interpreter.Sound now refs) (fuel : Nat) (source : SourceFile) :
    Answers now (fun _ _ _ => True) (interpreter.load fuel source) := by
  unfold load
  dsimp only
  split
  · exact sound.refuses (by simp) (by simp)
  · next file compiled =>
    obtain ⟨level, -, objects, words, symbols, program⟩ := Compile.file_typed compiled
    have meets := enterFile_meets sound objects words symbols program False.elim fuel
    have answers := perform_answers sound fuel meets
    split
    · next error final performed =>
      rw [performed] at answers
      refine ⟨fun reason same => answers.broken reason (by simpa using same), fun ended => ?_⟩
      have endedToo : Ended (.error error : Except HostError EnvRef) := by
        cases error <;> exact ended
      obtain ⟨later, refs, sound, grows, -, allowed⟩ := answers.ended endedToo
      exact ⟨later, refs, sound, grows, by simp, fun failure same =>
        allowed failure (by simpa using same)⟩
    · next env final performed =>
      rw [performed] at answers
      obtain ⟨later, refs, sound, grows, holds, -⟩ := answers.ended trivial
      obtain ⟨known, found, shared⟩ := holds env rfl
      have alike := World.alike_replaced sound.world.symm final.fileEnv
      obtain ⟨last, shape, world, closed, tasks⟩ := sound.alike alike
      refine ⟨by simp, fun _ => ⟨last, refs, ⟨sound.host, world.symm, tasks, closed, ?_⟩,
        shape ▸ grows, by simp, by simp⟩⟩
      rintro _ ⟨⟩
      exact ⟨known, shape ▸ found, shared⟩

def firstShape (strict : Prop) (thread : ThreadRef) : Shape strict where
  env _ := none
  ready _ _ := False
  slice _ := none
  map _ := none
  chan _ := none
  claim _ := none
  owner ref := if ref = thread then some thread else none
  isTask ref := ref = thread

theorem new_sound (options : Options) (proper : strict → ∀ index signature,
    Natives.signature? index = some signature → signature.Proper) :
    ∃ now : Config strict, (Interpreter.new options).Sound now [] := by
  have thread (ref : ThreadRef) : (Interpreter.new options).world.thread ref = {} := by
    simp only [World.thread, Interpreter.new, World.newThread, Array.getD_eq_getD_getElem?]
    rcases ref with ⟨_ | index⟩ <;> simp
  have sound : (Interpreter.new options).world.Sound
      (firstShape strict (Interpreter.new options).thread) := by
    refine ⟨by simp [firstShape], by simp [firstShape], fun ref => ?_, ?_, ?_,
      ⟨.nil, .nil, List.nil_subset _, by simp [Interpreter.new, World.newThread]⟩,
      ⟨by simp [firstShape], by simp [firstShape], by simp [firstShape], by simp [firstShape],
        by simp [Interpreter.new, World.newThread]⟩,
      ⟨by simp [firstShape], by simp [firstShape]⟩,
      by simp [Interpreter.new, World.newThread], by simp [thread]⟩
    · rcases ref with ⟨index⟩
      simp [firstShape, Interpreter.new, World.newThread]
    · simp [firstShape]
    · simp only [firstShape]
      intro ref task owner
      split at owner
      · exact (Option.some.inj owner).symm
      · simp at owner
  refine ⟨⟨_, _, sound⟩, ⟨proper, by simp [host, Interpreter.new]⟩, rfl, ⟨.nil, ?_⟩, ?_,
    by simp [Interpreter.new]⟩
  · refine ⟨by simp, by simp [firstShape], fun task isTask => ⟨isTask, fun ref _ => ?_⟩, ?_, .nil, ?_⟩
    · simp [thread, Thread.left]
    · intro task isTask notBusy
      simp_all [firstShape]
    · simp [Interpreter.new, World.newThread]
  · intro ref known found
    simp [firstShape] at found

theorem define_sound {interpreter : Interpreter} {now : Config strict} {refs : List ThreadRef}
    {native : Native} (sound : interpreter.Sound now refs)
    (safe : native.function.Safe strict (Natives.signature? interpreter.natives.length)) :
    (interpreter.define native).Sound now refs := by
  refine ⟨⟨sound.host.proper, fun index function found => ?_⟩, sound.world, sound.tasks, sound.closed,
    sound.file⟩
  simp only [host, define, List.map_append, List.map_cons, List.map_nil] at found
  rcases Nat.lt_or_ge index interpreter.natives.length with older | newer
  · rw [List.getElem?_append_left (by simpa using older)] at found
    exact sound.host.keeps index function found
  · rw [List.getElem?_append_right (by simpa using newer)] at found
    obtain ⟨last, same⟩ := List.getElem?_eq_some_iff.mp found
    have isLast : index = interpreter.natives.length := by
      simp only [List.length_map, List.length_cons, List.length_nil] at last
      omega
    subst isLast
    simp only [List.length_map, Nat.sub_self, List.getElem_cons_zero] at same
    exact same ▸ safe

def Usable (held args : List Value) : Prop :=
  ∀ value ∈ args, value ∈ held ∨ ∃ constant, value = .const constant

theorem Usable.known {held args : List Value} {shape : Shape strict} (usable : Usable held args)
    (known : ∀ value ∈ held, value.Known shape) : ∀ value ∈ args, value.Known shape := by
  intro value member
  rcases usable value member with isHeld | ⟨constant, rfl⟩
  · exact known value isHeld
  · exact trivial

/-- The states of a program that a host comes to, and the values it has got. -/
inductive Session : Interpreter → List Value → Prop
  | new (options : Options) : Session (.new options) []
  | define {interpreter : Interpreter} {held : List Value} {native : Native} :
    Session interpreter held → native.function.Safe False none →
    Session (interpreter.define native) held
  | watch {interpreter : Interpreter} {held : List Value} (watch : Watch) :
    Session interpreter held → Session { interpreter with watch } held
  | load {interpreter : Interpreter} {held : List Value} {fuel : Nat} {source : SourceFile} :
    Session interpreter held → Ended (interpreter.load fuel source).1 →
    Session (interpreter.load fuel source).2 held
  | global {interpreter : Interpreter} {held : List Value} {name : String} {value : Value} :
    Session interpreter held → interpreter.global? name = some value →
    Session interpreter (value :: held)
  | call {interpreter : Interpreter} {held : List Value} {fuel : Nat} {name : String}
      {args : List Value} :
    Session interpreter held → Usable held args →
    Ended (interpreter.call fuel name args).1 →
    Session (interpreter.call fuel name args).2
      ((interpreter.call fuel name args).1.toOption.getD [] ++ held)
  | work {interpreter : Interpreter} {held : List Value} {fuel : Nat} {native : HostFunction}
      {args : List Value} :
    Session interpreter held → native.Safe False none → Usable held args →
    Ended (interpreter.work fuel native args).1 →
    Session (interpreter.work fuel native args).2
      ((interpreter.work fuel native args).1.toOption.getD [] ++ held)
  | wait {interpreter : Interpreter} {held : List Value} {fuel : Nat} :
    Session interpreter held → Ended (interpreter.wait fuel).1 →
    Session (interpreter.wait fuel).2 held
  | takeOutput {interpreter : Interpreter} {held : List Value} :
    Session interpreter held → Session interpreter.takeOutput.2 held

theorem Answers.held {held : List Value} {now : Config False}
    {answer : Except HostError (List Value) × Interpreter}
    (answers : Answers now (fun later _ results => ∀ value ∈ results, value.Known later.shape) answer)
    (ended : Ended answer.1) (known : ∀ value ∈ held, value.Known now.shape) :
    ∃ (later : Config False) (refs : List ThreadRef), answer.2.Sound later refs ∧
      ∀ value ∈ answer.1.toOption.getD [] ++ held, value.Known later.shape := by
  obtain ⟨later, refs, sound, grows, results, -⟩ := answers.ended ended
  refine ⟨later, refs, sound, List.forall_mem_append.mpr ⟨?_, fun value isHeld => ?_⟩⟩
  · cases result : answer.1 with
    | error error => simp [Except.toOption]
    | ok values => exact results values result
  · exact (known value isHeld).grows grows

theorem Session.sound {interpreter : Interpreter} {held : List Value}
    (session : interpreter.Session held) :
    ∃ (now : Config False) (refs : List ThreadRef), interpreter.Sound now refs ∧
      ∀ value ∈ held, value.Known now.shape := by
  induction session with
  | new options =>
    obtain ⟨now, sound⟩ := @new_sound _ False options False.elim
    exact ⟨now, [], sound, by simp⟩
  | define _ safe ih =>
    obtain ⟨now, refs, sound, known⟩ := ih
    refine ⟨now, refs, define_sound sound ?_, known⟩
    intro call callSafe start task thread args floor quiet own known _ less
    exact (safe call callSafe start task thread args floor quiet own known False.elim less).mono
      fun _ _ _ _ ends => ⟨ends.1, False.elim⟩
  | watch watch _ ih =>
    obtain ⟨now, refs, sound, known⟩ := ih
    exact ⟨now, refs, ⟨sound.host, sound.world, sound.tasks, sound.closed, sound.file⟩, known⟩
  | load _ ended ih =>
    obtain ⟨now, refs, sound, known⟩ := ih
    obtain ⟨later, refs, sound, grows, -⟩ := (load_answers sound _ _).ended ended
    exact ⟨later, refs, sound, fun value member => (known value member).grows grows⟩
  | global _ isValue ih =>
    obtain ⟨now, refs, sound, known⟩ := ih
    exact ⟨now, refs, sound, List.forall_mem_cons.mpr ⟨sound.global_known isValue, known⟩⟩
  | call _ usable ended ih =>
    obtain ⟨now, refs, sound, known⟩ := ih
    exact (call_answers sound _ (usable.known known) False.elim).held ended known
  | work _ safe usable ended ih =>
    obtain ⟨now, refs, sound, known⟩ := ih
    exact (work_answers sound safe _ (usable.known known)).held ended known
  | wait _ ended ih =>
    obtain ⟨now, refs, sound, known⟩ := ih
    obtain ⟨later, refs, sound, grows, -⟩ := (wait_answers sound _).ended ended
    exact ⟨later, refs, sound, fun value member => (known value member).grows grows⟩
  | @takeOutput interpreter held _ ih =>
    obtain ⟨now, refs, sound, known⟩ := ih
    have drained : now.world.Alike { now.world with output := "" } := { World.Alike.refl now.world with }
    obtain ⟨later, shape, world, closed, tasks⟩ := sound.alike drained
    refine ⟨later, refs, ⟨sound.host, ?_, tasks, closed, shape ▸ sound.file⟩, shape ▸ known⟩
    rw [world, ← sound.world]
    rfl

omit [Natives] in
theorem wait_ended {interpreter : Interpreter} {fuel : Nat}
    (ended : Ended (interpreter.wait fuel).1) : (interpreter.wait fuel).1 = .ok () := by
  unfold wait at ended ⊢
  split at ended
  · rfl
  · exact ended.elim
  · exact ended.elim

theorem Session.run {interpreter : Interpreter} {held : List Value} {fuel : Nat}
    (session : interpreter.Session held) (ended : Ended (interpreter.run fuel).1) :
    ∃ (middle : Interpreter) (more : List Value), middle.Session more ∧
      (middle.wait fuel).1 = .ok () ∧ (interpreter.run fuel).2 = (middle.wait fuel).2 := by
  have calls : Ended (interpreter.call fuel "main" []).1 →
      (interpreter.call fuel "main" []).2.Session
        ((interpreter.call fuel "main" []).1.toOption.getD [] ++ held) :=
    session.call (by simp [Usable])
  unfold Interpreter.run at ended ⊢
  cases called : interpreter.call fuel "main" [] with
  | mk result middle =>
    rw [called] at ended calls
    dsimp only at ended calls ⊢
    cases waited : middle.wait fuel with
    | mk outcome final =>
      rw [waited] at ended
      cases outcome with
      | error error =>
        have same := @wait_ended middle fuel (by rw [waited]; cases error <;> exact ended)
        simp [waited] at same
      | ok value =>
        refine ⟨middle, _, calls ?_, by rw [waited], by rw [waited]⟩
        cases result with
        | ok results => exact trivial
        | error error => cases error <;> exact ended

/-- Where a request of a host can be stopped: the environment and the instruction to run next, if any,
of the task that is running. -/
inductive Reached (env : EnvRef) (next : Option Instr) (world : World) : Prop
  | load {interpreter : Interpreter} {held : List Value} {fuel : Nat} {source : SourceFile} :
    Session interpreter held →
    (interpreter.load fuel source).1 = .error (.broken (.watched env next world)) →
    Reached env next world
  | call {interpreter : Interpreter} {held : List Value} {fuel : Nat} {name : String}
      {args : List Value} :
    Session interpreter held → Usable held args →
    (interpreter.call fuel name args).1 = .error (.broken (.watched env next world)) →
    Reached env next world
  | work {interpreter : Interpreter} {held : List Value} {fuel : Nat} {native : HostFunction}
      {args : List Value} :
    Session interpreter held → native.Safe False none → Usable held args →
    (interpreter.work fuel native args).1 = .error (.broken (.watched env next world)) →
    Reached env next world
  | wait {interpreter : Interpreter} {held : List Value} {fuel : Nat} :
    Session interpreter held →
    (interpreter.wait fuel).1 = .error (.broken (.watched env next world)) →
    Reached env next world

/-- Wherever running code is stopped, it is at an instruction of the compiler for the environments
found. -/
theorem Reached.at {env : EnvRef} {next : Option Instr} {world : World}
    (reached : Reached env next world) : ∃ now : Config False, now.world = world ∧ now.At env next := by
  cases reached with
  | load session broken =>
    obtain ⟨now, refs, sound, -⟩ := session.sound
    exact (load_answers sound _ _).broken _ broken
  | call session usable broken =>
    obtain ⟨now, refs, sound, known⟩ := session.sound
    exact (call_answers sound _ (usable.known known) False.elim).broken _ broken
  | work session safe usable broken =>
    obtain ⟨now, refs, sound, known⟩ := session.sound
    exact (work_answers sound safe _ (usable.known known)).broken _ broken
  | wait session broken =>
    obtain ⟨now, refs, sound, -⟩ := session.sound
    exact (wait_answers sound _).broken _ broken

end Interpreter

end MiniGo
