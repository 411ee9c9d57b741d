import MiniGo.Proofs.Lockstep
/-!
Pools of slots. The slots of an environment that has been left serve a later one, after they have been
cleared. Beside the state of a program stands that of the same program without pools, where every
environment gets new slots; whatever running code does, the second stays what the first is without its
pools, and so nothing that running code does depends on them.
-/

namespace MiniGo

variable {α β : Type}

def World.bare (world : World) : World :=
  { world with
    options := { world.options with trace := false, poolCapacity := 0 }
    threads := world.threads.map Thread.bare }

namespace World

variable {world : World}

theorem thread_bare (ref : ThreadRef) : world.bare.thread ref = (world.thread ref).bare := by
  simp only [thread, bare, Array.getD_eq_getD_getElem?, Array.getElem?_map]
  cases world.threads[ref.index]? <;> rfl

theorem updateThread_bare (ref : ThreadRef) {change fresh : Thread → Thread}
    (same : ∀ thread, fresh thread.bare = (change thread).bare) :
    world.bare.updateThread ref fresh = (world.updateThread ref change).bare := by
  have threads : (world.threads.map Thread.bare).modify ref.index fresh =
      (world.threads.modify ref.index change).map Thread.bare := by
    apply Array.ext_getElem?
    intro index
    simp only [Array.getElem?_modify, Array.getElem?_map]
    by_cases here : ref.index = index
    · simp only [here, if_true, Option.map_map]
      congr 1
      funext thread
      exact same thread
    · simp [here]
  simp only [updateThread, bare, threads]

theorem bare_keep (ref : ThreadRef) (slots : Slots) :
    (world.updateThread ref fun thread => { thread with pool := slots :: thread.pool }).bare =
      world.bare := by
  have kept : world.bare.threads.modify ref.index id = world.bare.threads := by
    apply Array.ext_getElem?
    intro index
    simp [Array.getElem?_modify]
  have unseen := @updateThread_bare world ref
    (fun thread => { thread with pool := slots :: thread.pool }) id fun _ => rfl
  rw [← unseen, updateThread, kept]

theorem updateEnv_bare (ref : EnvRef) (change : Env → Env) :
    world.bare.updateEnv ref change = (world.updateEnv ref change).bare := rfl

theorem up_bare (ref : EnvRef) (hops : Nat) : world.bare.up ref hops = world.up ref hops := by
  induction hops generalizing ref with
  | zero => rfl
  | succ hops ih =>
    have same : world.bare.outer? ref = world.outer? ref := rfl
    simp only [up, same]
    cases world.outer? ref with
    | none => rfl
    | some outer => exact ih outer

theorem dropWithin_bare (ref : EnvRef) (depth : Nat) :
    dropWithin ref world.bare depth = (dropWithin ref world depth).bare := by
  induction depth generalizing world ref with
  | zero => rfl
  | succ depth ih =>
    have same : world.bare.env? ref = world.env? ref := rfl
    simp only [dropWithin, same, updateEnv_bare]
    cases world.env? ref with
    | none => rfl
    | some env =>
      dsimp only
      cases env.outer with
      | none => rfl
      | some outer =>
        dsimp only
        split
        · exact ih outer
        · rfl

theorem drop_bare (ref : EnvRef) : world.bare.drop ref = (world.drop ref).bare :=
  dropWithin_bare ref _

theorem acquire_bare (thread : ThreadRef) (outer : Option EnvRef) (program : Program)
    (ip objects words : Nat) : world.bare.acquire thread outer program ip objects words =
      ((world.acquire thread outer program ip objects words).1,
        (world.acquire thread outer program ip objects words).2.bare) := by
  have pools : world.bare.updateThread thread
      ({ · with pool := (world.bare.thread thread).pool.tail }) =
        (world.updateThread thread ({ · with pool := (world.thread thread).pool.tail })).bare := by
    refine updateThread_bare thread fun _ => ?_
    rw [thread_bare]
    rfl
  simp only [acquire, Slots.resize_eq_fresh, pools]
  cases outer <;> rfl

theorem push_bare (ref : EnvRef) (objects words : Nat) : world.bare.push ref objects words =
    ((world.push ref objects words).1, (world.push ref objects words).2.bare) := by
  have same : world.bare.env? ref = world.env? ref := rfl
  simp only [push, same]
  cases world.env? ref with
  | none => rfl
  | some env =>
    exact @acquire_bare { world with entered := ⟨world.envs.size⟩ :: world.entered } env.thread
      (some ref) env.program env.ip objects words

theorem recycle_bare (thread : ThreadRef) (ref : EnvRef) :
    world.bare.recycle thread ref = (world.recycle thread ref).bare := by
  have same : world.bare.env? ref = world.env? ref := rfl
  have none : ¬(world.bare.thread thread).pool.length < world.bare.options.poolCapacity :=
    Nat.not_lt_zero _
  simp only [recycle, same]
  cases world.env? ref with
  | none => rfl
  | some env =>
    simp only [none, decide_false, Bool.and_false, Bool.false_eq_true, if_false]
    rw [← drop_bare]
    congr 1
    split
    · exact (bare_keep thread env.slots).symm
    · rfl

theorem releaseTo_bare (ref outer : EnvRef) :
    world.bare.releaseTo ref outer = (world.releaseTo ref outer).bare := by
  have same : world.bare.threadOf ref = world.threadOf ref := rfl
  simp only [releaseTo, release, same]
  exact @recycle_bare { world.retain outer with exited := ref :: world.exited } _ ref

theorem pop_bare (ref : EnvRef) : world.bare.pop ref = ((world.pop ref).1, (world.pop ref).2.bare) := by
  have same : world.bare.outer? ref = world.outer? ref := rfl
  simp only [pop, same]
  cases world.outer? ref with
  | none => rfl
  | some outer => exact congrArg (Prod.mk outer) (@releaseTo_bare (world.setIp outer _) ref outer)

theorem leave_bare (ref : EnvRef) (hops : Nat) :
    world.bare.leave ref hops = ((world.leave ref hops).1, (world.leave ref hops).2.bare) := by
  induction hops generalizing world ref with
  | zero => rfl
  | succ hops ih =>
    have same : world.bare.outer? ref = world.outer? ref := rfl
    simp only [leave, same]
    cases world.outer? ref with
    | none => rfl
    | some outer =>
      simp only [releaseTo_bare]
      exact ih outer

theorem unwindWithin_bare (root ref : EnvRef) (depth : Nat) :
    unwindWithin root ref world.bare depth =
      ((unwindWithin root ref world depth).1, (unwindWithin root ref world depth).2.bare) := by
  induction depth generalizing world ref with
  | zero => rfl
  | succ depth ih =>
    have same : world.bare.outer? ref = world.outer? ref := rfl
    simp only [unwindWithin, same]
    split
    · rfl
    · cases world.outer? ref with
      | none => rfl
      | some outer =>
        simp only [releaseTo_bare]
        exact ih outer

theorem unwind_bare (root ref : EnvRef) : world.bare.unwind root ref =
    ((world.unwind root ref).1, (world.unwind root ref).2.bare) := unwindWithin_bare root ref _

theorem newThread_bare {thread : Thread} (empty : thread.bare = thread) : world.bare.newThread thread =
    ((world.newThread thread).1, (world.newThread thread).2.bare) := by
  simp [newThread, bare, empty]

theorem spawnThread_bare (parent : ThreadRef) : world.bare.spawnThread parent =
    ((world.spawnThread parent).1, (world.spawnThread parent).2.bare) := by
  simp only [spawnThread, thread_bare]
  exact newThread_bare rfl

theorem write_bare (text : String) : world.bare.write text = (world.write text).bare := by
  have same : world.bare.options.captureOutput = world.options.captureOutput := rfl
  simp only [write, same]
  split <;> rfl

end World

/-- An outcome, and the one of the same computation in a program without pools. -/
inductive Outcome.Mirrors : Outcome α → Outcome α → Prop
  | done {value : α} {world : World} : Mirrors (.done value world) (.done value world.bare)
  | fail {error : RuntimeError} {world : World} : Mirrors (.fail error world) (.fail error world.bare)
  | await {wait : Wait} {world : World} {resume fresh : World → Outcome α} :
    (∀ later, Mirrors (resume later) (fresh later.bare)) →
    Mirrors (.await wait world resume) (.await wait world.bare fresh)
  | exhausted : Mirrors (.broken .exhausted) (.broken .exhausted)

namespace Outcome.Mirrors

variable {outcome fresh : Outcome α}

theorem bind {next freshNext : α → World → Outcome β} (mirrors : outcome.Mirrors fresh)
    (goes : ∀ value world, (next value world).Mirrors (freshNext value world.bare)) :
    (outcome.bind next).Mirrors (fresh.bind freshNext) := by
  induction mirrors with
  | done => exact goes _ _
  | fail => exact .fail
  | await _ ih => exact .await ih
  | exhausted => exact .exhausted

theorem attempt (mirrors : outcome.Mirrors fresh) : outcome.attempt.Mirrors fresh.attempt := by
  induction mirrors with
  | done | fail => exact .done
  | await _ ih => exact .await ih
  | exhausted => exact .exhausted

end Outcome.Mirrors

def Run.Blind (run : Run α) : Prop := ∀ world, (run world).Mirrors (run world.bare)

namespace Run.Blind

variable {run : Run α}

theorem bind {next : α → Run β} (blind : run.Blind) (goes : ∀ value, (next value).Blind) :
    (run >>= next).Blind := by
  intro world
  show (Run.bind run next world).Mirrors (Run.bind run next world.bare)
  rw [Run.bind_apply, Run.bind_apply]
  exact (blind world).bind goes

theorem attempt (blind : run.Blind) : (Run.attempt run).Blind := by
  intro world
  rw [Run.attempt_apply, Run.attempt_apply]
  exact (blind world).attempt

theorem pure (value : α) : (Pure.pure value : Run α).Blind := fun _ => .done

theorem fail (error : RuntimeError) : (Run.fail error : Run α).Blind := fun _ => .fail

theorem ofExcept (result : Except RuntimeError α) : (Run.ofExcept result).Blind := by
  cases result with
  | ok value => exact .pure value
  | error error => exact .fail error

theorem modify {change : World → World} (same : ∀ world, change world.bare = (change world).bare) :
    (Run.modify change).Blind := by
  intro world
  simp only [Run.modify, same]
  exact .done

theorem update {change : World → α × World}
    (same : ∀ world, change world.bare = ((change world).1, (change world).2.bare)) :
    (Run.update change).Blind := by
  intro world
  simp only [Run.update, same]
  exact .done

theorem store (env : EnvRef) (slot : Slot) (value : Value) : (Run.store env slot value).Blind :=
  .modify fun _ => rfl

theorem drop (env : EnvRef) : (Run.modify (·.drop env)).Blind := .modify fun _ => World.drop_bare env

end Run.Blind

def Caller.Blind (call : Caller) : Prop :=
  ∀ (thread : ThreadRef) (invocation : Invocation), (call thread invocation).Blind

def Lockstep.unpooled : Lockstep where
  State := Unit
  goes _ _ := True
  waits _ _ := True
  holds _ world fresh := fresh = world.bare
  refl _ := trivial
  trans _ _ := trivial
  poised _ _ := True
  poised_goes _ _ := trivial
  poised_waits _ _ := trivial
  heap _ _ _ same := same ▸ rfl
  exchange _ _ _ same := same ▸ rfl
  up env hops _ _ _ same := same ▸ (World.up_bare env hops).symm
  load _ _ _ _ _ same := same ▸ rfl
  threadOf _ _ _ _ same := same ▸ rfl
  setHeap _ _ _ _ same := same ▸ rfl
  setExchange _ _ _ _ same := same ▸ rfl
  write text _ _ _ same := same ▸ World.write_bare text
  store _ _ _ _ _ _ same := same ▸ rfl
  retain _ _ _ _ same := same ▸ rfl
  drop env _ _ _ same := same ▸ World.drop_bare env
  recycle thread env _ _ _ same := same ▸ World.recycle_bare thread env
  leave env hops := ⟨fun _ _ _ same => same ▸ (congrArg Prod.fst (World.leave_bare env hops)).symm,
    fun _ _ _ same => same ▸ congrArg Prod.snd (World.leave_bare env hops)⟩
  unwind root env := ⟨fun _ _ _ same => same ▸ (congrArg Prod.fst (World.unwind_bare root env)).symm,
    fun _ _ _ same => same ▸ congrArg Prod.snd (World.unwind_bare root env)⟩
  thread ref view unseen _ world _ same := by
    subst same
    dsimp only
    rw [World.thread_bare, unseen]
  updateThread ref _ unseen _ _ _ same := same ▸ World.updateThread_bare ref unseen
  spawnThread parent := ⟨fun _ _ _ same =>
      same ▸ (congrArg Prod.fst (World.spawnThread_bare parent)).symm,
    fun _ _ _ same => same ▸ congrArg Prod.snd (World.spawnThread_bare parent)⟩
  spawn _ _ _ _ same := same ▸ rfl
  ip same _ := same ▸ ⟨rfl, rfl⟩
  setIp _ _ same := ⟨(), trivial, same ▸ rfl, trivial⟩
  acquire thread outer program ip objects words same := by
    subst same
    rw [World.acquire_bare]
    exact ⟨rfl, (), trivial, rfl, trivial⟩
  push objects words same _ := by
    subst same
    rw [World.push_bare]
    exact ⟨rfl, (), trivial, rfl, trivial⟩
  pop same _ := by
    subst same
    rw [World.pop_bare]
    exact ⟨rfl, (), trivial, rfl, trivial⟩

open Lockstep

theorem Outcome.Agree.mirrors {state : unpooled.State} {outcome fresh : Outcome α}
    (agree : outcome.Agree unpooled.toComparison (fun _ result found => result = found) state fresh) :
    outcome.Mirrors fresh := by
  induction agree with
  | done _ same ends =>
    obtain rfl := Except.ok.inj ends
    exact same ▸ .done
  | fail _ same ends =>
    obtain rfl := Except.error.inj ends
    exact same ▸ .fail
  | @await state _ _ _ _ _ _ _ same _ ih =>
    exact same ▸ .await fun later => ih state later later.bare trivial rfl
  | early may => exact may.elim
  | late may => exact may.elim
  | exhausted => exact .exhausted

theorem Outcome.Mirrors.agree {outcome fresh : Outcome α} (mirrors : outcome.Mirrors fresh)
    (state : unpooled.State) :
    outcome.Agree unpooled.toComparison (fun _ result found => result = found) state fresh := by
  induction mirrors with
  | done => exact .done (unpooled.refl state) rfl rfl
  | fail => exact .fail (unpooled.refl state) rfl rfl
  | await _ ih =>
    refine .await (unpooled.refl state) rfl ?_
    rintro _ later _ - rfl
    exact ih later
  | exhausted => exact .exhausted

namespace Run.Blind

theorem of_alike {run : Run α} (alike : unpooled.Alike run run) : run.Blind :=
  fun world => (alike () world world.bare rfl).mirrors

theorem alike {run : Run α} (blind : run.Blind) : unpooled.Alike run run := by
  rintro state world _ rfl
  exact (blind world).agree state

end Run.Blind

end MiniGo
