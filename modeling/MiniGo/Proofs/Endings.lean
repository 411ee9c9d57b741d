import MiniGo.Proofs.Deferred
import MiniGo.Proofs.Sessions
/-!
What is left when a run has ended: every block that it has entered has been left, once, and nothing is
left with its threads.
-/

namespace MiniGo

variable [Natives] {strict : Prop}

namespace Config

def Balanced (task : ThreadRef) (before after : Config strict) : Prop :=
  ∀ ref known, after.shape.env ref = some known → after.shape.Owns task known.thread →
    ((ref ∈ after.world.entered ∧ ref ∉ before.world.entered) ↔
      (ref ∈ after.world.exited ∧ ref ∉ before.world.exited))

theorem Even.balanced {task : ThreadRef} {before after : Config strict} (even : before.Even task after) :
    before.Balanced task after := by
  intro ref known found own
  have same := even ref known found own
  have leftBefore := before.sound.blocks.left
  have leftAfter := after.sound.blocks.left
  simp only [World.IsOpen] at same
  constructor
  · rintro ⟨entered, notBefore⟩
    refine ⟨?_, fun exited => notBefore (leftBefore exited)⟩
    by_contra notExited
    exact notBefore (same.mp ⟨entered, notExited⟩).1
  · rintro ⟨exited, notBefore⟩
    refine ⟨leftAfter exited, fun entered => ?_⟩
    exact (same.mpr ⟨entered, notBefore⟩).2 exited

theorem exited_perm {now : Config strict}
    (closed : ∀ task, now.shape.isTask task → now.Closed task) :
    now.world.exited.Perm now.world.entered := by
  have blocks := now.sound.blocks
  refine (List.perm_ext_iff_of_nodup blocks.exited blocks.entered).mpr fun ref =>
    ⟨fun exited => blocks.left exited, fun entered => ?_⟩
  by_contra notExited
  obtain ⟨known, found⟩ := Option.isSome_iff_exists.mp (blocks.known ref entered)
  obtain ⟨owner, isOwner⟩ := Option.isSome_iff_exists.mp (now.sound.envs ref known found).1
  by_cases isTask : now.shape.isTask known.thread
  · exact closed _ isTask ref known found (.inl rfl) ⟨entered, notExited⟩
  · exact closed owner (now.sound.owners _ _ isOwner) ref known found (.inr ⟨isOwner, isTask⟩)
      ⟨entered, notExited⟩

end Config

namespace Interpreter

theorem Sound.exited_perm {interpreter : Interpreter} {now : Config strict}
    (sound : interpreter.Sound now []) :
    interpreter.world.exited.Perm interpreter.world.entered := by
  rw [sound.world]
  refine Config.exited_perm fun task isTask => ?_
  by_cases front : task = interpreter.thread
  · exact front ▸ sound.closed
  · exact sound.tasks.2.closed task isTask (by simpa using front)

end Interpreter

/-- No block is open: each one entered has been left, once. -/
structure World.Settled (world : World) : Prop where
  entered : world.entered.Nodup
  exited : world.exited.Perm world.entered
  counts : world.pushed = world.popped

theorem Interpreter.Sound.settled {interpreter : Interpreter} {now : Config strict}
    (sound : interpreter.Sound now []) : interpreter.world.Settled :=
  ⟨sound.world ▸ now.sound.blocks.entered, sound.exited_perm, sound.exited_perm.length_eq.symm⟩

/-- However a body ends, the blocks that it has entered are those that have been left, once each, at
whatever depth of calls it runs and whatever its deferred calls do. When a host has waited for all
tasks, and so after each run of the program that ends, no block is open at all. -/
theorem blocks_balanced :
    (∀ {host : Host} {watch : Watch} {fuel : Nat} {activation : Activation False}
        {start : Config False} {task : ThreadRef} {layers : List Layer},
      host.Safe False → start.Quiet task → start.shape.Owns task activation.thread →
      activation.Within start activation.root [] layers →
      activation.Lands (start.world.ip activation.root) layers →
      (Machine.watchedExec watch host fuel activation.root start.world).Safe task
        (fun later _ => later.world.entered.Nodup ∧ later.world.exited.Nodup ∧
          start.Balanced task later) start) ∧
    ∀ {interpreter : Interpreter} {held : List Value}, interpreter.Session held → ∀ fuel : Nat,
      ((interpreter.wait fuel).1 = .ok () → (interpreter.wait fuel).2.world.Settled) ∧
      (Interpreter.Ended (interpreter.run fuel).1 → (interpreter.run fuel).2.world.Settled) := by
  constructor
  · intro host watch fuel activation start task layers hostSafe quiet own within lands
    obtain ⟨safe, loopSafe⟩ := Machine.watchedCall_safe watch hostSafe fuel
    have meets := Machine.execWith_meets safe loopSafe quiet within own (Nat.zero_le _) lands
    exact Outcome.Safe.mono meets fun later _ ends =>
      ⟨later.sound.blocks.entered, later.sound.blocks.exited, ends.1.blocks.balanced⟩
  · intro interpreter held session fuel
    have waits {interpreter : Interpreter} {held : List Value} (session : interpreter.Session held)
        (waited : (interpreter.wait fuel).1 = .ok ()) :
        (interpreter.wait fuel).2.world.Settled := by
      obtain ⟨now, refs, sound, -⟩ := session.sound
      obtain ⟨later, refs, sound, -, idle, -⟩ :=
        (Interpreter.wait_answers sound fuel).ended (waited ▸ trivial)
      obtain ⟨rfl, -⟩ := idle () waited
      exact sound.settled
    refine ⟨waits session, fun ended => ?_⟩
    obtain ⟨middle, more, session, waited, same⟩ := session.run ended
    exact same ▸ waits session waited

def nestedPanic : SourceFile :=
  let define (name : String) (value : Expr) : Stmt := .assign [.ident ⟨name, {}⟩] .define [value] {}
  let stop : Stmt := .expr (.call (.ident ⟨"panic", {}⟩) [.string "stop" {}] false {})
  [.func ⟨"main", {}⟩ {} (.mk [.block (.mk [define "x" (.int 1 {}),
    .block (.mk [define "y" (.ident ⟨"x", {}⟩), stop] {})] {})] {}) {}]

def nestedPanicLoaded : Interpreter := ((Interpreter.new {}).load 50 nestedPanic).2

theorem nestedPanic_enters : ∃ (start : Config False) (activation : Activation False)
    (task : ThreadRef) (layers : List Layer), start.Quiet task ∧
      start.shape.Owns task activation.thread ∧ activation.Within start activation.root [] layers ∧
      activation.Lands (start.world.ip activation.root) layers := by
  have compiled : (Compile.file nestedPanic []).isOk = true := by decide +kernel
  cases result : Compile.file nestedPanic [] with
  | error error => simp [result, Except.isOk, Except.toBool] at compiled
  | ok file =>
    obtain ⟨level, typed⟩ := Compile.file_typed result
    obtain ⟨now, sound⟩ := @Interpreter.new_sound _ False {} False.elim
    obtain ⟨later, activation, -, isThread, calm, -, -, within, ip, lands⟩ :=
      now.enters (now.owner_isSome sound.quiet.isTask (.inl rfl)) typed.program
    exact ⟨later, activation, _, _, calm.quiet sound.quiet, .inl isThread, within, ip ▸ lands⟩

theorem safe_nil : Host.Safe False [] := ⟨False.elim, by simp⟩

omit [Natives] in
theorem blocks_balanced_nested_panic :
    (∃ (_ : Natives) (start : Config False) (activation : Activation False) (task : ThreadRef),
      start.Quiet task ∧ (Machine.watchedExec .never [] 50 activation.root start.world).Safe task
        (fun later _ => later.world.entered.Nodup ∧ later.world.exited.Nodup ∧
          start.Balanced task later) start) ∧
    (nestedPanicLoaded.run 50).1.isOk = false ∧ (nestedPanicLoaded.run 50).2.world.pushed = 2 ∧
      (nestedPanicLoaded.run 50).2.world.Settled := by
  let natives : Natives := ⟨fun _ => none⟩
  obtain ⟨start, activation, task, layers, quiet, own, within, lands⟩ := nestedPanic_enters
  have session : nestedPanicLoaded.Session [] := .load (.new {}) (by decide +kernel)
  exact ⟨⟨natives, start, activation, task, quiet, blocks_balanced.1 safe_nil quiet own within lands⟩,
    by decide +kernel, by decide +kernel, (blocks_balanced.2 session 50).2 (by decide +kernel)⟩

def Thread.cleared (thread : Thread) : Thread :=
  { thread with signal := .none, deferred := none, panic := none }

omit [Natives] in
theorem Thread.cleared_of_left {thread : Thread} (left : thread.left = (.none, none, none)) :
    thread.cleared = thread := by
  simp only [Thread.left, Prod.mk.injEq] at left
  simp only [cleared, ← left.1, ← left.2.1, ← left.2.2]

/-- With nothing to run next, the executor ends the body, goes on with the call that was deferred, or
fails with the error that is there. -/
def Machine.Decides (env : EnvRef) (world : World) : Prop :=
  ∀ (resume : Option Instr → Invocation → Run Stopped) (deferred : List Invocation),
    ∃ later : World, later.instr? env = world.instr? env ∧
      (settle resume env deferred world = .done ⟨env, deferred, none⟩ later ∨
        (∃ call, (world.thread (world.threadOf env)).deferred = some call ∧
          settle resume env deferred world = resume (later.instr? env) call later) ∨
        ∃ error, (world.thread (world.threadOf env)).panic = some error ∧
          settle resume env deferred world = .done ⟨env, deferred, some error⟩ later)

omit [Natives] in
theorem Thread.Explained.decides {world : World} {env : EnvRef}
    (explained : (world.thread (world.threadOf env)).Explained) : Machine.Decides env world := by
  intro resume deferred
  generalize isThread : world.threadOf env = thread at explained ⊢
  have taken : world.takeSignal thread =
      ((world.thread thread).signal, (world.takeSignal thread).2) := rfl
  have kept : ((world.takeSignal thread).2.thread thread).deferred = (world.thread thread).deferred ∧
      ((world.takeSignal thread).2.thread thread).panic = (world.thread thread).panic := by
    simp only [World.takeSignal, World.thread_updateThread]
    split <;> exact ⟨rfl, rfl⟩
  cases signal : (world.thread thread).signal with
  | none =>
    rw [signal] at taken
    exact ⟨(world.takeSignal thread).2, rfl, .inl (Machine.settle_ended isThread taken (.inl rfl))⟩
  | ret =>
    rw [signal] at taken
    exact ⟨(world.takeSignal thread).2, rfl, .inl (Machine.settle_ended isThread taken (.inr rfl))⟩
  | defer =>
    rw [signal] at taken
    obtain ⟨call, isCall⟩ := Option.isSome_iff_exists.mp (explained.deferred signal)
    have pending : (world.takeSignal thread).2.takeDefer thread =
        (some call, ((world.takeSignal thread).2.takeDefer thread).2) :=
      Prod.ext (kept.1.trans isCall) rfl
    exact ⟨((world.takeSignal thread).2.takeDefer thread).2, rfl,
      .inr (.inl ⟨call, isCall, Machine.settle_deferred isThread taken pending⟩)⟩
  | panic =>
    rw [signal] at taken
    obtain ⟨error, isError⟩ := Option.isSome_iff_exists.mp (explained.panic signal)
    have pending : (world.takeSignal thread).2.takePanic thread =
        (some error, ((world.takeSignal thread).2.takePanic thread).2) :=
      Prod.ext (kept.2.trans isError) rfl
    exact ⟨((world.takeSignal thread).2.takePanic thread).2, rfl,
      .inr (.inr ⟨error, isError, Machine.settle_panicked isThread taken pending⟩)⟩

/-- Signals do not outlast the body that they are meant for. However a body ends, at whatever depth of
calls, nothing is left with its thread if nothing was before. Wherever running code is stopped with
nothing to run next, what a signal announces is there, so the executor never has to make an error up.
After a call that has failed, the thread is as if nothing had ever been left with it, and so the next
call is the same as if the first had not failed. -/
theorem signals_taken :
    (∀ {host : Host} {watch : Watch} {fuel : Nat} {activation : Activation False}
        {start : Config False} {task : ThreadRef} {layers : List Layer},
      host.Safe False → start.Quiet task → start.shape.Owns task activation.thread →
      activation.Within start activation.root [] layers →
      activation.Lands (start.world.ip activation.root) layers →
      (Machine.watchedExec watch host fuel activation.root start.world).Safe task
        (fun later _ => (later.world.thread activation.thread).left = (.none, none, none)) start) ∧
    (∀ {env : EnvRef} {world : World}, Interpreter.Reached env none world →
      (world.thread (world.threadOf env)).Explained ∧ Machine.Decides env world) ∧
    ∀ {interpreter : Interpreter} {held : List Value}, interpreter.Session held →
      ∀ {fuel : Nat} {name : String} {args : List Value} {failure : RuntimeError},
      Interpreter.Usable held args →
      (interpreter.call fuel name args).1 = .error (.runtime failure) →
      let later := (interpreter.call fuel name args).2
      ∀ (fuel : Nat) (name : String) (args : List Value),
        { later with world := later.world.updateThread later.thread .cleared }.call fuel name args =
          later.call fuel name args := by
  refine ⟨?_, ?_, ?_⟩
  · intro host watch fuel activation start task layers hostSafe quiet own within lands
    obtain ⟨safe, loopSafe⟩ := Machine.watchedCall_safe watch hostSafe fuel
    have meets := Machine.execWith_meets safe loopSafe quiet within own (Nat.zero_le _) lands
    exact Outcome.Safe.mono meets fun later _ ends => ends.2.1.left _ (ends.1.owns _ own)
  · intro env world reached
    obtain ⟨now, rfl, activation, blocks, layers, within, place⟩ := reached.at
    have explained : (now.world.thread (now.world.threadOf env)).Explained := by
      rw [within.threadOf]
      rcases place with ⟨-, -, explained⟩ | ⟨none, -⟩
      · exact explained
      · exact ⟨by simp [none], by simp [none]⟩
    exact ⟨explained, explained.decides⟩
  · intro interpreter held session fuel name args failure usable failed later
    obtain ⟨now, refs, sound, known⟩ := session.sound
    obtain ⟨after, refs, sound, -⟩ :=
      (Interpreter.call_answers sound fuel (usable.known known) False.elim).ended
        (by rw [failed]; exact trivial)
    have idle : (later.world.thread later.thread).left = (.none, none, none) := by
      rw [sound.world]
      exact sound.quiet.left _ (.inl rfl)
    intro fuel name args
    rw [World.updateThread_self (Thread.cleared_of_left idle)]

def panicWatch : Watch := fun env next world =>
  next.isNone && decide ((world.thread (world.threadOf env)).signal = .panic)

omit [Natives] in
theorem signals_taken_nested_panic :
    (∃ (_ : Natives) (start : Config False) (activation : Activation False) (task : ThreadRef),
      start.Quiet task ∧ (Machine.watchedExec .never [] 50 activation.root start.world).Safe task
        (fun later _ => (later.world.thread activation.thread).left = (.none, none, none)) start) ∧
    (∃ env world, ({ nestedPanicLoaded with watch := panicWatch }.call 50 "main" []).1 =
        .error (.broken (.watched env none world)) ∧
      (world.thread (world.threadOf env)).Explained) ∧
    (nestedPanicLoaded.call 50 "main" []).1 = .error (.runtime (.panic "stop")) ∧
    let later := (nestedPanicLoaded.call 50 "main" []).2
    { later with world := later.world.updateThread later.thread .cleared }.call 50 "main" [] =
      later.call 50 "main" [] := by
  let natives : Natives := ⟨fun _ => none⟩
  obtain ⟨start, activation, task, layers, quiet, own, within, lands⟩ := nestedPanic_enters
  have session : nestedPanicLoaded.Session [] := .load (.new {}) (by decide +kernel)
  have usable : Interpreter.Usable [] [] := by simp [Interpreter.Usable]
  have fails : (nestedPanicLoaded.call 50 "main" []).1 = .error (.runtime (.panic "stop")) := by cbv
  have stops : ∃ env world, ({ nestedPanicLoaded with watch := panicWatch }.call 50 "main" []).1 =
      .error (.broken (.watched env none world)) := ⟨_, _, by cbv⟩
  obtain ⟨env, world, stopped⟩ := stops
  obtain ⟨clean, explained, recovers⟩ := signals_taken
  exact ⟨⟨natives, start, activation, task, quiet, clean safe_nil quiet own within lands⟩,
    ⟨env, world, stopped, (explained (.call (.watch panicWatch session) usable stopped)).1⟩, fails,
    recovers session usable fails 50 "main" []⟩

end MiniGo
