import MiniGo.Proofs.Evaluation
/-!
Starting a task. The task gets a thread of its own, on which the operands of its call are evaluated;
from then on the thread is no longer one of those of the task that has made it.
-/

namespace MiniGo

variable [Natives] {strict : Prop}

theorem Config.handOver (config : Config strict) {task new : ThreadRef} {invocation : Invocation}
    (quiet : config.Quiet task) (owner : config.shape.owner new = some task)
    (noTask : ¬config.shape.isTask new) (sound : invocation.Sound config.shape)
    (closed : ∀ ref known, config.shape.env ref = some known → known.thread = new →
      ¬config.world.IsOpen ref) :
    ∃ after : Config strict,
      after.world =
        { config.world with
          spawned := config.world.spawned + 1, pending := config.world.pending ++ [⟨new, invocation⟩] } ∧
      after.shape = { config.shape with isTask := fun ref => ref = new ∨ config.shape.isTask ref } ∧
      config.Advances task after ∧ after.Quiet task := by
  set shape : Shape strict :=
    { config.shape with isTask := fun ref => ref = new ∨ config.shape.isTask ref } with isShape
  have grown : config.shape.Grows shape :=
    { Shape.Grows.refl config.shape with isTask := fun _ isTask => .inr isTask }
  have differs : new ≠ task := by
    rintro rfl
    exact noTask quiet.isTask
  have isSound : World.Sound shape
      { config.world with
        spawned := config.world.spawned + 1
        pending := config.world.pending ++ [⟨new, invocation⟩] } :=
    { envs := by
        intro ref known found
        obtain ⟨inside, env, present, holds⟩ := config.sound.envs ref known found
        exact ⟨inside, env, present, holds.grows grown fun _ isReady => isReady⟩
      ready := config.sound.ready
      threads := config.sound.threads
      tasks := by
        rintro ref (rfl | isTask)
        · simp [isShape, owner]
        · exact config.sound.tasks ref isTask
      owners := fun ref task owned => .inr (config.sound.owners ref task owned)
      blocks := config.sound.blocks.grows grown ⟨rfl, rfl⟩
      heap := config.sound.heap.grows grown rfl rfl rfl rfl
      exchange := config.sound.exchange.grows grown rfl rfl
      pending := by
        intro spawn member
        rcases List.mem_append.mp member with old | isNew
        · exact (config.sound.pending spawn old).grows grown
        · obtain rfl := List.mem_singleton.mp isNew
          exact sound.grows grown
      deferred := fun ref call found => (config.sound.deferred ref call found).grows grown }
  have own : config.shape.Owns task new := .inr ⟨owner, noTask⟩
  refine ⟨⟨shape, _, isSound⟩, rfl, rfl, ?_, ?_⟩
  · refine ⟨grown, Nat.le_refl _, fun _ none => .inl none, fun ref _ foreign => ⟨?_, rfl⟩,
      fun _ _ _ _ => .refl _ _ _, fun _ _ _ _ _ => Iff.rfl, [⟨new, invocation⟩], rfl, by simp,
      fun ref isTask => isTask.symm.imp_right (by simp [·]), ?_⟩
    · rintro (rfl | isTask)
      · exact absurd own foreign
      · exact isTask
    · intro spawn member
      obtain rfl := List.mem_singleton.mp member
      exact ⟨differs, noTask, .inl rfl, quiet.left new own, closed⟩
  · refine ⟨.inr quiet.isTask, fun ref owned => quiet.left ref ?_⟩
    rcases owned with rfl | ⟨owned, noTask⟩
    · exact .inl rfl
    · exact .inr ⟨owned, fun isTask => noTask (.inr isTask)⟩

section Spawning

variable {start : Config strict} {task : ThreadRef} {floor : Nat} {env : EnvRef} {call : Caller}
  {ctx : Ctx strict}

open Run

theorem evalCall_meets (safe : call.Safe strict) {node : Call} {results : List Ty}
    (typed : CallTyped strict ctx node results) (hosts : start.Hosts task floor env ctx.layers) :
    (evalCall call env node).Meets start task floor
      fun now invocation => invocation.Sound now.shape := by
  cases typed with
  | @mk _ callee args spread signature sources targets calleeFits argsTyped assignable accepts =>
    refine (eval_meets safe callee calleeFits hosts).bind fun middle function since quiet fits => ?_
    refine (evalValues_meets safe args argsTyped (hosts.since since quiet)).bind
      fun now values later quiet inhabit => pure_meets quiet ?_
    exact ⟨fits.1.grows later.grows, inhabit.1, fun isStrict => ⟨signature, targets, fits.2 isStrict,
      forall₂_assign (inhabit.2 isStrict) assignable, accepts⟩⟩

theorem Step.spawn_meets (safe : call.Safe strict) {node : Call} {results : List Ty}
    (typed : CallTyped strict ctx.inner node results)
    (hosts : start.Hosts task floor env ctx.layers) :
    (Step.spawn call env node).Meets start task floor fun _ _ => True := by
  obtain ⟨first, made, advances, since, quiet, owner, noTask, fresh⟩ :=
    start.newThread hosts.quiet
      { fileEnv := (start.world.thread (start.world.threadOf env)).fileEnv
        topEnv := (start.world.thread (start.world.threadOf env)).topEnv } rfl
  set new : ThreadRef := ⟨start.world.threads.size⟩ with isNew
  have older : env.index < first.world.envs.size := by
    obtain ⟨known, found, -⟩ := hosts.acts
    obtain ⟨-, there, present, -⟩ := start.sound.envs env known found
    have inside : env.index < start.world.envs.size := (Array.getElem?_eq_some_iff.mp present).1
    exact Nat.lt_of_lt_of_le inside advances.envs
  obtain ⟨second, acquired, calm, isEnv, -, size⟩ :=
    @Config.acquire _ _ first new (some env) {} 0 Level.none (by simp [owner])
      (by rintro _ ⟨⟩; exact older)
  set operands : EnvRef := ⟨first.world.envs.size⟩ with isOperands
  have sinceSecond : start.Since task floor second := (since floor).trans calm.since
  have ownSecond : second.shape.Owns task new := by
    refine .inr ⟨calm.grows.owner _ _ owner, ?_⟩
    rw [calm.isTask]
    exact noTask
  have hosted : second.Hosts task floor operands ctx.inner.layers := by
    refine ⟨calm.quiet quiet, ?_, ⟨_, isEnv, ownSecond⟩, Nat.le_trans hosts.floor sinceSecond.envs⟩
    exact .cons isEnv rfl (by simp) (hosts.spans.grows sinceSecond.grows)
  have evaluates := attempt_meets (evalCall_meets safe typed hosted)
  have spawns : Run.update (fun world : World => world.spawnThread (world.threadOf env)) start.world =
      .done new first.world := Run.update_done made
  have acquires : Run.update (·.acquire new (some env) {} 0 0 0) first.world =
      .done operands second.world := Run.update_done acquired
  show (Step.spawn call env node start.world).Safe task _ start
  rw [Step.spawn, bind_done spawns, bind_done acquires]
  refine Outcome.Safe.sooner ?_ (advances.trans calm.advances)
  show (Run.bind (Run.attempt _) _ second.world).Safe task _ second
  rw [Run.bind_apply]
  refine Outcome.Safe.bind evaluates ?_ ?_
  · rintro third result ⟨sinceThird, quietThird, evaluated⟩
    have alike := third.world.alike_drop operands
    have calmThird := third.calm_alike alike
    have sinceAll : start.Since task floor (third.alike alike) :=
      sinceSecond.trans (sinceThird.trans calmThird.since)
    have quietAll := calmThird.quiet quietThird
    have dropped : Run.modify (·.drop operands) third.world = .done () (third.alike alike).world := rfl
    rw [bind_done dropped]
    refine Outcome.Safe.sooner ?_ calmThird.advances
    cases result with
    | error error => exact ⟨third.alike alike, rfl, .refl _ _, sinceAll, quietAll, evaluated⟩
    | ok invocation =>
      have ownerAll : third.shape.owner new = some task :=
        sinceThird.grows.owner _ _ (calm.grows.owner _ _ owner)
      have ownAll := sinceThird.owns new ownSecond
      have noTaskAll : ¬third.shape.isTask new := by
        rcases ownAll with rfl | ⟨-, noTask⟩
        · exact absurd quiet.isTask noTask
        · exact noTask
      have closed (ref : EnvRef) (known : EnvShape) (found : third.shape.env ref = some known)
          (same : known.thread = new) : ¬(third.alike alike).world.IsOpen ref := by
        intro isOpen
        have early := (sinceAll.blocks ref known found (same ▸ ownAll)).mp isOpen
        obtain ⟨there, isThere⟩ := start.known_of_isOpen early
        obtain rfl : there = known :=
          Option.some.inj ((sinceAll.grows.env _ _ isThere).symm.trans found)
        have present := (start.sound.envs ref there isThere).1
        simp [same, fresh] at present
      obtain ⟨last, world, shape, advancesLast, quietLast⟩ :=
        (third.alike alike).handOver quietAll ownerAll noTaskAll evaluated closed
      refine ⟨last, world, advancesLast, ⟨⟨?_, ?_, ?_, ?_⟩, ?_⟩, quietLast, trivial⟩
      · exact sinceAll.grows.trans advancesLast.grows
      · exact Nat.le_trans sinceAll.envs advancesLast.envs
      · intro ref own
        have still := sinceAll.owns ref own
        have differs : ref ≠ new := by
          rintro rfl
          rcases own with same | ⟨owned, -⟩
          · exact noTask (same ▸ quiet.isTask)
          · simp [fresh] at owned
        rw [shape]
        exact still.imp_right fun held => ⟨held.1, fun isTask => isTask.elim differs held.2⟩
      · intro ref known found own less
        have kept := sinceAll.kept ref known found own less
        rw [Config.Kept, world]
        exact kept
      · intro ref known found own
        rw [shape] at found own
        have still : (third.alike alike).shape.Owns task known.thread :=
          own.imp_right fun held => ⟨held.1, fun isTask => held.2 (.inr isTask)⟩
        rw [world]
        exact sinceAll.blocks ref known found still
  · rintro third error ⟨sinceThird, quietThird, evaluated⟩
    exact ⟨sinceSecond.trans sinceThird, quietThird, evaluated⟩

end Spawning

end MiniGo
