import MiniGo.Proofs.Agreement
/-!
Instructions, bodies and calls in lockstep. Two runs that are at the same position of the environment
they run in go to the same position; so two calls agree, whatever positions are found elsewhere, and
also if they have not the same fuel, as long as the one with less may be broken off.
-/

namespace MiniGo

theorem Step.advance_apply (env : EnvRef) (world : World) :
    Step.advance env world = Step.goto env (world.ip env + 1) world := rfl

namespace Lockstep

variable {pair : Lockstep} {α β : Type}

open Comparison.Alike

/-- Two computations that agree from states in which both runs are at the same position of an
environment. -/
def At (pair : Lockstep) (env : EnvRef) (run other : Run α) : Prop :=
  ∀ state left right, pair.holds state left right → pair.poised state env →
    (run left).Agree pair.toComparison (fun _ result found => result = found) state (other right)

theorem At.of_alike {run other : Run α} (alike : pair.Alike run other) (env : EnvRef) :
    pair.At env run other := fun state left right holds _ => alike state left right holds

theorem At.bind {run other : Run α} {next otherNext : α → Run β} {env : EnvRef}
    (alike : pair.At env run other) (goes : ∀ value, pair.At env (next value) (otherNext value)) :
    pair.At env (run >>= next) (other >>= otherNext) := by
  intro state left right holds poised
  show (Run.bind run next left).Agree _ _ state (Run.bind other otherNext right)
  rw [Run.bind_apply, Run.bind_apply]
  refine ((alike state left right holds poised).keeps pair.poised_goes pair.poised_waits
    poised).bind ?_ ?_
  · rintro now value _ left right holds ⟨⟨⟩, poised⟩
    exact goes value now left right holds poised
  · rintro now error _ ⟨⟨⟩, -⟩
    rfl

theorem At.after {run other : Run α} {next otherNext : α → Run β} {env : EnvRef}
    (alike : pair.Alike run other) (goes : ∀ value, pair.At env (next value) (otherNext value)) :
    pair.At env (run >>= next) (other >>= otherNext) := (At.of_alike alike env).bind goes

theorem At.attempt {run other : Run α} {env : EnvRef} (alike : pair.At env run other) :
    pair.At env (Run.attempt run) (Run.attempt other) := by
  intro state left right holds poised
  rw [Run.attempt_apply, Run.attempt_apply]
  exact ((alike state left right holds poised).mono
    fun _ _ _ same => congrArg Except.ok same).attempt

theorem At.instr (env : EnvRef) : pair.At env (Run.read (·.instr? env)) (Run.read (·.instr? env)) :=
  fun state _ _ holds poised =>
    .done (pair.refl state) holds (congrArg Except.ok (pair.ip holds poised).2)

/-- The same place has been reached, and both runs are at the same position there. -/
def Led (pair : Lockstep) (env : EnvRef) (now : pair.State) (result found : Except RuntimeError Next) :
    Prop :=
  result = found ∧ pair.poised now env ∧ ∀ next, result = .ok next → pair.poised now next.2

def Leads (pair : Lockstep) (env : EnvRef) (run other : Run Next) : Prop :=
  ∀ state left right, pair.holds state left right → pair.poised state env →
    (run left).Agree pair.toComparison (pair.Led env) state (other right)

theorem Leads.after {run other : Run α} {next otherNext : α → Run Next} {env : EnvRef}
    (alike : pair.Alike run other) (leads : ∀ value, pair.Leads env (next value) (otherNext value)) :
    pair.Leads env (run >>= next) (other >>= otherNext) := by
  intro state left right holds poised
  show (Run.bind run next left).Agree _ _ state (Run.bind other otherNext right)
  rw [Run.bind_apply, Run.bind_apply]
  refine ((alike state left right holds).keeps pair.poised_goes pair.poised_waits poised).bind ?_ ?_
  · rintro now value _ left right holds ⟨⟨⟩, poised⟩
    exact leads value now left right holds poised
  · rintro now error _ ⟨⟨⟩, poised⟩
    exact ⟨rfl, poised, by simp⟩

section Moves

variable {state : pair.State} {left right : World} {env target : EnvRef}

theorem goto_led (position : Nat) (holds : pair.holds state left right)
    (poised : pair.poised state env) :
    (Step.goto target position left).Agree pair.toComparison (pair.Led env) state
      (Step.goto target position right) := by
  obtain ⟨now, goes, holds, there⟩ := pair.setIp target position holds
  refine .done goes holds ⟨?_, pair.poised_goes goes poised, ?_⟩
  · rw [(pair.ip holds there).2]
  · rintro next ⟨⟩
    exact there

theorem advance_led (holds : pair.holds state left right) (poised : pair.poised state env)
    (there : pair.poised state target) :
    (Step.advance target left).Agree pair.toComparison (pair.Led env) state
      (Step.advance target right) := by
  rw [Step.advance_apply, Step.advance_apply, (pair.ip holds there).1]
  exact goto_led _ holds poised

end Moves

theorem goto (env : EnvRef) (position : Nat) :
    pair.Leads env (Step.goto env position) (Step.goto env position) :=
  fun _ _ _ holds poised => goto_led position holds poised

theorem advance (env : EnvRef) : pair.Leads env (Step.advance env) (Step.advance env) :=
  fun _ _ _ holds poised => advance_led holds poised poised

theorem raised (env : EnvRef) (change : Thread → Thread)
    (unpooled : ∀ thread : Thread, change thread.bare = (change thread).bare) :
    pair.Alike (Run.modify fun world => world.updateThread (world.threadOf env) change)
      (Run.modify fun world => world.updateThread (world.threadOf env) change) := by
  refine .modify fun state left right holds => ?_
  have same : left.threadOf env = right.threadOf env := pair.threadOf env state left right holds
  show pair.holds state (left.updateThread (left.threadOf env) change) _
  rw [same]
  exact pair.updateThread _ change unpooled state left right holds

theorem stay (env : EnvRef) (next : Option Instr) :
    pair.Leads env (pure (next, env)) (pure (next, env)) := by
  intro state left right holds poised
  refine .done (pair.refl state) holds ⟨rfl, poised, ?_⟩
  rintro _ ⟨⟩
  exact poised

theorem interrupt (env : EnvRef) (signal : Signal) :
    pair.Leads env (Step.interrupt env signal) (Step.interrupt env signal) :=
  .after (raised env ({ · with signal }) fun _ => rfl) fun _ => stay env none

theorem raise (env : EnvRef) (error : RuntimeError) :
    pair.Leads env (Step.raise env error) (Step.raise env error) :=
  .after (raised env ({ · with panic := some error }) fun _ => rfl) fun _ => interrupt env .panic

theorem storeSlots (env : EnvRef) (slots : List Slot) (values : List Value) :
    pair.Alike (Step.storeSlots env slots values) (Step.storeSlots env slots values) := by
  induction slots generalizing values with
  | nil => exact .pure _
  | cons slot slots ih =>
    cases values with
    | nil => exact .pure _
    | cons value values => exact (storing _ _ _).bind fun _ => ih values

theorem storeInit (env : EnvRef) (slots : List (Option Slot)) (values : List Value) :
    pair.Alike (Step.storeInit env slots values) (Step.storeInit env slots values) := by
  induction slots generalizing values with
  | nil => exact .pure _
  | cons slot slots ih =>
    cases values with
    | nil => cases slot <;> exact .pure _
    | cons value values =>
      cases slot with
      | none => exact ih values
      | some slot => exact (storing _ _ _).bind fun _ => ih values

theorem adopt (env : EnvRef) (pairs : List (Slot × Slot)) :
    pair.Alike (Step.adopt env pairs) (Step.adopt env pairs) := by
  induction pairs with
  | nil => exact .pure _
  | cons entry rest ih => exact (loading _ _ _).bind fun _ => (storing _ _ _).bind fun _ => ih

theorem park (env : EnvRef) (parked : Option (Slot × Slot)) (received : Option (Value × Bool)) :
    pair.Alike (Step.park env parked received) (Step.park env parked received) := by
  unfold Step.park
  split
  · exact (storing _ _ _).bind fun _ => storing _ _ _
  · exact .pure _

section Instructions

variable {call other : Caller}

theorem findCase_alike (calls : pair.Calls call other) (env : EnvRef) (tag : Value) (fallback : Nat)
    (cases : List (Code × Nat)) :
    pair.Alike (Step.findCase call env tag fallback cases)
      (Step.findCase other env tag fallback cases) := by
  induction cases with
  | nil => exact .pure _
  | cons entry rest ih =>
    refine (eval_alike calls env entry.1).bind fun value => ?_
    split
    · exact .pure _
    · exact ih

theorem acquire_alike (thread : ThreadRef) (outer : Option EnvRef) (program : Program)
    (ip objects words : Nat) :
    pair.Alike (Run.update (·.acquire thread outer program ip objects words))
      (Run.update (·.acquire thread outer program ip objects words)) := by
  intro state left right holds
  obtain ⟨same, now, goes, holds, -⟩ := pair.acquire thread outer program ip objects words holds
  exact .done goes holds (congrArg Except.ok same)

theorem spawn_alike (calls : pair.Calls call other) (env : EnvRef) (node : Call) :
    pair.Alike (Step.spawn call env node) (Step.spawn other env node) := by
  have makes : pair.Alike (Run.update fun world => world.spawnThread (world.threadOf env))
      (Run.update fun world => world.spawnThread (world.threadOf env)) := by
    intro state left right holds
    have same : left.threadOf env = right.threadOf env := pair.threadOf env state left right holds
    simp only [Run.update, same]
    exact .done (pair.refl state) ((pair.spawnThread _).2 state left right holds)
      (congrArg Except.ok ((pair.spawnThread _).1 state left right holds))
  exact makes.bind fun thread => (acquire_alike thread _ _ _ _ _).bind fun operands =>
    (evalCall_alike calls operands node).attempt.bind fun evaluated => (dropping _).bind fun _ =>
      (ofExcept _).bind fun invocation => .modify (pair.spawn _)

theorem fail_leads (env : EnvRef) (error : RuntimeError) :
    pair.Leads env (Run.fail error) (Run.fail error) :=
  fun state _ _ holds poised => .fail (pair.refl state) holds ⟨rfl, poised, by simp⟩

theorem push_leads (env : EnvRef) (objects words : Nat) :
    pair.Leads env (do
      let inner ← Run.update (·.push env objects words)
      Run.modify (·.drop env)
      Step.advance inner) (do
      let inner ← Run.update (·.push env objects words)
      Run.modify (·.drop env)
      Step.advance inner) := by
  intro state left right holds poised
  obtain ⟨same, now, goes, holds, there⟩ := pair.push objects words holds poised
  show (Step.advance (left.push env objects words).1 ((left.push env objects words).2.drop env)).Agree
    _ _ state (Step.advance (right.push env objects words).1
      ((right.push env objects words).2.drop env))
  rw [← same]
  exact (advance_led (pair.drop env now _ _ holds) (pair.poised_goes goes poised) there).sooner goes

theorem pop_leads (env : EnvRef) :
    pair.Leads env (Run.update (·.pop env) >>= Step.advance)
      (Run.update (·.pop env) >>= Step.advance) := by
  intro state left right holds poised
  obtain ⟨same, now, goes, holds, there⟩ := pair.pop holds poised
  show (Step.advance (left.pop env).1 (left.pop env).2).Agree _ _ state
    (Step.advance (right.pop env).1 (right.pop env).2)
  rw [← same]
  exact (advance_led holds (pair.poised_goes goes poised) there).sooner goes

theorem leave_leads (env : EnvRef) (hops position : Nat) :
    pair.Leads env (Run.update (·.leave env hops) >>= (Step.goto · position))
      (Run.update (·.leave env hops) >>= (Step.goto · position)) := by
  intro state left right holds poised
  have same : (left.leave env hops).1 = (right.leave env hops).1 :=
    (pair.leave env hops).1 state left right holds
  show (Step.goto (left.leave env hops).1 position (left.leave env hops).2).Agree _ _ state
    (Step.goto (right.leave env hops).1 position (right.leave env hops).2)
  rw [← same]
  exact goto_led position ((pair.leave env hops).2 state left right holds) poised

theorem defer_leads (env : EnvRef) (invocation : Invocation) :
    pair.Leads env (do
      Run.modify fun world =>
        let thread := world.threadOf env
        (world.setIp env (world.ip env + 1)).installDefer thread invocation
      Step.interrupt env .defer) (do
      Run.modify fun world =>
        let thread := world.threadOf env
        (world.setIp env (world.ip env + 1)).installDefer thread invocation
      Step.interrupt env .defer) := by
  intro state left right holds poised
  have thread : left.threadOf env = right.threadOf env := pair.threadOf env state left right holds
  obtain ⟨now, goes, moved, poised⟩ := pair.setIp env (left.ip env + 1) holds
  have installed := pair.updateThread (left.threadOf env)
    ({ · with deferred := some invocation }) (fun _ => rfl) now _ _ moved
  refine Outcome.Agree.sooner ?_ goes
  show (Step.interrupt env .defer ((left.setIp env (left.ip env + 1)).installDefer
    (left.threadOf env) invocation)).Agree _ _ now
    (Step.interrupt env .defer ((right.setIp env (right.ip env + 1)).installDefer
      (right.threadOf env) invocation))
  rw [← (pair.ip holds ‹_›).1, ← thread]
  exact interrupt env .defer now _ _ installed poised

theorem run_leads (calls : pair.Calls call other) {fuel otherFuel : Nat}
    (fuels : pair.Fuels fuel otherFuel) (env : EnvRef) (instr : Instr) :
    pair.Leads env (Step.run call fuel env instr) (Step.run other otherFuel env instr) := by
  cases instr with
  | skip => exact advance env
  | stop => exact stay env none
  | interrupt signal => exact interrupt env signal
  | raise error => exact fail_leads env error
  | eval values => exact .after (evalValues_alike calls env values) fun _ => advance env
  | goto position => exact goto env position
  | jumpUnless cond position =>
    refine .after (eval_alike calls env cond) fun _ => .after (ofExcept _) fun holds => ?_
    split
    · exact advance env
    · exact goto env position
  | push objects words => exact push_leads env objects words
  | pop => exact pop_leads env
  | leave hops dest => exact leave_leads env hops dest.position
  | ret hops results values =>
    exact .after (evalValues_alike calls env values) fun _ => .after (read (pair.up env hops))
      fun _ => .after (storeSlots _ _ _) fun _ => interrupt env .ret
  | defer node =>
    exact .after (evalCall_alike calls env node) fun invocation => defer_leads env invocation
  | go node => exact .after (spawn_alike calls env node) fun _ => advance env
  | send channel value =>
    exact .after (eval_alike calls env channel) fun _ => .after (eval_alike calls env value)
      fun _ => .after (sendTo _ _) fun _ => advance env
  | assign places values =>
    exact .after (ofPlaces_alike calls env places) fun _ => .after (evalValues_alike calls env values)
      fun _ => .after (storeAll _ _) fun _ => advance env
  | update op place operand =>
    exact .after (ofPlace_alike calls env place) fun location => .after (loadLocation location)
      fun _ => .after (eval_alike calls env operand) fun _ => .after (ofExcept _)
        fun _ => .after (storeLocation location _) fun _ => advance env
  | init slots values =>
    exact .after (evalValues_alike calls env values) fun _ => .after (storeInit env slots _)
      fun _ => advance env
  | bind slot template =>
    exact .after (closure template env) fun _ => .after (storing _ _ _) fun _ => advance env
  | callInit template =>
    exact .after (closure template env) fun _ => .after (read (pair.threadOf env))
      fun _ => .after (calls _ _) fun _ => advance env
  | switch tag cases fallback =>
    exact .after (eval_alike calls env tag) fun _ =>
      .after (findCase_alike calls env _ fallback cases) fun position => goto env position
  | typeSwitch subject cases fallback parked =>
    refine .after (eval_alike calls env subject) fun value => ?_
    cases parked with
    | none => exact goto env _
    | some slot => exact .after (storing _ _ _) fun _ => goto env _
  | select comms fallback parked =>
    refine .after (evalComms_alike calls env _) fun cases => .after (select fuels cases _)
      fun selected => ?_
    cases selected with
    | case index received => exact .after (park env parked received) fun _ => goto env _
    | default => exact goto env _
  | adopt pairs => exact .after (adopt env pairs) fun _ => advance env
  | unpark parked value flag =>
    exact .after (ofPlace_alike calls env value) fun target =>
      .after (ofPlaces_alike calls env _) fun _ => .after (loading _ _ _) fun _ =>
        .after (storeLocation target _) fun _ => .after (loading _ _ _) fun _ =>
          .after (storeAll _ _) fun _ => advance env
  | rangeStart kind key slots subject =>
    exact .after (eval_alike calls env subject) fun _ => .after (rangeStart slots kind key env _)
      fun _ => advance env
  | rangeNext kind slots key value exit =>
    refine .after (rangeNext slots kind env) fun found => ?_
    cases found with
    | none => exact goto env exit
    | some found =>
      exact .after (storeTarget_alike calls env key _) fun _ =>
        .after (storeTarget_alike calls env value _) fun _ => advance env
  | rangeStep slots => exact .after (rangeAdvance slots env) fun _ => advance env

theorem step_leads (calls : pair.Calls call other) {fuel otherFuel : Nat}
    (fuels : pair.Fuels fuel otherFuel) (env : EnvRef) (instr : Instr) :
    pair.Leads env (step call fuel env instr) (step other otherFuel env instr) := by
  intro state left right holds poised
  have attempted : (Run.attempt (Step.run call fuel env instr) left).Agree pair.toComparison
      (fun now result found => ∃ ending, result = .ok ending ∧ found = .ok ending ∧
        pair.Led env now ending ending) state
      (Run.attempt (Step.run other otherFuel env instr) right) := by
    rw [Run.attempt_apply, Run.attempt_apply]
    refine Outcome.Agree.attempt
      ((run_leads calls fuels env instr state left right holds poised).mono ?_)
    rintro now result _ ⟨rfl, led⟩
    exact ⟨result, rfl, rfl, rfl, led⟩
  show (Run.bind (Run.attempt _) _ left).Agree _ _ state (Run.bind (Run.attempt _) _ right)
  rw [Run.bind_apply, Run.bind_apply]
  refine attempted.bind ?_ (by simp)
  rintro now result _ left right holds ⟨_, ⟨⟩, ⟨⟩, -, poised, there⟩
  cases result with
  | ok next =>
    refine .done (pair.refl now) holds ⟨rfl, poised, ?_⟩
    rintro _ ⟨⟩
    exact there next rfl
  | error error => exact raise env error now left right holds poised

end Instructions

section Calls

variable {call other : Caller} {host : Host}

theorem packed (signature : Signature) (args : List Value) :
    pair.Alike (Machine.packed signature args) (Machine.packed signature args) := by
  unfold Machine.packed
  split
  · exact .pure _
  · dsimp only
    split
    · exact .fail _
    · exact (newSlice _ _).bind fun _ => .pure _

theorem storeZeros (env : EnvRef) (slots : List Slot) :
    pair.Alike (Machine.storeZeros env slots) (Machine.storeZeros env slots) := by
  induction slots with
  | nil => exact .pure _
  | cons slot rest ih => exact (storing _ _ _).bind fun _ => ih

theorem builtin (builtin : Builtin) (args : List Value) :
    pair.Alike (builtin.call args) (builtin.call args) := by
  have writes (text : Heap → String) :
      pair.Alike (Run.modify fun world => world.write (text world.heap))
        (Run.modify fun world => world.write (text world.heap)) := by
    refine .modify fun state left right holds => ?_
    have same : left.heap = right.heap := pair.heap state left right holds
    show pair.holds state (left.write (text left.heap)) _
    rw [same]
    exact pair.write _ state left right holds
  unfold Builtin.call
  split
  · exact (tryExchange _).bind fun _ => .pure _
  · exact .fail _
  · exact (tryHeap _).bind fun _ => .pure _
  · exact (read (pair.heap.comp fun heap => (args.head?.map heap.text).getD "")).bind fun _ => .fail _
  · exact (writes fun heap => String.join (args.map heap.text)).bind fun _ => .pure _
  · exact (writes fun heap => " ".intercalate (args.map heap.text) ++ "\n").bind fun _ => .pure _
  · exact .pure _

theorem acquired {thread : ThreadRef} {outer : Option EnvRef} {program : Program}
    {ip objects words : Nat} {next otherNext : EnvRef → Run α}
    (goes : ∀ env, pair.At env (next env) (otherNext env)) :
    pair.Alike (Run.update (·.acquire thread outer program ip objects words) >>= next)
      (Run.update (·.acquire thread outer program ip objects words) >>= otherNext) := by
  intro state left right holds
  obtain ⟨same, now, moves, holds, poised⟩ :=
    pair.acquire thread outer program ip objects words holds
  show (next (left.acquire thread outer program ip objects words).1
    (left.acquire thread outer program ip objects words).2).Agree _ _ state
    (otherNext (right.acquire thread outer program ip objects words).1
      (right.acquire thread outer program ip objects words).2)
  rw [← same]
  exact (goes _ now _ _ holds poised).sooner moves

theorem invoke_alike {exec otherExec : EnvRef → Run Unit}
    (bodies : ∀ env, pair.At env (exec env) (otherExec env)) (template : Template) (outer : EnvRef)
    (thread : ThreadRef) (args : List Value) :
    pair.Alike (Machine.invoke exec template outer thread args)
      (Machine.invoke otherExec template outer thread args) := by
  have results (env : EnvRef) : pair.Reads fun world => template.results.map (world.load env) := by
    intro state left right holds
    exact List.map_congr_left fun slot _ => pair.load env slot state left right holds
  refine acquired fun env => .after (storeInit env _ args) fun _ => .after (storeZeros env _) fun _ =>
    (bodies env).attempt.bind fun ended => ?_
  cases ended with
  | error error => exact .after (dropping _) fun _ => .of_alike (.fail _) env
  | ok _ =>
    exact .after (read (results env)) fun _ => .after (modify (pair.recycle thread env)) fun _ =>
      .of_alike (.pure _) env

theorem apply_alike (natives : ∀ native ∈ host, ∀ thread args,
      pair.Alike (native call thread args) (native other thread args))
    {exec otherExec : EnvRef → Run Unit} (bodies : ∀ env, pair.At env (exec env) (otherExec env))
    (function : Func) (thread : ThreadRef) (args : List Value) :
    pair.Alike (Machine.apply host call exec function thread args)
      (Machine.apply host other otherExec function thread args) := by
  unfold Machine.apply
  dsimp only
  split
  · exact .fail _
  · cases function.body with
    | closure template env => exact invoke_alike bodies template env thread args
    | native index =>
      dsimp only
      split
      · next native found => exact natives native (List.mem_of_getElem? found) thread args
      · exact .fail _
    | builtin function => exact builtin function args

theorem runDeferred_alike (calls : pair.Calls call other) (thread : ThreadRef)
    (failure : Option RuntimeError) (deferred : List Invocation) :
    pair.Alike (Machine.runDeferred call thread failure deferred)
      (Machine.runDeferred other thread failure deferred) := by
  induction deferred generalizing failure with
  | nil => exact .pure _
  | cons invocation rest ih =>
    refine (calls thread invocation).attempt.bind fun result => ?_
    cases result with
    | ok results => exact ih failure
    | error error => exact ih (some error)

theorem finish_alike (calls : pair.Calls call other) (thread : ThreadRef) (root : EnvRef)
    (stopped : Stopped) :
    pair.Alike (Machine.finish call thread root stopped) (Machine.finish other thread root stopped) := by
  have unwinds : pair.Alike (Run.update (·.unwind root stopped.env))
      (Run.update (·.unwind root stopped.env)) := .update (pair.unwind _ _).1 (pair.unwind _ _).2
  refine unwinds.bind fun env => (dropping _).bind fun _ =>
    (runDeferred_alike calls thread _ _).bind fun failure => ?_
  cases failure with
  | none => exact .pure _
  | some error => exact .fail _

theorem execWith_at (calls : pair.Calls call other)
    {loop otherLoop : EnvRef → Option Instr → List Invocation → Run Stopped}
    (loops : ∀ env next deferred, pair.At env (loop env next deferred) (otherLoop env next deferred))
    (root : EnvRef) :
    pair.At root (Machine.execWith call loop root) (Machine.execWith other otherLoop root) :=
  .after (read (pair.threadOf root)) fun thread => .after (modify (pair.retain root)) fun _ =>
    (At.instr root).bind fun first => (loops root first []).bind fun stopped =>
      .of_alike (finish_alike calls thread root stopped) root

theorem settle_at {resume otherResume : Option Instr → Invocation → Run Stopped} {env : EnvRef}
    (resumes : ∀ next invocation,
      pair.At env (resume next invocation) (otherResume next invocation))
    (deferred : List Invocation) :
    pair.At env (Machine.settle resume env deferred) (Machine.settle otherResume env deferred) := by
  have takes {γ : Type} (thread : ThreadRef) (view : Thread → γ) (change : Thread → Thread)
      (unseen : ∀ thread : Thread, view thread.bare = view thread)
      (same : ∀ thread : Thread, change thread.bare = (change thread).bare) :
      pair.Alike
        (Run.update fun world => (view (world.thread thread), world.updateThread thread change))
        (Run.update fun world => (view (world.thread thread), world.updateThread thread change)) :=
    .update (pair.thread thread view unseen) (pair.updateThread thread change same)
  refine .after (read (pair.threadOf env)) fun thread =>
    .after (takes thread (·.signal) _ (fun _ => rfl) fun _ => rfl) fun signal => ?_
  cases signal with
  | none | ret => exact .of_alike (.pure _) env
  | defer =>
    refine .after (takes thread (·.deferred) _ (fun _ => rfl) fun _ => rfl) fun call => ?_
    cases call with
    | none => exact .of_alike (.pure _) env
    | some invocation => exact (At.instr env).bind fun next => resumes next invocation
  | panic =>
    exact .after (takes thread (·.panic) _ (fun _ => rfl) fun _ => rfl) fun pending =>
      .of_alike (.pure _) env

theorem loop_at {fuel otherFuel : Nat} {env : EnvRef} {instr : Instr} {deferred : List Invocation}
    (fuels : pair.Fuels fuel otherFuel)
    (calls : pair.Calls (Machine.watchedCall .never host fuel)
      (Machine.watchedCall .never host otherFuel))
    (loops : ∀ env next, pair.At env (Machine.loop .never host fuel env next deferred)
      (Machine.loop .never host otherFuel env next deferred)) :
    pair.At env (Machine.loop .never host (fuel + 1) env (some instr) deferred)
      (Machine.loop .never host (otherFuel + 1) env (some instr) deferred) := by
  intro state left right holds poised
  rw [Machine.loop, Machine.loop]
  show (Run.bind (step _ fuel env instr) _ left).Agree _ _ state
    (Run.bind (step _ otherFuel env instr) _ right)
  rw [Run.bind_apply, Run.bind_apply]
  refine (step_leads calls fuels env instr state left right holds poised).bind ?_ ?_
  · rintro now next _ left right holds ⟨⟨⟩, -, there⟩
    exact loops next.2 next.1 now left right holds (there next rfl)
  · rintro now error _ ⟨⟨⟩, -⟩
    rfl

/-- Calls agree, and so do the bodies they run. The functions of the host have to agree if the calls they
make do. -/
theorem call_alike (natives : ∀ native ∈ host, ∀ fuel otherFuel, pair.Fuels fuel otherFuel →
      pair.Calls (Machine.call host fuel) (Machine.call host otherFuel) → ∀ thread args,
      pair.Alike (native (Machine.call host fuel) thread args)
        (native (Machine.call host otherFuel) thread args))
    {fuel otherFuel : Nat} (fuels : pair.Fuels fuel otherFuel) :
    pair.Calls (Machine.call host fuel) (Machine.call host otherFuel) ∧
      ∀ env next deferred, pair.At env (Machine.loop .never host fuel env next deferred)
        (Machine.loop .never host otherFuel env next deferred) := by
  induction fuel generalizing otherFuel with
  | zero =>
    refine ⟨fun thread invocation => exhausted fuels ?_, fun env next deferred =>
      .of_alike (exhausted fuels ?_) env⟩
    · rintro rfl
      unfold Machine.call
      rw [Machine.watchedCall]
    · rintro rfl
      rw [Machine.loop]
  | succ fuel ih =>
    cases otherFuel with
    | zero =>
      exact ⟨fun thread invocation => exhausted_right fuels nofun, fun env next deferred =>
        .of_alike (exhausted_right fuels nofun) env⟩
    | succ otherFuel =>
      obtain ⟨calls, loops⟩ := ih fuels.pred
      have hosts (native : HostFunction) (member : native ∈ host) :=
        natives native member fuel otherFuel fuels.pred calls
      refine ⟨fun thread invocation => ?_, fun env next deferred => ?_⟩
      · obtain ⟨callee, args, spread⟩ := invocation
        unfold Machine.call
        cases callee with
        | func function =>
          have applies := apply_alike hosts (execWith_at calls loops) function thread
          rw [Machine.watchedCall, Machine.watchedCall]
          cases spread with
          | true => exact (Comparison.Alike.pure args).bind applies
          | false => exact (packed function.signature args).bind applies
        | _ => exact .fail _
      · cases next with
        | some instr => exact loop_at fuels.pred calls fun env next => loops env next deferred
        | none =>
          rw [Machine.loop, Machine.loop]
          exact .after (.pure ()) fun _ =>
            settle_at (fun next invocation => loops env next (invocation :: deferred)) deferred

end Calls

end Lockstep

end MiniGo
