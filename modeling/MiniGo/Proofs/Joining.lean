import Mathlib.Data.List.Nodup
import Mathlib.Data.List.Perm.Basic
import Mathlib.Logic.Function.Basic
/-!
Waiting for all tasks, in atomic steps.

Whoever starts a task counts it, starts it, and only then puts its handle into a shared list. The
caller that waits takes the whole list, joins the handles it took one by one, and looks again, until
it finds the list empty. The parties interleave between these steps in any way, and what a task does
next, be it to start another one or to end, is left open, so the runs of `Runner` are those of every
program of tasks.

A handle that the caller does not find yet is in the hands of a task that has not ended, and that
task is older than the one it has started. Therefore nobody is left when the list is found empty.
-/

namespace MiniGo

namespace Runner

inductive Ending
  | ok
  | error
  | abort
deriving DecidableEq, Repr

/-- What a party is doing. Only tasks end, and only the caller joins. -/
inductive Phase
  /-- It has not been started. -/
  | absent
  | running
  /-- It has counted a task and is about to start it. -/
  | counted (task : Nat)
  /-- It has started a task and is about to put the handle into the list. -/
  | started (task : Nat)
  /-- Its code has returned an error, which is about to be counted. -/
  | failing
  /-- Its code has returned and nothing is left to do. -/
  | leaving (ending : Ending)
  | ended (ending : Ending)
  /-- It waits for the tasks whose handles it has taken. -/
  | joining (batch : List Nat)
  /-- It has joined a task that was aborted, which is about to be counted. -/
  | noting (batch : List Nat)
  | returned
deriving DecidableEq, Repr

namespace Phase

/-- The task that a party has counted and whose handle it still has to put into the list. -/
def bears? : Phase → Option Nat
  | counted task | started task => some task
  | _ => none

def isStarting : Phase → Bool
  | running | counted _ | started _ => true
  | _ => false

def batch : Phase → List Nat
  | joining batch | noting batch => batch
  | _ => []

def hasErred : Phase → Bool
  | leaving .error | ended .error => true
  | _ => false

def isAborted (phase : Phase) : Bool := phase = ended .abort

def hasFailed (phase : Phase) : Bool := phase = ended .error || phase = ended .abort

def uncounted : Phase → Nat
  | noting _ => 1
  | _ => 0

end Phase

/-- The runner and its parties: the caller, who is `none`, and the tasks by number. -/
structure State where
  phase : Option Nat → Phase
  spawned : Nat := 0
  failed : Nat := 0
  /-- Handles of tasks, the first one pushed first. -/
  handles : List Nat := []
  /-- Handles joined so far, the last one first. -/
  joined : List Nat := []

namespace State

def initial : State where
  phase
    | none => .running
    | some _ => .absent

def move (state : State) (party : Option Nat) (phase : Phase) : State :=
  { state with phase := Function.update state.phase party phase }

def fault (state : State) : State := { state with failed := state.failed + 1 }

def listed (state : State) : List Nat :=
  state.joined ++ (state.phase none).batch ++ state.handles

def tally (state : State) (property : Phase → Bool) : Nat :=
  (List.range state.spawned).countP fun task => property (state.phase (some task))

@[simp] theorem move_spawned (state : State) (party : Option Nat) (phase : Phase) :
    (state.move party phase).spawned = state.spawned := rfl

@[simp] theorem move_failed (state : State) (party : Option Nat) (phase : Phase) :
    (state.move party phase).failed = state.failed := rfl

@[simp] theorem move_handles (state : State) (party : Option Nat) (phase : Phase) :
    (state.move party phase).handles = state.handles := rfl

@[simp] theorem move_joined (state : State) (party : Option Nat) (phase : Phase) :
    (state.move party phase).joined = state.joined := rfl

@[simp] theorem move_self (state : State) (party : Option Nat) (phase : Phase) :
    (state.move party phase).phase party = phase := Function.update_self ..

theorem move_other (state : State) {party other : Option Nat} (phase : Phase) (ne : other ≠ party) :
    (state.move party phase).phase other = state.phase other := Function.update_of_ne ne ..

theorem move_agrees {α : Type} (state : State) (view : Phase → α) {party : Option Nat} {phase : Phase}
    (same : view phase = view (state.phase party)) (other : Option Nat) :
    view ((state.move party phase).phase other) = view (state.phase other) := by
  by_cases eq : other = party
  · rw [eq, move_self, same]
  · rw [move_other state phase eq]

end State

inductive Step : State → State → Prop
  /-- A party counts the task that it is about to start. -/
  | count {state : State} (party : Option Nat) (free : state.phase party = .running) :
    Step state { state.move party (.counted state.spawned) with spawned := state.spawned + 1 }
  /-- The task begins to run. -/
  | start {state : State} (party : Option Nat) (task : Nat) (ready : state.phase party = .counted task) :
    Step state ((state.move party (.started task)).move (some task) .running)
  | push {state : State} (party : Option Nat) (task : Nat)
    (ready : state.phase party = .started task) :
    Step state { state.move party .running with handles := state.handles ++ [task] }
  | succeed {state : State} (task : Nat) (free : state.phase (some task) = .running) :
    Step state (state.move (some task) (.leaving .ok))
  | err {state : State} (task : Nat) (free : state.phase (some task) = .running) :
    Step state (state.move (some task) .failing)
  /-- A task counts its own error. -/
  | report {state : State} (task : Nat) (failing : state.phase (some task) = .failing) :
    Step state (state.move (some task) (.leaving .error)).fault
  | finish {state : State} (task : Nat) (ending : Ending)
    (leaving : state.phase (some task) = .leaving ending) :
    Step state (state.move (some task) (.ended ending))
  | abort {state : State} (task : Nat) (free : state.phase (some task) = .running) :
    Step state (state.move (some task) (.ended .abort))
  /-- The caller begins to wait. -/
  | call {state : State} (free : state.phase none = .running) : Step state (state.move none (.joining []))
  /-- It takes all handles there are. -/
  | take {state : State} (empty : state.phase none = .joining []) (left : state.handles ≠ []) :
    Step state { state.move none (.joining state.handles) with handles := [] }
  | join {state : State} (task : Nat) (batch : List Nat) (ending : Ending)
    (next : state.phase none = .joining (task :: batch))
    (ended : state.phase (some task) = .ended ending) (normal : ending ≠ .abort) :
    Step state { state.move none (.joining batch) with joined := task :: state.joined }
  | joinAborted {state : State} (task : Nat) (batch : List Nat)
    (next : state.phase none = .joining (task :: batch))
    (ended : state.phase (some task) = .ended .abort) :
    Step state { state.move none (.noting batch) with joined := task :: state.joined }
  /-- The caller counts the task that was aborted. -/
  | note {state : State} (batch : List Nat) (noting : state.phase none = .noting batch) :
    Step state (state.move none (.joining batch)).fault
  /-- It has taken an empty list. -/
  | finished {state : State} (empty : state.phase none = .joining []) (left : state.handles = []) :
    Step state (state.move none .returned)
  /-- The caller has something else to do, and may wait again later. -/
  | resume {state : State} (returned : state.phase none = .returned) :
    Step state (state.move none .running)

inductive Reachable : State → Prop
  | initial : Reachable .initial
  | step {state next : State} (reached : Reachable state) (step : Step state next) : Reachable next

/-- Where the tasks and their handles are, and what has been counted. -/
structure Sound (state : State) : Prop where
  unborn : ∀ task, state.spawned ≤ task → state.phase (some task) = .absent
  /-- A task that is only counted has not begun. -/
  fresh : ∀ party task, state.phase party = .counted task → state.phase (some task) = .absent
  older : ∀ parent task, (state.phase (some parent)).bears? = some task → parent < task
  born : ∀ party task, (state.phase party).bears? = some task → task < state.spawned
  /-- No two parties start the same task. -/
  apart : ∀ party other task, (state.phase party).bears? = some task →
    (state.phase other).bears? = some task → party = other
  unlisted : ∀ party task, (state.phase party).bears? = some task → task ∉ state.listed
  nodup : state.listed.Nodup
  known : ∀ task ∈ state.listed, task < state.spawned
  /-- Whoever has been counted is listed, or some party is about to see to it. -/
  found : ∀ task < state.spawned, task ∈ state.listed ∨ ∃ party, (state.phase party).bears? = some task
  ended : ∀ task ∈ state.joined, ∃ ending, state.phase (some task) = .ended ending
  counted : state.failed + (state.phase none).uncounted =
    state.tally Phase.hasErred +
      state.joined.countP fun task => (state.phase (some task)).isAborted

theorem Sound.initial : Sound .initial where
  unborn _ _ := rfl
  fresh party task counted := by cases party <;> cases counted
  older _ _ bears := by cases bears
  born party task bears := by cases party <;> cases bears
  apart party _ task bears _ := by cases party <;> cases bears
  unlisted party task bears := by cases party <;> cases bears
  nodup := List.nodup_nil
  known _ member := by cases member
  found _ lt := absurd lt (Nat.not_lt_zero _)
  ended _ member := by cases member
  counted := rfl

namespace State

theorem tally_eq {state next : State} {property : Phase → Bool} (spawned : next.spawned = state.spawned)
    (same : ∀ task, property (next.phase (some task)) = property (state.phase (some task))) :
    next.tally property = state.tally property := by
  simp only [tally, spawned, same]

theorem tally_stays {state : State} {party : Option Nat} {phase : Phase} {property : Phase → Bool}
    (same : property phase = property (state.phase party)) :
    (state.move party phase).tally property = state.tally property :=
  tally_eq rfl fun _ => move_agrees state property same _

theorem tally_move {state : State} {task : Nat} {phase : Phase} {property : Phase → Bool}
    (lt : task < state.spawned) (before : property (state.phase (some task)) = false)
    (after : property phase = true) :
    (state.move (some task) phase).tally property = state.tally property + 1 := by
  have split (tasks : List Nat) (nodup : tasks.Nodup) :
      tasks.countP (fun other => property ((state.move (some task) phase).phase (some other))) =
        tasks.countP (fun other => property (state.phase (some other))) +
          if task ∈ tasks then 1 else 0 := by
    induction tasks with
    | nil => rfl
    | cons head tail ih =>
      obtain ⟨fresh, nodup⟩ := List.nodup_cons.mp nodup
      rw [List.countP_cons, List.countP_cons, ih nodup]
      by_cases same : head = task
      · subst same
        simp [before, after, fresh]
      · rw [move_other state phase fun eq => same (Option.some.inj eq)]
        simp only [List.mem_cons, show (task = head) = False from eq_false (Ne.symm same), false_or]
        omega
  have all := split (List.range state.spawned) List.nodup_range
  rw [if_pos (List.mem_range.mpr lt)] at all
  exact all

end State

namespace Sound

variable {state next : State} {task : Nat} {party : Option Nat} {phase : Phase}

theorem lt_spawned (sound : Sound state) (present : state.phase (some task) ≠ .absent) :
    task < state.spawned :=
  Nat.lt_of_not_le fun le => present (sound.unborn task le)

theorem keeps (sound : Sound state) (spawned : next.spawned = state.spawned)
    (bears : ∀ party, (next.phase party).bears? = (state.phase party).bears?)
    (listed : next.listed.Perm state.listed)
    (unborn : ∀ task, state.spawned ≤ task → next.phase (some task) = .absent)
    (fresh : ∀ party task, next.phase party = .counted task → next.phase (some task) = .absent)
    (ended : ∀ task ∈ next.joined, ∃ ending, next.phase (some task) = .ended ending)
    (counted : next.failed + (next.phase none).uncounted = next.tally Phase.hasErred +
      next.joined.countP fun task => (next.phase (some task)).isAborted) : Sound next where
  unborn task le := unborn task (spawned ▸ le)
  fresh := fresh
  older parent task bear := sound.older parent task (bears _ ▸ bear)
  born party task bear := spawned ▸ sound.born party task (bears _ ▸ bear)
  apart party other task first second :=
    sound.apart party other task (bears _ ▸ first) (bears _ ▸ second)
  unlisted party task bear member :=
    sound.unlisted party task (bears _ ▸ bear) (listed.mem_iff.mp member)
  nodup := listed.nodup_iff.mpr sound.nodup
  known task member := spawned ▸ sound.known task (listed.mem_iff.mp member)
  found task lt :=
    (sound.found task (spawned ▸ lt)).imp listed.mem_iff.mpr
      fun ⟨party, bear⟩ => ⟨party, (bears party).trans bear⟩
  ended := ended
  counted := counted

theorem moves (sound : Sound state) {failed : Nat} (present : state.phase (some task) ≠ .absent)
    (running : ∀ ending, state.phase (some task) ≠ .ended ending)
    (before : (state.phase (some task)).bears? = none) (after : phase.bears? = none)
    (counted : failed + state.tally Phase.hasErred =
      state.failed + (state.move (some task) phase).tally Phase.hasErred) :
    Sound { state.move (some task) phase with failed } := by
  have caller : (state.move (some task) phase).phase none = state.phase none :=
    State.move_other state phase nofun
  have apart {other : Nat} (ended : ∃ ending, state.phase (some other) = .ended ending) :
      (state.move (some task) phase).phase (some other) = state.phase (some other) := by
    refine State.move_other state phase fun eq => ?_
    obtain ⟨ending, ended⟩ := ended
    exact running ending (eq ▸ ended)
  refine sound.keeps rfl (fun party => ?_) ?_ (fun other le => ?_) (fun party other isCounted => ?_)
    (fun other member => ?_) ?_
  · exact State.move_agrees state Phase.bears? (after.trans before.symm) party
  · simp only [State.listed, caller, State.move_joined, State.move_handles, List.Perm.refl]
  · have ne : some other ≠ some task := fun eq => present (eq ▸ sound.unborn other le)
    exact (State.move_other state phase ne).trans (sound.unborn other le)
  · have ne : party ≠ some task := by
      rintro rfl
      rw [State.move_self state (some task) phase] at isCounted
      rw [isCounted] at after
      cases after
    rw [State.move_other state phase ne] at isCounted
    have absent := sound.fresh party other isCounted
    have ne : some other ≠ some task := fun eq => present (eq ▸ absent)
    exact (State.move_other state phase ne).trans absent
  · have ended := sound.ended other member
    exact ended.imp fun _ eq => (apart ended).trans eq
  · have aborted : (state.joined.countP fun other =>
        ((state.move (some task) phase).phase (some other)).isAborted) =
        state.joined.countP fun other => (state.phase (some other)).isAborted :=
      List.countP_congr fun other member => by rw [apart (sound.ended other member)]
    have old := sound.counted
    show failed + ((state.move (some task) phase).phase none).uncounted =
      (state.move (some task) phase).tally Phase.hasErred + state.joined.countP fun other =>
        ((state.move (some task) phase).phase (some other)).isAborted
    rw [aborted, caller]
    omega

/-- The caller goes on. The handles that have been in the list are joined, taken or in the list as
before. -/
theorem calls (sound : Sound state) {failed : Nat} {handles joined : List Nat}
    (before : (state.phase none).bears? = none) (after : phase.bears? = none)
    (same : (joined ++ phase.batch ++ handles).Perm state.listed)
    (ended : ∀ task ∈ joined, ∃ ending, state.phase (some task) = .ended ending)
    (counted : failed + phase.uncounted +
        state.joined.countP (fun task => (state.phase (some task)).isAborted) =
      state.failed + (state.phase none).uncounted +
        joined.countP fun task => (state.phase (some task)).isAborted) :
    Sound { state.move none phase with failed, handles, joined } := by
  have task (other : Nat) : (state.move none phase).phase (some other) = state.phase (some other) :=
    State.move_other state phase nofun
  refine sound.keeps rfl (fun party => ?_) ?_ (fun other le => (task other).trans (sound.unborn other le))
    (fun party other isCounted => (task other).trans (sound.fresh party other ?_))
    (fun other member => (ended other member).imp fun _ eq => (task other).trans eq) ?_
  · exact State.move_agrees state Phase.bears? (after.trans before.symm) party
  · simpa only [State.listed, State.move_self] using same
  · cases party with
    | none =>
      rw [State.move_self state none phase] at isCounted
      rw [isCounted] at after
      cases after
    | some parent => exact (task parent).symm.trans isCounted
  · have erred : (state.move none phase).tally Phase.hasErred = state.tally Phase.hasErred :=
      State.tally_eq rfl fun other => by rw [task other]
    have old := sound.counted
    show failed + ((state.move none phase).phase none).uncounted =
      (state.move none phase).tally Phase.hasErred + joined.countP fun other =>
        ((state.move none phase).phase (some other)).isAborted
    rw [erred, State.move_self]
    simp only [task]
    omega

theorem starts (sound : Sound state) (party : Option Nat) (phase : Phase)
    (before : (state.phase party).isStarting = true) (after : phase.isStarting = true) :
    (state.move party phase).listed = state.listed ∧
    (∀ task ∈ state.joined, ∃ ending, (state.move party phase).phase (some task) = .ended ending) ∧
    state.failed + ((state.move party phase).phase none).uncounted =
      (state.move party phase).tally Phase.hasErred + state.joined.countP fun task =>
        ((state.move party phase).phase (some task)).isAborted := by
  have agrees {α : Type} (view : Phase → α) (same : ∀ phase, phase.isStarting = true →
      view phase = view .running) (other : Option Nat) :
      view ((state.move party phase).phase other) = view (state.phase other) :=
    State.move_agrees state view ((same phase after).trans (same _ before).symm) other
  have batch := agrees Phase.batch (fun phase starting => by cases phase <;> first | rfl | cases starting)
  have uncounted := agrees Phase.uncounted
    (fun phase starting => by cases phase <;> first | rfl | cases starting)
  have erred := agrees Phase.hasErred
    (fun phase starting => by cases phase <;> first | rfl | cases starting)
  have aborted := agrees Phase.isAborted
    (fun phase starting => by cases phase <;> first | rfl | cases starting)
  refine ⟨by simp only [State.listed, batch, State.move_joined, State.move_handles],
    fun task member => ?_, ?_⟩
  · obtain ⟨ending, ended⟩ := sound.ended task member
    refine ⟨ending, (State.move_other state phase ?_).trans ended⟩
    rintro rfl
    rw [ended] at before
    cases before
  · rw [uncounted, State.tally_eq (state.move_spawned ..) fun task => erred (some task)]
    simp only [aborted]
    exact sound.counted

theorem counts (sound : Sound state) (free : state.phase party = .running) :
    Sound { state.move party (.counted state.spawned) with spawned := state.spawned + 1 } := by
  obtain ⟨listed, ended, counted⟩ := sound.starts party (.counted state.spawned)
    (by rw [free]; rfl) rfl
  have absent {task : Nat} (isAbsent : state.phase (some task) = .absent) :
      (state.move party (.counted state.spawned)).phase (some task) = .absent := by
    refine (State.move_other state _ ?_).trans isAbsent
    rintro rfl
    rw [isAbsent] at free
    cases free
  have bears {other : Option Nat} {task : Nat}
      (bear : ((state.move party (.counted state.spawned)).phase other).bears? = some task) :
      (other = party ∧ task = state.spawned) ∨
        other ≠ party ∧ (state.phase other).bears? = some task := by
    by_cases same : other = party
    · rw [same, State.move_self] at bear
      exact .inl ⟨same, (Option.some.inj bear).symm⟩
    · rw [State.move_other state _ same] at bear
      exact .inr ⟨same, bear⟩
  constructor
  · intro task le
    exact absent (sound.unborn task (Nat.le_of_succ_le le))
  · intro other task isCounted
    refine absent ?_
    rcases bears ((congrArg Phase.bears? isCounted).trans rfl) with ⟨-, rfl⟩ | ⟨ne, -⟩
    · exact sound.unborn _ (Nat.le_refl _)
    · exact sound.fresh other task ((State.move_other state _ ne).symm.trans isCounted)
  · intro parent task bear
    rcases bears bear with ⟨rfl, rfl⟩ | ⟨-, bear⟩
    · exact sound.lt_spawned (by rw [free]; nofun)
    · exact sound.older parent task bear
  · intro other task bear
    rcases bears bear with ⟨-, rfl⟩ | ⟨-, bear⟩
    · exact Nat.lt_succ_self _
    · exact Nat.lt_succ_of_lt (sound.born other task bear)
  · intro first second task bear bear'
    rcases bears bear with ⟨mine, rfl⟩ | ⟨-, old⟩ <;> rcases bears bear' with ⟨same, eq⟩ | ⟨-, old'⟩
    · exact mine.trans same.symm
    · exact absurd (sound.born second _ old') (Nat.lt_irrefl _)
    · exact absurd (eq ▸ sound.born first _ old) (Nat.lt_irrefl _)
    · exact sound.apart first second task old old'
  · intro other task bear
    show task ∉ (state.move party (.counted state.spawned)).listed
    rw [listed]
    rcases bears bear with ⟨-, rfl⟩ | ⟨-, bear⟩
    · exact fun member => Nat.lt_irrefl _ (sound.known _ member)
    · exact sound.unlisted other task bear
  · show (state.move party (.counted state.spawned)).listed.Nodup
    exact listed ▸ sound.nodup
  · intro task member
    exact Nat.lt_succ_of_lt (sound.known task (listed ▸ member))
  · intro task lt
    rcases Nat.lt_succ_iff_lt_or_eq.mp lt with lt | rfl
    · refine (sound.found task lt).imp (fun member => listed ▸ member) ?_
      rintro ⟨other, bear⟩
      refine ⟨other, (congrArg Phase.bears? (State.move_other state _ ?_)).trans bear⟩
      rintro rfl
      rw [free] at bear
      cases bear
    · exact .inr ⟨party, congrArg Phase.bears? (State.move_self state party _)⟩
  · exact ended
  · refine counted.trans (congrArg (· + _) ?_)
    have last := absent (sound.unborn state.spawned (Nat.le_refl _))
    simp only [State.tally, List.range_succ, List.countP_append, List.countP_singleton,
      State.move_spawned, last]
    rfl

theorem begins (sound : Sound state) (ready : state.phase party = .counted task) :
    Sound ((state.move party (.started task)).move (some task) .running) := by
  obtain ⟨listed, ended, counted⟩ := sound.starts party (.started task)
    (by rw [ready]; rfl) rfl
  have bears : (state.phase party).bears? = some task := by rw [ready]; rfl
  have absent {other : Nat} (isAbsent : state.phase (some other) = .absent) :
      (state.move party (.started task)).phase (some other) = .absent := by
    refine (State.move_other state _ ?_).trans isAbsent
    rintro rfl
    rw [isAbsent] at ready
    cases ready
  have unborn := absent (sound.fresh party task ready)
  have agrees {α : Type} (view : Phase → α) (same : view .running = view .absent) (other : Option Nat) :=
    State.move_agrees (state.move party (.started task)) view
      (same.trans (congrArg view unborn).symm) other
  refine sound.keeps rfl (fun other => ?_) ?_ (fun other le => ?_) (fun other child isCounted => ?_)
    (fun other member => ?_) ?_
  · exact (agrees Phase.bears? rfl other).trans
      (State.move_agrees state Phase.bears? (bears.symm ▸ rfl) other)
  · rw [← listed]
    simp only [State.listed, agrees Phase.batch rfl, State.move_joined, State.move_handles,
      List.Perm.refl]
  · have ne : some other ≠ some task :=
      fun eq => Nat.not_lt.mpr le (Option.some.inj eq ▸ sound.born party task bears)
    exact (State.move_other _ _ ne).trans (absent (sound.unborn other le))
  · have second : other ≠ some task := by
      rintro rfl
      rw [State.move_self] at isCounted
      cases isCounted
    rw [State.move_other _ _ second] at isCounted
    have first : other ≠ party := by
      rintro rfl
      rw [State.move_self] at isCounted
      cases isCounted
    rw [State.move_other _ _ first] at isCounted
    have ne : some child ≠ some task := by
      rintro ⟨⟩
      exact first (sound.apart other party task (by rw [isCounted]; rfl) bears)
    exact (State.move_other _ _ ne).trans (absent (sound.fresh other child isCounted))
  · obtain ⟨ending, isEnded⟩ := ended other member
    refine ⟨ending, (State.move_other _ _ ?_).trans isEnded⟩
    rintro ⟨⟩
    rw [unborn] at isEnded
    cases isEnded
  · have erred : ((state.move party (.started task)).move (some task) .running).tally Phase.hasErred =
        (state.move party (.started task)).tally Phase.hasErred :=
      State.tally_eq rfl fun other => agrees Phase.hasErred rfl (some other)
    rw [erred, agrees Phase.uncounted rfl]
    simp only [agrees Phase.isAborted rfl]
    exact counted

theorem pushes (sound : Sound state) (ready : state.phase party = .started task) :
    Sound { state.move party .running with handles := state.handles ++ [task] } := by
  obtain ⟨listed, ended, counted⟩ := sound.starts party .running
    (by rw [ready]; rfl) rfl
  have bears : (state.phase party).bears? = some task := by rw [ready]; rfl
  have old {other : Option Nat} {child : Nat}
      (bear : ((state.move party .running).phase other).bears? = some child) :
      other ≠ party ∧ (state.phase other).bears? = some child := by
    have ne : other ≠ party := by
      rintro rfl
      rw [State.move_self] at bear
      cases bear
    exact ⟨ne, by rwa [State.move_other state _ ne] at bear⟩
  have more : ({ state.move party .running with handles := state.handles ++ [task] } : State).listed =
      state.listed ++ [task] := by
    rw [← listed]
    simp only [State.listed, State.move_joined, State.move_handles, List.append_assoc]
  constructor
  · intro other le
    have isAbsent := sound.unborn other le
    refine (State.move_other state _ ?_).trans isAbsent
    rintro rfl
    rw [isAbsent] at ready
    cases ready
  · intro other child isCounted
    have ne := (old ((congrArg Phase.bears? isCounted).trans rfl)).1
    have isAbsent := sound.fresh other child ((State.move_other state _ ne).symm.trans isCounted)
    refine (State.move_other state _ ?_).trans isAbsent
    rintro rfl
    rw [isAbsent] at ready
    cases ready
  · intro parent child bear
    exact sound.older parent child (old bear).2
  · intro other child bear
    exact sound.born other child (old bear).2
  · intro first second child bear bear'
    exact sound.apart first second child (old bear).2 (old bear').2
  · intro other child bear member
    rw [more, List.mem_append, List.mem_singleton] at member
    obtain ⟨ne, before⟩ := old bear
    rcases member with member | rfl
    · exact sound.unlisted other child before member
    · exact ne (sound.apart other party child before bears)
  · rw [more]
    exact sound.nodup.append (List.nodup_singleton _)
      (List.disjoint_singleton.mpr (sound.unlisted party task bears))
  · intro other member
    rw [more, List.mem_append, List.mem_singleton] at member
    rcases member with member | rfl
    · exact sound.known other member
    · exact sound.born party other bears
  · intro other lt
    rw [more, List.mem_append, List.mem_singleton]
    rcases sound.found other lt with member | ⟨holder, bear⟩
    · exact .inl (.inl member)
    by_cases same : holder = party
    · subst same
      rw [bears] at bear
      exact .inl (.inr (Option.some.inj bear).symm)
    · exact .inr ⟨holder, (congrArg Phase.bears? (State.move_other state _ same)).trans bear⟩
  · exact ended
  · exact counted

theorem step (sound : Sound state) (step : Step state next) : Sound next := by
  cases step with
  | count party free => exact sound.counts free
  | start party task ready => exact sound.begins ready
  | push party task ready => exact sound.pushes ready
  | succeed task free =>
    refine sound.moves (by rw [free]; nofun) (by rw [free]; nofun) (by rw [free]; rfl) rfl ?_
    rw [State.tally_stays (by rw [free]; rfl)]
  | err task free =>
    refine sound.moves (by rw [free]; nofun) (by rw [free]; nofun) (by rw [free]; rfl) rfl ?_
    rw [State.tally_stays (by rw [free]; rfl)]
  | report task failing =>
    have present : state.phase (some task) ≠ .absent := by rw [failing]; nofun
    refine sound.moves present (by rw [failing]; nofun) (by rw [failing]; rfl) rfl ?_
    rw [State.tally_move (sound.lt_spawned present) (by rw [failing]; rfl) rfl]
    exact Nat.add_right_comm state.failed 1 _
  | finish task ending leaving =>
    refine sound.moves (by rw [leaving]; nofun) (by rw [leaving]; nofun) (by rw [leaving]; rfl) rfl ?_
    rw [State.tally_stays (by rw [leaving]; cases ending <;> rfl)]
  | abort task free =>
    refine sound.moves (by rw [free]; nofun) (by rw [free]; nofun) (by rw [free]; rfl) rfl ?_
    rw [State.tally_stays (by rw [free]; rfl)]
  | call free =>
    exact sound.calls (by rw [free]; rfl) rfl (by rw [State.listed, free]; exact .refl _) sound.ended
      (by rw [free]; rfl)
  | take empty left =>
    refine sound.calls (by rw [empty]; rfl) rfl ?_ sound.ended (by rw [empty]; rfl)
    rw [State.listed, empty]
    simp only [Phase.batch, List.append_nil, State.move_joined, List.Perm.refl]
  | join task batch ending next ended normal =>
    refine sound.calls (by rw [next]; rfl) rfl ?_ ?_ ?_
    · rw [State.listed, next]
      simp only [Phase.batch, List.cons_append, List.append_assoc]
      exact List.perm_middle.symm
    · intro other member
      rcases List.mem_cons.mp member with rfl | member
      · exact ⟨ending, ended⟩
      · exact sound.ended other member
    · rw [next, List.countP_cons_of_neg (by rw [ended]; simpa [Phase.isAborted] using normal)]
      rfl
  | joinAborted task batch next ended =>
    refine sound.calls (by rw [next]; rfl) rfl ?_ ?_ ?_
    · rw [State.listed, next]
      simp only [Phase.batch, List.cons_append, List.append_assoc]
      exact List.perm_middle.symm
    · intro other member
      rcases List.mem_cons.mp member with rfl | member
      · exact ⟨_, ended⟩
      · exact sound.ended other member
    · rw [next, List.countP_cons_of_pos (by rw [ended]; rfl)]
      simp only [Phase.uncounted, State.move_failed]
      omega
  | note batch noting =>
    exact sound.calls (by rw [noting]; rfl) rfl (by rw [State.listed, noting]; exact .refl _)
      sound.ended (by rw [noting]; rfl)
  | finished empty left =>
    exact sound.calls (by rw [empty]; rfl) rfl (by rw [State.listed, empty]; exact .refl _) sound.ended
      (by rw [empty]; rfl)
  | resume returned =>
    exact sound.calls (by rw [returned]; rfl) rfl (by rw [State.listed, returned]; exact .refl _)
      sound.ended (by rw [returned]; rfl)

end Sound

theorem Reachable.sound {state : State} (reached : Reachable state) : Sound state := by
  induction reached with
  | initial => exact .initial
  | step _ step ih => exact ih.step step

namespace Sound

variable {state : State}

/-- A task whose handle is not in the list yet is being started by an older one, so if all tasks in
the list have ended, all tasks are in the list. -/
theorem all_listed (sound : Sound state) (bears : (state.phase none).bears? = none)
    (ended : ∀ task ∈ state.listed, ∃ ending, state.phase (some task) = .ended ending) :
    ∀ task < state.spawned, task ∈ state.listed := by
  intro task
  induction task using Nat.strongRecOn with
  | ind task ih =>
    intro lt
    refine (sound.found task lt).resolve_right ?_
    rintro ⟨none | parent, bear⟩
    · rw [bears] at bear
      cases bear
    · have older := sound.older parent task bear
      obtain ⟨ending, isEnded⟩ := ended parent (ih parent older (Nat.lt_trans older lt))
      rw [isEnded] at bear
      cases bear

theorem failed_eq (sound : Sound state) (all : state.joined.Perm (List.range state.spawned))
    (counted : (state.phase none).uncounted = 0) : state.failed = state.tally Phase.hasFailed := by
  have split (tasks : List Nat)
      (ended : ∀ task ∈ tasks, ∃ ending, state.phase (some task) = .ended ending) :
      tasks.countP (fun task => (state.phase (some task)).hasFailed) =
        tasks.countP (fun task => (state.phase (some task)).hasErred) +
          tasks.countP fun task => (state.phase (some task)).isAborted := by
    induction tasks with
    | nil => rfl
    | cons task tasks ih =>
      obtain ⟨ending, isEnded⟩ := ended task (List.mem_cons_self ..)
      have rest := ih fun other member => ended other (List.mem_cons_of_mem _ member)
      simp only [List.countP_cons, rest, isEnded]
      cases ending <;> simp [Phase.hasFailed, Phase.hasErred, Phase.isAborted] <;> omega
  have old := sound.counted
  rw [counted, Nat.add_zero] at old
  rw [old, all.countP_eq, State.tally, State.tally, split]
  exact fun task member => sound.ended task (all.mem_iff.mpr member)

theorem of_returned (sound : Sound state) (returned : state.phase none = .returned)
    (handles : state.handles = []) :
    (∀ task < state.spawned, ∃ ending, state.phase (some task) = .ended ending) ∧
      state.failed = state.tally Phase.hasFailed := by
  have listed : state.listed = state.joined := by
    simp only [State.listed, returned, handles, Phase.batch, List.append_nil]
  have all := sound.all_listed (by rw [returned]; rfl) (listed.symm ▸ sound.ended)
  rw [listed] at all
  have perm : state.joined.Perm (List.range state.spawned) := by
    refine (List.perm_ext_iff_of_nodup (listed ▸ sound.nodup) List.nodup_range).mpr fun task => ?_
    rw [List.mem_range]
    exact ⟨fun member => sound.known task (listed.symm ▸ member), all task⟩
  exact ⟨fun task lt => sound.ended task (all task lt),
    sound.failed_eq perm (by rw [returned]; rfl)⟩

end Sound

theorem State.returned_of_move {state : State} {party : Option Nat} {phase : Phase}
    (returned : (state.move party phase).phase none = .returned) (ne : phase ≠ .returned) :
    state.phase none = .returned := by
  by_cases caller : none = party
  · subst caller
    exact absurd ((state.move_self none phase).symm.trans returned) ne
  · exact (state.move_other phase caller).symm.trans returned

theorem Reachable.handles_eq_nil {state : State} (reached : Reachable state) :
    state.phase none = .returned → state.handles = [] := by
  induction reached with
  | initial => exact nofun
  | @step state _ reached step ih =>
    intro returned
    cases step with
    | push party task ready =>
      have before := State.returned_of_move returned nofun
      cases party with
      | none =>
        rw [before] at ready
        cases ready
      | some parent =>
        have lt := reached.sound.lt_spawned (by rw [ready]; nofun)
        obtain ⟨ending, ended⟩ := (reached.sound.of_returned before (ih before)).1 parent lt
        rw [ended] at ready
        cases ready
    | start party task ready =>
      exact ih (State.returned_of_move (State.returned_of_move returned nofun) nofun)
    | take => rfl
    | finished empty left => exact left
    | report task failing =>
      have caller : (state.move (some task) (.leaving .error)).phase none = .returned := returned
      exact ih (State.returned_of_move caller nofun)
    | join task batch ending next | joinAborted task batch next | note batch next =>
      cases (state.move_self none _).symm.trans returned
    | _ => exact ih (State.returned_of_move returned nofun)

end Runner

end MiniGo
