import MiniGo.Proofs.Invocations
import MiniGo.Tasks
/-!
Tasks in turn. While one task goes on, the others wait; whatever a task does between two waits leaves
the others as they were. A run with all its tasks keeps the state sound, and a task that has ended has
left all the blocks it has entered.
-/

namespace MiniGo

variable [Natives] {strict : Prop}

namespace Config

variable {start now later final : Config strict} {task other : ThreadRef} {busy : List ThreadRef}

def Closed (task : ThreadRef) (now : Config strict) : Prop :=
  ∀ ref known, now.shape.env ref = some known → now.shape.Owns task known.thread →
    ¬now.world.IsOpen ref

theorem Waits.closed (waits : start.Waits task final) (closed : start.Closed task) :
    final.Closed task := by
  intro ref known found own isOpen
  have ownBefore := (waits.owns _).mp own
  have openBefore := (waits.blocks ref known found ownBefore).mp isOpen
  obtain ⟨there, isThere⟩ := start.known_of_isOpen openBefore
  obtain rfl : there = known := Option.some.inj ((waits.grows.env _ _ isThere).symm.trans found)
  exact closed ref there isThere ownBefore openBefore

theorem Since.closed {floor : Nat} (since : start.Since task floor final)
    (closed : start.Closed task) : final.Closed task := by
  intro ref known found own isOpen
  have openBefore := (since.blocks ref known found own).mp isOpen
  obtain ⟨there, isThere⟩ := start.known_of_isOpen openBefore
  obtain rfl : there = known := Option.some.inj ((since.grows.env _ _ isThere).symm.trans found)
  have present := (start.sound.envs ref there isThere).1
  exact closed ref there isThere (owns_before since.grows present own) openBefore

/-- How the tasks stand when none of them is running. Those that are `busy` have begun, or are about
to; the others have ended, or are still in the queue of the world. -/
structure Stands (busy : List ThreadRef) (now : Config strict) : Prop where
  nodup : busy.Nodup
  tasks : ∀ task ∈ busy, now.shape.isTask task
  quiet : ∀ task, now.shape.isTask task → now.Quiet task
  closed : ∀ task, now.shape.isTask task → task ∉ busy → now.Closed task
  queue : (now.world.pending.map (·.thread)).Nodup
  queued : ∀ spawn ∈ now.world.pending, now.shape.isTask spawn.thread ∧ spawn.thread ∉ busy

theorem Advances.started (advances : start.Advances task final) (isNew : ¬start.shape.isTask other)
    (isTask : final.shape.isTask other) : final.Quiet other ∧ final.Closed other := by
  obtain ⟨more, -, -, tasks, new⟩ := advances.pending
  obtain ⟨spawn, member, rfl⟩ := List.mem_map.mp ((tasks other isTask).resolve_left isNew)
  obtain ⟨differs, -, -, idle, closed⟩ := new spawn member
  have alone (ref : ThreadRef) (own : final.shape.Owns spawn.thread ref) : ref = spawn.thread := by
    rcases own with same | ⟨owner, -⟩
    · exact same
    · cases before : start.shape.owner ref with
      | none =>
        rcases advances.fresh ref before with none | own
        · simp [none] at owner
        · exact absurd (Option.some.inj (owner.symm.trans own)) differs
      | some found =>
        obtain rfl : found = spawn.thread :=
          Option.some.inj ((advances.grows.owner _ _ before).symm.trans owner)
        exact absurd (start.sound.owners ref _ before) isNew
  refine ⟨⟨isTask, fun ref own => ?_⟩, fun ref known found own => ?_⟩
  · rw [alone ref own]
    exact idle
  · exact closed ref known found (alone _ own)

namespace Stands

theorem advances (stands : now.Stands busy) (member : task ∈ busy)
    (advances : now.Advances task later) (quiet : later.Quiet task) : later.Stands busy := by
  have isTask := stands.tasks task member
  have waits {other : ThreadRef} (otherTask : now.shape.isTask other) (differs : other ≠ task) :=
    advances.waits isTask otherTask differs
  obtain ⟨more, pending, nodup, -, new⟩ := advances.pending
  refine ⟨stands.nodup, fun task member => advances.grows.isTask _ (stands.tasks task member), ?_, ?_,
    ?_, ?_⟩
  · intro other otherTask
    by_cases same : other = task
    · exact same ▸ quiet
    · by_cases before : now.shape.isTask other
      · exact (waits before same).quiet (stands.quiet other before)
      · exact (advances.started before otherTask).1
  · intro other otherTask notBusy
    have differs : other ≠ task := fun same => notBusy (same ▸ member)
    by_cases before : now.shape.isTask other
    · exact (waits before differs).closed (stands.closed other before notBusy)
    · exact (advances.started before otherTask).2
  · rw [pending, List.map_append]
    refine List.nodup_append.mpr ⟨stands.queue, nodup, ?_⟩
    intro first inFirst second inSecond same
    obtain ⟨early, earlyMember, rfl⟩ := List.mem_map.mp inFirst
    obtain ⟨late, lateMember, rfl⟩ := List.mem_map.mp inSecond
    exact (new late lateMember).2.1 (same ▸ (stands.queued early earlyMember).1)
  · intro spawn inQueue
    rw [pending] at inQueue
    rcases List.mem_append.mp inQueue with old | isNew
    · obtain ⟨isTask, notBusy⟩ := stands.queued spawn old
      exact ⟨advances.grows.isTask _ isTask, notBusy⟩
    · obtain ⟨-, notTask, isTask, -, -⟩ := new spawn isNew
      exact ⟨isTask, fun member => notTask (stands.tasks _ member)⟩

theorem finished {others rest : List ThreadRef} (stands : now.Stands (others ++ task :: rest))
    (closed : now.Closed task) : now.Stands (others ++ rest) := by
  have sub : (others ++ rest).Sublist (others ++ task :: rest) :=
    .append (.refl _) (List.sublist_cons_self _ _)
  refine ⟨stands.nodup.sublist sub, fun task member => stands.tasks task (sub.subset member),
    stands.quiet, fun other isTask notBusy => ?_, stands.queue, fun spawn member => ?_⟩
  · by_cases same : other = task
    · exact same ▸ closed
    · refine stands.closed other isTask fun member => notBusy ?_
      simpa [same] using member
  · obtain ⟨isTask, notBusy⟩ := stands.queued spawn member
    exact ⟨isTask, fun member => notBusy (sub.subset member)⟩

end Stands

end Config

def Broken.Sound (strict : Prop) : Broken → Prop
  | .exhausted => True
  | .watched env next world => ∃ now : Config strict, now.world = world ∧ now.At env next

def Broken.From (shape : Shape strict) : Broken → Prop
  | .exhausted => True
  | .watched env next world =>
    ∃ now : Config strict, now.world = world ∧ shape.Grows now.shape ∧ now.At env next

theorem Broken.From.sound {shape : Shape strict} {reason : Broken} (broken : reason.From shape) :
    reason.Sound strict := by
  cases reason with
  | exhausted => exact trivial
  | watched env next world =>
    obtain ⟨now, same, -, reached⟩ := broken
    exact ⟨now, same, reached⟩

theorem Broken.From.sooner {before after : Shape strict} {reason : Broken}
    (broken : reason.From after) (grows : before.Grows after) : reason.From before := by
  cases reason with
  | exhausted => exact trivial
  | watched env next world =>
    obtain ⟨now, same, grown, reached⟩ := broken
    exact ⟨now, same, grows.trans grown, reached⟩

/-- A task that waits: wherever it is resumed, it does no harm, and leaves its blocks in the end. -/
def Task.Sound {β : Type} (now : Config strict) (task : Task β) (ref : ThreadRef) : Prop :=
  ∀ later, now.Waits ref later →
    (task.resume later.world).Safe ref (fun final _ => final.Quiet ref ∧ final.Closed ref) later

theorem Task.Sound.waits {β : Type} {now later : Config strict} {task : Task β} {ref : ThreadRef}
    (sound : task.Sound now ref) (waits : now.Waits ref later) : task.Sound later ref :=
  fun final more => sound final (waits.trans more)

theorem Outcome.Safe.broken {α : Type} {task : ThreadRef} {now : Config strict}
    {post : Config strict → Except RuntimeError α → Prop} {reason : Broken}
    (safe : (Outcome.broken reason : Outcome α).Safe task post now) : reason.From now.shape := by
  cases reason with
  | exhausted => exact trivial
  | watched env next world => exact safe

theorem Config.Stands.others {β : Type} {now later : Config strict} {task : ThreadRef}
    {others rest : List ThreadRef} {waiting : List (Task β)}
    (stands : now.Stands (others ++ task :: rest)) (advances : now.Advances task later)
    (sounds : List.Forall₂ (Task.Sound now) waiting rest) :
    List.Forall₂ (Task.Sound later) waiting rest ∧ ∀ other ∈ others, now.Waits other later := by
  have isTask := stands.tasks task (by simp)
  obtain ⟨-, restNodup, disjoint⟩ := List.nodup_append.mp stands.nodup
  have waits (other : ThreadRef) (member : other ∈ others ++ rest) : now.Waits other later := by
    refine advances.waits isTask (stands.tasks other ?_) ?_
    · rcases List.mem_append.mp member with first | second
      · exact List.mem_append_left _ first
      · exact List.mem_append_right _ (.tail _ second)
    · rintro rfl
      rcases List.mem_append.mp member with first | second
      · exact disjoint other first other (.head _) rfl
      · exact (List.nodup_cons.mp restNodup).1 second
  refine ⟨?_, fun other member => waits other (List.mem_append_left _ member)⟩
  have right := fun other member => waits other (List.mem_append_right others member)
  clear stands restNodup disjoint waits isTask
  induction sounds with
  | nil => exact .nil
  | cons first _ ih =>
    obtain ⟨head, tail⟩ := List.forall_mem_cons.mp right
    exact .cons (first.waits head) (ih tail)

namespace Tasks

variable {α β : Type}

def TurnSound (now : Config strict) (others refs : List ThreadRef) : Except Broken (Turn β) → Prop
  | .error reason => reason.From now.shape
  | .ok turn => ∃ (later : Config strict) (left : List ThreadRef), later.world = turn.world ∧
    List.Forall₂ (Task.Sound later) turn.waiting left ∧ left.Sublist refs ∧
    later.Stands (others ++ left) ∧ ∀ task ∈ others, now.Waits task later

section Turns

variable {now middle : Config strict} {others refs : List ThreadRef} {ref : ThreadRef} {task : Task β}
  {result : Except Broken (Turn β)} {change : Turn β → Turn β}

theorem TurnSound.after (sound : TurnSound middle others refs result)
    (grows : now.shape.Grows middle.shape) (waits : ∀ task ∈ others, now.Waits task middle)
    (world : ∀ turn, (change turn).world = turn.world)
    (waiting : ∀ turn, (change turn).waiting = turn.waiting) :
    TurnSound now others (ref :: refs) (result.map change) := by
  cases result with
  | error reason => exact Broken.From.sooner sound grows
  | ok turn =>
    obtain ⟨later, left, same, sounds, sub, stands, more⟩ := sound
    refine ⟨later, left, (world turn).symm ▸ same, ?_, sub.cons _, stands,
      fun task member => (waits task member).trans (more task member)⟩
    rw [waiting]
    exact sounds

theorem TurnSound.keep (sound : TurnSound middle (others ++ [ref]) refs result)
    (isSound : task.Sound middle ref) (grows : now.shape.Grows middle.shape)
    (waits : ∀ task ∈ others, now.Waits task middle)
    (world : ∀ turn, (change turn).world = turn.world)
    (waiting : ∀ turn, (change turn).waiting = task :: turn.waiting) :
    TurnSound now others (ref :: refs) (result.map change) := by
  cases result with
  | error reason => exact Broken.From.sooner sound grows
  | ok turn =>
    obtain ⟨later, left, same, sounds, sub, stands, more⟩ := sound
    refine ⟨later, ref :: left, (world turn).symm ▸ same, ?_, sub.cons_cons _, by simpa using stands,
      fun task member => (waits task member).trans (more task (by simp [member]))⟩
    rw [waiting]
    exact .cons (isSound.waits (more ref (by simp))) sounds

end Turns

theorem runAll_sound {waiting : List (Task β)} {others refs : List ThreadRef} {now : Config strict}
    (sounds : List.Forall₂ (Task.Sound now) waiting refs) (stands : now.Stands (others ++ refs)) :
    TurnSound now others refs (runAll now.world waiting) := by
  induction waiting generalizing refs others now with
  | nil =>
    cases sounds
    exact ⟨now, [], rfl, .nil, .refl _, stands, fun task _ => .refl _ _⟩
  | cons task waiting ih =>
    cases sounds with
    | @cons _ ref _ refs first rest =>
      have member : ref ∈ others ++ ref :: refs := by simp
      unfold runAll
      split
      · have safe := first now (.refl _ _)
        split
        · next value world outcome =>
          rw [outcome] at safe
          obtain ⟨middle, rfl, advances, quiet, closed⟩ := safe
          obtain ⟨restSounds, waits⟩ := stands.others advances rest
          have stood := (stands.advances member advances quiet).finished closed
          exact (ih restSounds stood).after advances.grows waits (fun _ => rfl) fun _ => rfl
        · next error world outcome =>
          rw [outcome] at safe
          obtain ⟨middle, rfl, advances, quiet, closed⟩ := safe
          obtain ⟨restSounds, waits⟩ := stands.others advances rest
          have stood := (stands.advances member advances quiet).finished closed
          exact (ih restSounds stood).after advances.grows waits (fun _ => rfl) fun _ => rfl
        · next wait world resume outcome =>
          rw [outcome] at safe
          obtain ⟨middle, rfl, advances, quiet, resumes⟩ := safe
          obtain ⟨restSounds, waits⟩ := stands.others advances rest
          have stood := stands.advances member advances quiet
          rw [List.append_cons] at stood
          have waiting : Task.Sound middle ⟨task.id, wait, resume⟩ ref := resumes
          exact (ih restSounds stood).keep waiting advances.grows waits (fun _ => rfl) fun _ => rfl
        · next reason outcome =>
          rw [outcome] at safe
          exact safe.broken
      · rw [List.append_cons] at stands
        exact (ih rest stands).keep first (.refl _) (fun _ _ => .refl _ _) (fun _ => rfl) fun _ => rfl

def Starts (strict : Prop) (start : Spawn → Run β) : Prop :=
  ∀ (spawn : Spawn) (now : Config strict), now.Quiet spawn.thread → now.Closed spawn.thread →
    spawn.invocation.Sound now.shape →
    (start spawn now.world).Safe spawn.thread
      (fun final _ => final.Quiet spawn.thread ∧ final.Closed spawn.thread) now

def Sound (tasks : Tasks β) (now : Config strict) (others refs : List ThreadRef) : Prop :=
  List.Forall₂ (Task.Sound now) tasks.waiting refs ∧ now.Stands (others ++ refs)

theorem enlisted {start : Spawn → Run β} {now : Config strict} {pending : List Spawn}
    {tasks : Tasks β} {refs : List ThreadRef}
    (sounds : List.Forall₂ (Task.Sound now) tasks.waiting refs)
    (each : ∀ spawn ∈ pending, ∀ id, Task.Sound now ⟨id, .turn, start spawn⟩ spawn.thread) :
    List.Forall₂ (Task.Sound now)
      (pending.foldl (fun tasks spawn => tasks.add (start spawn)) tasks).waiting
      (refs ++ pending.map (·.thread)) := by
  induction pending generalizing tasks refs with
  | nil => simpa using sounds
  | cons spawn pending ih =>
    obtain ⟨first, rest⟩ := List.forall_mem_cons.mp each
    rw [List.foldl_cons, List.map_cons, List.append_cons]
    exact ih (List.rel_append sounds (.cons (first _) .nil)) rest

theorem enlist_sound {start : Spawn → Run β} (starts : Starts strict start) {tasks : Tasks β}
    {now : Config strict} {others refs : List ThreadRef} (sound : tasks.Sound now others refs) :
    ∃ (later : Config strict) (refs : List ThreadRef),
      later.world = (tasks.enlist start now.world).2 ∧
      (tasks.enlist start now.world).1.Sound later others refs ∧ later.world.pending = [] ∧
      ∀ task, now.Waits task later := by
  obtain ⟨sounds, stands⟩ := sound
  let later : Config strict :=
    { now with
      world := { now.world with pending := [] }
      sound := { now.sound with
        blocks := now.sound.blocks.grows (.refl _) ⟨rfl, rfl⟩
        pending := by simp } }
  have waits (task : ThreadRef) : now.Waits task later :=
    ⟨.refl _, Nat.le_refl _, fun _ => Iff.rfl, fun _ _ _ _ => .refl _ _ _, fun _ _ _ _ => Iff.rfl,
      fun _ _ => rfl⟩
  have begins (spawn : Spawn) (member : spawn ∈ now.world.pending) (id : Nat) :
      Task.Sound now ⟨id, .turn, start spawn⟩ spawn.thread := by
    intro last more
    obtain ⟨isTask, notBusy⟩ := stands.queued spawn member
    exact starts spawn last (more.quiet (stands.quiet _ isTask))
      (more.closed (stands.closed _ isTask notBusy))
      ((now.sound.pending spawn member).grows more.grows)
  refine ⟨later, refs ++ now.world.pending.map (·.thread), rfl, ⟨?_, ?_⟩, rfl, waits⟩
  · exact (enlisted sounds begins).imp fun task ref isSound => isSound.waits (waits ref)
  · rw [← List.append_assoc]
    refine ⟨List.nodup_append.mpr ⟨stands.nodup, stands.queue, ?_⟩, ?_,
      fun task isTask => (waits task).quiet (stands.quiet task isTask), ?_, .nil, by simp [later]⟩
    · intro task isBusy other queued same
      obtain ⟨spawn, member, rfl⟩ := List.mem_map.mp queued
      exact (stands.queued spawn member).2 (same ▸ isBusy)
    · intro task member
      rcases List.mem_append.mp member with isBusy | queued
      · exact stands.tasks task isBusy
      · obtain ⟨spawn, inQueue, rfl⟩ := List.mem_map.mp queued
        exact (stands.queued spawn inQueue).1
    · intro task isTask notBusy
      exact (waits task).closed
        (stands.closed task isTask fun member => notBusy (List.mem_append_left _ member))

theorem turn_sound {start : Spawn → Run β} (starts : Starts strict start) {tasks : Tasks β}
    {now : Config strict} {others refs : List ThreadRef} (sound : tasks.Sound now others refs) :
    match tasks.turn start now.world with
    | .error reason => reason.From now.shape
    | .ok (tasks, world, _) => ∃ (later : Config strict) (refs : List ThreadRef),
      later.world = world ∧ tasks.Sound later others refs ∧ later.world.pending = [] ∧
      ∀ task ∈ others, now.Waits task later := by
  obtain ⟨first, firstRefs, sameFirst, firstSound, -, firstWaits⟩ := enlist_sound starts sound
  unfold turn
  dsimp only
  rw [← sameFirst]
  have ran := runAll_sound firstSound.1 firstSound.2
  cases result : runAll first.world (tasks.enlist start now.world).1.waiting with
  | error reason =>
    rw [result] at ran
    exact Broken.From.sooner ran (firstWaits ⟨0⟩).grows
  | ok turn =>
    rw [result] at ran
    obtain ⟨second, left, same, sounds, -, stands, waits⟩ := ran
    have enlisted := @enlist_sound _ _ _ _ starts
      { (tasks.enlist start now.world).1 with
        waiting := turn.waiting
        finished := (tasks.enlist start now.world).1.finished ++ turn.finished } second others left
      ⟨sounds, stands⟩
    obtain ⟨third, thirdRefs, sameThird, thirdSound, none, thirdWaits⟩ := enlisted
    rw [same] at sameThird thirdSound
    exact ⟨third, thirdRefs, sameThird, thirdSound, none, fun task member =>
      (firstWaits task).trans ((waits task member).trans (thirdWaits task))⟩

/-- How a computation in front of its tasks ends, or where it has been broken off. -/
def ScheduledSound (now : Config strict) (front : ThreadRef)
    (post : Config strict → Except RuntimeError α → Prop) : Scheduled α β → Prop
  | .finished result world tasks => ∃ (later : Config strict) (refs : List ThreadRef),
    later.world = world ∧ post later result ∧ tasks.Sound later [front] refs
  | .stuck _ _ => True
  | .broken reason => reason.From now.shape

theorem ScheduledSound.sooner {now later : Config strict} {front : ThreadRef}
    {post : Config strict → Except RuntimeError α → Prop} {scheduled : Scheduled α β}
    (sound : ScheduledSound later front post scheduled) (grows : now.shape.Grows later.shape) :
    ScheduledSound now front post scheduled := by
  cases scheduled with
  | finished result world tasks => exact sound
  | stuck world tasks => exact trivial
  | broken reason => exact Broken.From.sooner sound grows

theorem Sound.advances {tasks : Tasks β} {now later : Config strict} {front : ThreadRef}
    {refs : List ThreadRef} (sound : tasks.Sound now [front] refs)
    (advances : now.Advances front later) (quiet : later.Quiet front) :
    tasks.Sound later [front] refs := by
  have stands : now.Stands ([] ++ front :: refs) := sound.2
  exact ⟨(stands.others advances sound.1).1, sound.2.advances (by simp) advances quiet⟩

theorem drive_sound {start : Spawn → Run β} (starts : Starts strict start) {front : ThreadRef}
    {post : Config strict → Except RuntimeError α → Prop}
    (quiet : ∀ now result, post now result → now.Quiet front) (fuel : Nat) {tasks : Tasks β}
    {now : Config strict} {refs : List ThreadRef} {outcome : Outcome α}
    (safe : outcome.Safe front post now) (sound : tasks.Sound now [front] refs) :
    ScheduledSound now front post (drive start fuel tasks outcome) := by
  fun_induction drive start fuel tasks outcome generalizing now refs with
  | case1 _ tasks value world =>
    obtain ⟨later, same, advances, ends⟩ := safe
    exact ⟨later, refs, same, ends, sound.advances advances (quiet _ _ ends)⟩
  | case2 _ tasks error world =>
    obtain ⟨later, same, advances, ends⟩ := safe
    exact ⟨later, refs, same, ends, sound.advances advances (quiet _ _ ends)⟩
  | case3 _ tasks reason => exact safe.broken
  | case4 => exact trivial
  | case5 tasks fuel wait world resume reason broken =>
    obtain ⟨later, rfl, advances, isQuiet, -⟩ := safe
    have turned := turn_sound starts (sound.advances advances isQuiet)
    rw [broken] at turned
    exact Broken.From.sooner turned advances.grows
  | case6 tasks fuel wait world resume tasks' world' progress turn woken ih =>
    obtain ⟨middle, rfl, advances, isQuiet, resumes⟩ := safe
    have turned := turn_sound starts (sound.advances advances isQuiet)
    rw [turn] at turned
    obtain ⟨later, refs, rfl, sound, -, waits⟩ := turned
    have waited := waits front (.head _)
    exact (ih (resumes later waited) sound).sooner (advances.grows.trans waited.grows)
  | case7 tasks fuel wait world resume tasks' world' notOver turn ih =>
    obtain ⟨middle, rfl, advances, isQuiet, resumes⟩ := safe
    have turned := turn_sound starts (sound.advances advances isQuiet)
    rw [turn] at turned
    obtain ⟨later, refs, rfl, sound, -, waits⟩ := turned
    have waited := waits front (.head _)
    refine (ih ⟨later, rfl, .refl _ _, waited.quiet isQuiet, fun last more => ?_⟩ sound).sooner
      (advances.grows.trans waited.grows)
    exact resumes last (waited.trans more)
  | case8 => exact trivial

/-- How waiting for the tasks ends: the goal is reached, and no task waits to be started. -/
def JoinSound (now : Config strict) (front : ThreadRef) (goal : Tasks β → Bool) :
    Scheduled Unit β → Prop
  | .finished _ world tasks => ∃ (later : Config strict) (refs : List ThreadRef),
    later.world = world ∧ tasks.Sound later [front] refs ∧ now.Waits front later ∧
    later.world.pending = [] ∧ goal tasks = true
  | .stuck _ _ => True
  | .broken reason => reason.From now.shape

theorem JoinSound.after {now later : Config strict} {front : ThreadRef} {goal : Tasks β → Bool}
    {result : Scheduled Unit β} (sound : JoinSound later front goal result)
    (waits : now.Waits front later) : JoinSound now front goal result := by
  cases result with
  | finished result world tasks =>
    obtain ⟨last, refs, same, sound, more, rest⟩ := sound
    exact ⟨last, refs, same, sound, waits.trans more, rest⟩
  | stuck world tasks => exact trivial
  | broken reason => exact Broken.From.sooner sound waits.grows

theorem join_sound {start : Spawn → Run β} (starts : Starts strict start) {front : ThreadRef}
    {goal : Tasks β → Bool} (fuel : Nat) {tasks : Tasks β} {now : Config strict}
    {refs : List ThreadRef} (sound : tasks.Sound now [front] refs) :
    JoinSound now front goal (join start goal fuel tasks now.world) := by
  induction fuel generalizing tasks now refs with
  | zero => exact trivial
  | succ fuel ih =>
    obtain ⟨first, firstRefs, sameFirst, firstSound, none, firstWaits⟩ := enlist_sound starts sound
    unfold join
    dsimp only
    rw [← sameFirst]
    by_cases reached : goal (tasks.enlist start now.world).1 = true
    · rw [if_pos reached]
      exact ⟨first, firstRefs, rfl, firstSound, firstWaits front, none, reached⟩
    · rw [if_neg reached]
      have turned := turn_sound starts firstSound
      split at turned
      · next broken =>
        rw [broken]
        exact Broken.From.sooner turned (firstWaits front).grows
      · next tasks' world' progress turn =>
        rw [turn]
        obtain ⟨later, refs, rfl, sound, -, waits⟩ := turned
        cases progress with
        | false => exact trivial
        | true => exact (ih sound).after ((firstWaits front).trans (waits front (.head _)))

end Tasks

end MiniGo
