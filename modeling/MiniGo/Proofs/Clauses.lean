import MiniGo.Proofs.Compilation
import MiniGo.Proofs.Enclosures
import MiniGo.Proofs.Sessions
import MiniGo.Proofs.Steering
/-!
Clauses as they are run. A statement that chooses among clauses enters an environment of its own if it
needs one, runs the one clause that it has chosen, in a block of its own if the clause has variables,
and goes on after its last instruction in the environment it came from. A `break` leads to its end as
well, and the exits of the statements around lead out of it.
-/

namespace MiniGo

variable {strict : Prop}

/-- A run starts at `first` in an environment, in a state of some kind. It goes through the instructions
from there on until it comes to `last` in the same environment, or leaves them before. -/
structure Passes (env : EnvRef) (first last : Nat) (holds : World → Prop) (goes : World → Sight)
    (leaves : Moment → Sight) (moments : List Moment) (halt : Halt) : Prop where
  head : ∃ moment rest, moments = moment :: rest ∧ moment.Stands env first ∧ holds moment.world
  stays : Stretch (Moment.Between first last) (Comes env last goes) leaves moments halt

theorem Passes.mono {env : EnvRef} {first last : Nat} {holds : World → Prop} {goes wider : World → Sight}
    {leaves exits : Moment → Sight} {moments : List Moment} {halt : Halt}
    (seen : Passes env first last holds goes leaves moments halt)
    (implies : ∀ world moments halt, goes world moments halt → wider world moments halt)
    (leads : ∀ moment moments halt, leaves moment moments halt → exits moment moments halt) :
    Passes env first last holds wider exits moments halt :=
  ⟨seen.head, seen.stays.mono (fun _ _ comes => comes.mono implies) leads⟩

/-- The instruction that a run leaves with is an exit of the lines from a position on, and the run goes
on as the exit tells. -/
def Leaving (here : Nat) (lines : List Line) (leads : Nat → ExitKind → Sight) (moment : Moment) : Sight :=
  fun moments halt => ∃ level kind, moment.Exits here lines level kind ∧ leads level kind moments halt

def Outside (env : EnvRef) (position : Nat) : Sight := fun moments halt =>
  halt = .stopped ∧ ∃ moment, moments = [moment] ∧ moment.Stands env position

def Exited (targets : Targets) (levels level : Nat) (kind : ExitKind) : Sight := fun moments halt =>
  level < levels ∧ halt = .stopped ∧
    ∃ moment, moments = [moment] ∧ moment.position = targets level kind

def Opens (owned : Bool) (env : EnvRef) (here : Nat) (within : EnvRef → Sight) : Sight :=
  if owned then
    Comes env here fun before rest halt => ∃ inner, before.env? inner = none ∧ within inner rest halt
  else within env

/-- A statement is left at `finish`, and the run is after it, at `stop`, in the environment that it was
entered from. -/
def Resumes (owned : Bool) (env inner : EnvRef) (finish stop : Nat) : Sight :=
  if owned then Comes inner finish fun _ => Outside env stop else Outside env stop

/-- The exits of a statement that chooses among clauses: its own lead to its end, and the others out of
it. -/
def Breaks (targets : Targets) (levels : Nat) (ends : Sight) (level : Nat) (kind : ExitKind) : Sight :=
  if level = levels then fun moments halt => kind = .break ∧ ends moments halt
  else Exited targets levels level kind

/-- The exits of a loop: a `break` leads to its end, a `continue` to where a turn ends, and the others
out of it. -/
def Cycles (targets : Targets) (levels : Nat) (ends again : Sight) (level : Nat) (kind : ExitKind) :
    Sight :=
  if level = levels then match kind with
    | .break => ends
    | .continue => again
  else Exited targets levels level kind

/-- The clause from one position up to another is run in a new block, with some variables in it that
have their values when its statements start. -/
def Binds (inner : EnvRef) (first last : Nat) (values : List (Slot × Value)) (goes : Sight)
    (leaves : Moment → Sight) : Sight :=
  Comes inner first fun before rest halt => ∃ block, before.env? block = none ∧
    Comes block (first + 1) (fun _ => Passes block (first + 2) (last - 1)
      (fun world => ∀ entry ∈ values, world.load block entry.1 = entry.2)
      (fun _ => Comes inner last fun _ => goes) leaves) rest halt

def Avoids (position : Nat) (sight : Sight) : Prop := ∀ moments halt, sight moments halt →
  ∀ moment ∈ moments, moment.next.isSome = true → moment.position ≠ position

def Once (position : Nat) (moments : List Moment) : Prop :=
  moments.countP (fun moment => moment.next.isSome && moment.position == position) ≤ 1

theorem Cycles.mono {targets : Targets} {levels level : Nat} {kind : ExitKind} {ends again wider : Sight}
    {moments : List Moment} {halt : Halt}
    (seen : Cycles targets levels ends again level kind moments halt)
    (implies : ∀ moments halt, again moments halt → wider moments halt) :
    Cycles targets levels ends wider level kind moments halt := by
  unfold Cycles at seen ⊢
  split
  · rename_i own
    rw [if_pos own] at seen
    cases kind with
    | «break» => exact seen
    | «continue» => exact implies _ _ seen
  · rename_i other
    rwa [if_neg other] at seen

theorem Leaving.mono {here : Nat} {lines : List Line} {leads wider : Nat → ExitKind → Sight}
    {moment : Moment} {moments : List Moment} {halt : Halt}
    (seen : Leaving here lines leads moment moments halt)
    (implies : ∀ level kind moments halt, leads level kind moments halt → wider level kind moments halt) :
    Leaving here lines wider moment moments halt := by
  obtain ⟨level, kind, exits, seen⟩ := seen
  exact ⟨level, kind, exits, implies _ _ _ _ seen⟩

theorem Leaving.within {here : Nat} {lines : List Line} {leads : Nat → ExitKind → Sight}
    {moment : Moment} {moments : List Moment} {halt : Halt} (before after : List Line)
    (seen : Leaving (here + before.length) lines leads moment moments halt) :
    Leaving here (before ++ lines ++ after) leads moment moments halt := by
  obtain ⟨level, kind, exits, seen⟩ := seen
  exact ⟨level, kind, exits.within before after, seen⟩

namespace Avoids

variable {position first last : Nat} {env inner : EnvRef} {goes : World → Sight}
  {after sight other : Sight} {leaves : Moment → Sight}

theorem or (left : Avoids position sight) (right : Avoids position other) :
    Avoids position fun moments halt => sight moments halt ∨ other moments halt := by
  rintro moments halt (seen | seen)
  · exact left moments halt seen
  · exact right moments halt seen

theorem and (left : Avoids position sight) (holds : Prop) :
    Avoids position fun moments halt => holds ∧ sight moments halt :=
  fun moments halt seen => left moments halt seen.2

theorem comes (differs : first ≠ position) (rest : ∀ world, Avoids position (goes world)) :
    Avoids position (Comes env first goes) := by
  intro moments halt seen
  cases seen with
  | stops stands => simpa [stands.position] using fun _ => differs
  | goes stands seen =>
    exact List.forall_mem_cons.mpr ⟨fun _ => stands.position ▸ differs, rest _ _ _ seen⟩

theorem stretch {inside : Moment → Prop} (outside : ∀ moment, inside moment → moment.position ≠ position)
    (rest : Avoids position after) (exits : ∀ moment, Avoids position (leaves moment)) :
    Avoids position (Stretch inside after leaves) := by
  intro moments halt seen
  induction seen with
  | ended => simp
  | stops isInside => simpa using fun _ => outside _ isInside
  | goes isInside _ ih => exact List.forall_mem_cons.mpr ⟨fun _ => outside _ isInside, ih⟩
  | after seen => exact rest _ _ seen
  | leaves isInside seen =>
    exact List.forall_mem_cons.mpr ⟨fun _ => outside _ isInside, exits _ _ _ seen⟩

theorem between {moment : Moment} (outside : position < first ∨ last ≤ position)
    (between : Moment.Between first last moment) : moment.position ≠ position := by
  obtain ⟨low, high⟩ := between
  omega

theorem passes {holds : World → Prop} (outside : position < first ∨ last < position)
    (ordered : first ≤ last) (rest : ∀ world, Avoids position (goes world))
    (exits : ∀ moment, Avoids position (leaves moment)) :
    Avoids position (Passes env first last holds goes leaves) := by
  have stays := stretch (fun _ => between (outside.imp_right Nat.le_of_lt))
    (comes (by omega : last ≠ position) rest : Avoids position (Comes env last goes)) exits
  exact fun moments halt seen => stays moments halt seen.stays

theorem leaving {here : Nat} {lines : List Line} {leads : Nat → ExitKind → Sight}
    (exits : ∀ level kind, Avoids position (leads level kind)) (moment : Moment) :
    Avoids position (Leaving here lines leads moment) :=
  fun moments halt ⟨level, kind, _, seen⟩ => exits level kind moments halt seen

theorem outside (differs : first ≠ position) : Avoids position (Outside env first) := by
  rintro _ _ ⟨-, moment, rfl, stands⟩
  simpa [stands.position] using fun _ => differs

theorem exited {targets : Targets} {levels : Nat}
    (outside : ∀ level kind, level < levels → targets level kind ≠ position) (level : Nat)
    (kind : ExitKind) : Avoids position (Exited targets levels level kind) := by
  rintro _ _ ⟨inside, -, moment, rfl, isTarget⟩
  simpa [isTarget] using fun _ => outside level kind inside

theorem breaks {targets : Targets} {levels : Nat}
    (outside : ∀ level kind, level < levels → targets level kind ≠ position)
    (ends : Avoids position sight) (level : Nat) (kind : ExitKind) :
    Avoids position (Breaks targets levels sight level kind) := by
  unfold Breaks
  split
  · exact ends.and _
  · exact exited outside level kind

theorem cycles {targets : Targets} {levels : Nat}
    (outside : ∀ level kind, level < levels → targets level kind ≠ position)
    (ends : Avoids position sight) (again : Avoids position other) (level : Nat) (kind : ExitKind) :
    Avoids position (Cycles targets levels sight other level kind) := by
  unfold Cycles
  split
  · cases kind with
    | «break» => exact ends
    | «continue» => exact again
  · exact exited outside level kind

theorem resumes {owned : Bool} (differs : first ≠ position) (differs' : last ≠ position) :
    Avoids position (Resumes owned env inner first last) := by
  unfold Resumes
  split
  · exact comes differs fun _ => outside differs'
  · exact outside differs'

theorem binds {values : List (Slot × Value)} (before : position < first) (length : first + 3 ≤ last)
    (rest : Avoids position after) (exits : ∀ moment, Avoids position (leaves moment)) :
    Avoids position (Binds env first last values after leaves) := by
  refine comes (by omega) fun _ moments halt => ?_
  rintro ⟨block, -, seen⟩
  refine comes (by omega) (fun _ => passes (.inl (by omega)) (by omega) (fun _ => ?_) exits) moments halt
    seen
  exact comes (by omega) fun _ => rest

theorem does {α : Type} {others : World → World → Prop} {work : Run α} {goes : World → α → Sight}
    (rest : ∀ later value, Avoids position (goes later value)) (world : World) :
    Avoids position (Does others env work goes world) := by
  intro moments halt seen
  cases seen with
  | done _ seen => exact rest _ _ _ _ seen
  | failed => simp

theorem works {α : Type} {others : World → World → Prop} {work : Nat → Run α}
    {goes : World → α → Sight} (rest : ∀ later value, Avoids position (goes later value))
    (world : World) : Avoids position (Works others env work goes world) := by
  intro moments halt seen
  cases seen with
  | ends seen => exact does rest world _ _ seen
  | stuck => simp

theorem count {moments : List Moment} {halt : Halt} (avoids : Avoids position sight)
    (seen : sight moments halt) :
    moments.countP (fun moment => moment.next.isSome && moment.position == position) = 0 := by
  rw [List.countP_eq_zero]
  intro moment member
  simpa using avoids moments halt seen moment member

theorem once {moments : List Moment} {halt : Halt} (avoids : Avoids position sight)
    (seen : sight moments halt) : Once position moments :=
  Nat.le_trans (Nat.le_of_eq (avoids.count seen)) (Nat.zero_le 1)

end Avoids

theorem Once.cons {position : Nat} {moment : Moment} {moments : List Moment}
    (differs : moment.position ≠ position) (once : Once position moments) :
    Once position (moment :: moments) := by
  unfold Once at once ⊢
  rwa [List.countP_cons_of_neg (by simp [differs])]

theorem Comes.once {env : EnvRef} {position : Nat} {goes : World → Sight} {moments : List Moment}
    {halt : Halt} (avoids : ∀ world, Avoids position (goes world))
    (seen : Comes env position goes moments halt) : Once position moments := by
  cases seen with
  | stops => exact List.countP_le_length
  | goes _ seen =>
    have none := (avoids _).count seen
    unfold Once
    rw [List.countP_cons, none]
    split <;> decide

theorem Stretch.once {inside : Moment → Prop} {after : Sight} {leaves : Moment → Sight}
    {position : Nat} {moments : List Moment} {halt : Halt}
    (outside : ∀ moment, inside moment → moment.position ≠ position)
    (rest : ∀ moments halt, after moments halt → Once position moments)
    (exits : ∀ moment moments halt, leaves moment moments halt → Once position moments)
    (seen : Stretch inside after leaves moments halt) : Once position moments := by
  induction seen with
  | ended => exact List.countP_le_length
  | stops => exact List.countP_le_length
  | goes isInside _ ih => exact ih.cons (outside _ isInside)
  | after seen => exact rest _ _ seen
  | leaves isInside seen => exact (exits _ _ _ seen).cons (outside _ isInside)

theorem Opens.once {owned : Bool} {env : EnvRef} {here position : Nat} {within : EnvRef → Sight}
    {moments : List Moment} {halt : Halt} (before : here + owned.toNat ≤ position)
    (inside : ∀ inner moments halt, within inner moments halt → Once position moments)
    (seen : Opens owned env here within moments halt) : Once position moments := by
  cases owned with
  | false => exact inside env moments halt seen
  | true =>
    cases seen with
    | stops => exact List.countP_le_length
    | goes stands seen =>
      obtain ⟨inner, -, seen⟩ := seen
      exact (inside _ _ _ seen).cons (stands.position ▸ Nat.ne_of_lt before)

def Brief (parts : Nat → Bool) (count : Nat) (moments : List Moment) : Prop :=
  moments.countP (fun moment => !parts moment.position) ≤ count

/-- So many moments at most are seen that are not among the instructions of some parts. -/
def Few (parts : Nat → Bool) (count : Nat) (sight : Sight) : Prop := ∀ moments halt,
  sight moments halt → Brief parts count moments

namespace Few

variable {inside : Nat → Bool} {n more first last position : Nat} {env inner : EnvRef}
  {goes : World → Sight} {after sight other : Sight} {leaves : Moment → Sight}

theorem mono (few : Few inside n sight) (less : n ≤ more) : Few inside more sight :=
  fun moments halt seen => Nat.le_trans (few moments halt seen) less

theorem and (few : Few inside n sight) (holds : Prop) :
    Few inside n fun moments halt => holds ∧ sight moments halt :=
  fun moments halt seen => few moments halt seen.2

theorem single (moment : Moment) : Brief inside 1 [moment] := List.countP_le_length

theorem cons {moment : Moment} {moments : List Moment}
    (few : Brief inside n moments) : Brief inside (n + 1) (moment :: moments) := by
  unfold Brief at few ⊢
  rw [List.countP_cons]
  split <;> omega

theorem comes (rest : ∀ world, Few inside n (goes world)) :
    Few inside (n + 1) (Comes env position goes) := by
  intro moments halt seen
  cases seen with
  | stops => exact Nat.le_trans (single _) (Nat.le_add_left _ _)
  | goes _ seen => exact cons (rest _ _ _ seen)

theorem stretch {within : Moment → Prop}
    (isInside : ∀ moment, within moment → inside moment.position = true)
    (rest : Few inside (n + 1) after) (exits : ∀ moment, Few inside (n + 1) (leaves moment)) :
    Few inside (n + 1) (Stretch within after leaves) := by
  have skip {moment : Moment} {moments : List Moment} (is : within moment) :
      (moment :: moments).countP (fun moment => !inside moment.position) =
        moments.countP (fun moment => !inside moment.position) :=
    List.countP_cons_of_neg (by simp [isInside _ is])
  intro moments halt seen
  induction seen with
  | ended => exact Nat.le_trans (single _) (Nat.le_add_left _ _)
  | stops => exact Nat.le_trans (single _) (Nat.le_add_left _ _)
  | goes is _ ih => exact (skip is).trans_le ih
  | after seen => exact rest _ _ seen
  | leaves is seen => exact (skip is).trans_le (exits _ _ _ seen)

theorem passes {holds : World → Prop}
    (isInside : ∀ position, first ≤ position → position < last → inside position = true)
    (rest : ∀ world, Few inside n (goes world))
    (exits : ∀ moment, Few inside (n + 1) (leaves moment)) :
    Few inside (n + 1) (Passes env first last holds goes leaves) := by
  have stays : Few inside (n + 1) (Stretch (Moment.Between first last) (Comes env last goes) leaves) :=
    stretch (fun moment is => isInside moment.position is.1 is.2) (comes rest) exits
  exact fun moments halt seen => stays moments halt seen.stays

theorem leaving {here : Nat} {lines : List Line} {leads : Nat → ExitKind → Sight}
    (exits : ∀ level kind, Few inside n (leads level kind)) (moment : Moment) :
    Few inside n (Leaving here lines leads moment) :=
  fun moments halt ⟨level, kind, _, seen⟩ => exits level kind moments halt seen

theorem outside : Few inside 1 (Outside env position) := by
  rintro _ _ ⟨-, moment, rfl, -⟩
  exact single moment

theorem exited {targets : Targets} {levels level : Nat} {kind : ExitKind} :
    Few inside 1 (Exited targets levels level kind) := by
  rintro _ _ ⟨-, -, moment, rfl, -⟩
  exact single moment

theorem breaks {targets : Targets} {levels : Nat} (ends : Few inside (n + 1) sight) (level : Nat)
    (kind : ExitKind) : Few inside (n + 1) (Breaks targets levels sight level kind) := by
  unfold Breaks
  split
  · exact ends.and _
  · exact exited.mono (Nat.le_add_left _ _)

theorem cycles {targets : Targets} {levels : Nat} (ends : Few inside (n + 1) sight)
    (again : Few inside (n + 1) other) (level : Nat) (kind : ExitKind) :
    Few inside (n + 1) (Cycles targets levels sight other level kind) := by
  unfold Cycles
  split
  · cases kind with
    | «break» => exact ends
    | «continue» => exact again
  · exact exited.mono (Nat.le_add_left _ _)

theorem opens {owned : Bool} {within : EnvRef → Sight} (rest : ∀ inner, Few inside n (within inner)) :
    Few inside (n + 1) (Opens owned env position within) := by
  cases owned with
  | false => exact (rest env).mono (Nat.le_succ _)
  | true =>
    refine comes fun _ moments halt => ?_
    rintro ⟨inner, -, seen⟩
    exact rest inner moments halt seen

theorem resumes {owned : Bool} : Few inside 2 (Resumes owned env inner first last) := by
  unfold Resumes
  split
  · exact comes fun _ => outside
  · exact outside.mono (by decide)

theorem binds {values : List (Slot × Value)}
    (isInside : ∀ position, first ≤ position → position < last → inside position = true)
    (rest : Few inside n after) (exits : ∀ moment, Few inside (n + 2) (leaves moment)) :
    Few inside (n + 4) (Binds env first last values after leaves) := by
  refine comes fun _ moments halt => ?_
  rintro ⟨block, -, seen⟩
  refine comes (n := n + 2) (fun _ => passes (fun position above below => ?_) (fun _ => ?_) exits)
    moments halt seen
  · exact isInside position (by omega) (by omega)
  · exact comes fun _ => rest

theorem does {α : Type} {others : World → World → Prop} {work : Run α} {goes : World → α → Sight}
    (rest : ∀ later value, Few inside (n + 1) (goes later value)) (world : World) :
    Few inside (n + 1) (Does others env work goes world) := by
  intro moments halt seen
  cases seen with
  | done _ seen => exact rest _ _ _ _ seen
  | failed => exact Nat.le_trans (single _) (Nat.le_add_left _ _)

theorem works {α : Type} {others : World → World → Prop} {work : Nat → Run α}
    {goes : World → α → Sight} (rest : ∀ later value, Few inside (n + 1) (goes later value))
    (world : World) : Few inside (n + 1) (Works others env work goes world) := by
  intro moments halt seen
  cases seen with
  | ends seen => exact does rest world _ _ seen
  | stuck => exact Nat.zero_le _

end Few

theorem ClauseCode.Row.bounds {here index : Nat} {clause : ClauseCode} {codes : List ClauseCode}
    (row : Row here codes) (found : codes[index]? = some clause) :
    here ≤ clause.start ∧ clause.next ≤ ClauseCode.finish here codes := by
  induction codes generalizing here index with
  | nil => simp at found
  | cons first rest ih =>
    obtain ⟨rfl, following⟩ := row
    cases index with
    | zero =>
      obtain rfl : first = clause := by simpa using found
      refine ⟨Nat.le_refl _, ?_⟩
      rw [ClauseCode.finish, following.finish_eq 0]
      exact Nat.le_add_right _ _
    | succ index =>
      obtain ⟨after, before⟩ := ih following (by simpa using found)
      refine ⟨Nat.le_trans ?_ after, before⟩
      simp only [next]
      omega

theorem ClauseCode.Row.get {program : Program} {targets : Targets} {here breakTo index : Nat}
    {clause : ClauseCode} {codes : List ClauseCode} (row : Row here codes)
    (carries : program.Carries targets here (join breakTo codes).lines)
    (found : codes[index]? = some clause) :
    program.Carries targets clause.start clause.body.lines ∧
      program.instr? (clause.start + clause.body.length) =
        some (.goto (if clause.fallsThrough then clause.next else breakTo)) := by
  induction codes generalizing here index with
  | nil => simp at found
  | cons first rest ih =>
    obtain ⟨rfl, following⟩ := row
    simp only [join, Fragment.append_lines] at carries
    cases index with
    | zero =>
      obtain rfl : first = clause := by simpa using found
      exact ⟨carries.left.left, carries.left.right.head⟩
    | succ index =>
      have others := carries.right
      rw [List.length_append, ← Nat.add_assoc] at others
      exact ih following others (by simpa using found)

theorem Declares.kept {grown : Frame} {slots : List Slot} {slot : Slot} {value : Value}
    (declares : Declares { owned := true } grown slots) (member : slot ∈ slots)
    (is : value.Is slot.type) : slot.kept value = value := by
  obtain ⟨level, isLevel, -⟩ := declares.level (.empty { owned := true } rfl rfl rfl) rfl
  obtain ⟨name, isNamed⟩ := declares.named slot member
  exact (level.named name slot (isLevel ▸ isNamed)).1.1.kept is

theorem Layer.serves_lasting (layer : Layer) : layer.Serves layer.lasting :=
  ⟨rfl, fun _ member => member, List.nil_subset _, List.nil_subset _⟩

theorem serves_lasting (layers : List Layer) : Serves layers (layers.map Layer.lasting) := by
  induction layers with
  | nil => exact .nil
  | cons layer layers ih => exact .cons layer.serves_lasting ih

theorem Ctx.plain_lasting (ctx : Ctx strict) :
    ∀ layer ∈ ctx.lasting.layers, layer.parked = [] ∧ layer.held = [] := by
  intro layer member
  obtain ⟨other, -, rfl⟩ := List.mem_map.mp member
  exact ⟨rfl, rfl⟩

theorem entering_plain (level : Level) {layers : List Layer}
    (plain : ∀ layer ∈ layers, layer.parked = [] ∧ layer.held = []) :
    ∀ layer ∈ entering level layers, layer.parked = [] ∧ layer.held = [] := by
  unfold entering
  split
  · exact List.forall_mem_cons.mpr ⟨⟨rfl, rfl⟩, plain⟩
  · exact plain

theorem stored_plain (slots : List Slot) {layers : List Layer}
    (plain : ∀ layer ∈ layers, layer.parked = [] ∧ layer.held = []) :
    ∀ layer ∈ stored slots layers, layer.parked = [] ∧ layer.held = [] := by
  cases layers with
  | nil => simp [stored]
  | cons layer layers =>
    obtain ⟨first, rest⟩ := List.forall_mem_cons.mp plain
    exact List.forall_mem_cons.mpr ⟨first, rest⟩

theorem length_entering (level : Level) (layers : List Layer) :
    layers.length ≤ (entering level layers).length := by
  unfold entering
  split
  · exact Nat.le_succ _
  · exact Nat.le_refl _

variable [Natives] {observer : Observer} {course : Course strict} {start now : Config strict}
  {floor fuel : Nat} {env inner : EnvRef} {blocks : List EnvRef} {layers : List Layer}
  {targets : Targets} {here breakTo : Nat} {span : Span} {leads : Nat → ExitKind → Sight}

/-- A statement is about to be run. Its instructions stand in a program with their exits closed, the
environments are those of its scope, and whoever observes stops as soon as the run is past it. -/
structure Observer.Enters (observer : Observer) (course : Course strict) (ctx : Ctx strict)
    (targets : Targets) (here : Nat) (lines : List Line) (start : Config strict) (floor : Nat)
    (env : EnvRef) (blocks : List EnvRef) (now : Config strict) : Prop where
  host : Host.Safe strict observer.host
  carries : course.program.Carries targets here lines
  around : Around course.base (fun _ _ given => course.base < given.length) ctx.scope ctx.layers
  busy : course.Busy start observer.task floor env blocks ctx.layers now
  quiet : now.Quiet observer.task
  ip : now.world.ip env = here
  inside : ∀ env next world, observer.go env next world = true →
    here ≤ world.ip env ∧ world.ip env < here + lines.length
  leads : ∀ level kind, level < ctx.scope.length →
    targets level kind < here ∨ here + lines.length ≤ targets level kind

/-- The exits of the statements around one, by the environments that they leave. -/
def exiting (course : Course strict) (ctx : Ctx strict) (level : Nat) (_ : ExitKind)
    (given : List Layer) : Prop :=
  level < ctx.scope.length ∧ course.base < given.length ∧ given.length ≤ ctx.layers.length

namespace Observer.Enters

variable {ctx : Ctx strict} {lines : List Line}

theorem busy_lasting
    (enters : observer.Enters course ctx targets here lines start floor env blocks now) :
    course.Busy start observer.task floor env blocks ctx.lasting.layers now :=
  enters.busy.serves (serves_lasting _)

theorem around_lasting
    (enters : observer.Enters course ctx targets here lines start floor env blocks now) :
    Around course.base (exiting course ctx) ctx.lasting.scope ctx.lasting.layers := by
  have around := enters.around
  refine ⟨by simpa [Ctx.lasting] using around.deep, ?_, ?_⟩
  · intro kind label hops level found
    obtain ⟨inside, exit⟩ := around.exits kind label hops level found
    refine ⟨inside, fun given serves => ⟨inside, ?_, ?_⟩⟩
    · have deep := exit (ctx.layers.drop hops) (.refl _)
      rw [serves.length_eq]
      simpa [Ctx.lasting] using deep
    · rw [serves.length_eq]
      simp [Ctx.lasting]
  · intro hops info found
    obtain ⟨layer, isLayer, shared⟩ := around.returns hops info found
    exact ⟨layer.lasting, by simp [Ctx.lasting, isLayer], shared⟩

theorem halts (enters : observer.Enters course ctx targets here lines start floor env blocks now)
    (ref : EnvRef) (next : Option Instr) (world : World)
    (outside : world.ip ref < here ∨ here + lines.length ≤ world.ip ref) :
    observer.go ref next world = false := by
  cases going : observer.go ref next world with
  | false => rfl
  | true =>
    obtain ⟨after, before⟩ := enters.inside ref next world going
    omega

theorem exited (enters : observer.Enters course ctx targets here lines start floor env blocks now)
    {level : Nat} {kind : ExitKind} {ref : EnvRef} {later : Config strict}
    (isLevel : level < ctx.scope.length) (ip : later.world.ip ref = targets level kind) :
    observer.Sees fuel ref (later.world.instr? ref) later (Exited targets ctx.scope.length level kind) :=
  .stop (enters.halts ref _ _ (ip ▸ enters.leads level kind isLevel)) ⟨isLevel, rfl, _, rfl, ip⟩

end Observer.Enters

namespace Observer.Sees

theorem jumps {goes : Sight} (busy : course.Busy start observer.task floor env blocks layers now)
    (quiet : now.Quiet observer.task) (ip : now.world.ip env = here)
    (isJump : course.program.instr? here = some (.goto breakTo))
    (sees : ∀ less < fuel, ∀ later,
      course.Busy start observer.task floor env blocks layers later → later.Quiet observer.task →
      later.world.ip env = breakTo → observer.Sees less env (later.world.instr? env) later goes) :
    observer.Sees fuel env (now.world.instr? env) now (Comes env here fun _ => goes) := by
  obtain ⟨later, gone, advances, busy', quiet', -, ip', -⟩ := busy.goto quiet breakTo
  have isNext : now.world.instr? env = some (.goto breakTo) := by
    rw [busy.within.instr?, ip, isJump]
  exact comes isNext ip (fun _ _ => gone) advances fun less isLess =>
    sees less isLess later busy' quiet' ip'

theorem opens {owned : Bool} {level : Level} {within : EnvRef → Sight}
    (isOwned : level.frame.owned = owned)
    (carries : course.program.Carries targets here (opening owned span level.frame))
    (busy : course.Busy start observer.task floor env blocks layers now)
    (quiet : now.Quiet observer.task) (ip : now.world.ip env = here)
    (sees : ∀ less ≤ fuel, ∀ later inner, (owned = false → inner = env) →
      course.Busy start observer.task floor inner (if owned then inner :: blocks else blocks)
        (entering level layers) later →
      later.Quiet observer.task → later.world.ip inner = here + owned.toNat →
      observer.Sees less inner (later.world.instr? inner) later (within inner)) :
    observer.Sees fuel env (now.world.instr? env) now (Opens owned env here within) := by
  subst isOwned
  cases owned : level.frame.owned with
  | false =>
    rw [owned] at sees
    simp only [entering, owned, Bool.false_eq_true, if_false] at sees
    exact sees fuel (Nat.le_refl _) now env (fun _ => rfl) busy quiet ip
  | true =>
    rw [owned] at sees carries
    simp only [entering, owned, if_true] at sees
    obtain ⟨inner, later, ran, advances, quiet', busy', ip', fresh⟩ := busy.pushes quiet level
    refine comes (by rw [busy.within.instr?, ip]; exact carries.head) ip ran advances ?_
    intro less isLess
    refine (sees less (Nat.le_of_lt isLess) later inner (by simp) busy' quiet' ?_).mono
      fun rest halt seen => ⟨inner, fresh, seen⟩
    rw [ip', ip]
    rfl

theorem resumes {owned : Bool} {stop : Nat} (isHere : env = blocks.headD course.root)
    (same : owned = false → inner = env)
    (carries : course.program.Carries targets here (closing owned span))
    (isStop : here + owned.toNat = stop)
    (halts : ∀ (next : Option Instr) (world : World),
      world.ip env = stop → observer.go env next world = false)
    (busy : course.Busy start observer.task floor inner (if owned then inner :: blocks else blocks)
      layers now)
    (quiet : now.Quiet observer.task) (ip : now.world.ip inner = here) :
    observer.Sees fuel inner (now.world.instr? inner) now (Resumes owned env inner here stop) := by
  have outside {later : Config strict} {less : Nat} (ip : later.world.ip env = stop) :
      observer.Sees less env (later.world.instr? env) later (Outside env stop) :=
    Observer.Sees.stop (halts _ _ ip) ⟨rfl, _, rfl, rfl, ip⟩
  cases owned with
  | false =>
    obtain rfl := same rfl
    exact outside (ip.trans isStop)
  | true =>
    rw [if_pos rfl] at busy
    obtain ⟨later, ran, advances, quiet', busy', ip'⟩ := busy.pops quiet (by simp)
    rw [List.tail_cons, ← isHere] at ran busy' ip'
    refine comes (by rw [busy.within.instr?, ip]; exact carries.head) ip ran advances ?_
    exact fun less isLess => outside (by rw [ip', ip]; exact isStop)

section Parts

variable {out : Nat → ExitKind → List Layer → Prop} {lines : List Line} {entry exit rest : List Layer}
  {first : Layer} {holds : World → Prop} {goes : World → Sight} {instr : Instr} {sites : List Site}

theorem passes (hostSafe : Host.Safe strict observer.host)
    (runs : Runs strict rest.length out here lines sites entry exit)
    (carries : course.program.Carries targets here lines)
    (isLast : course.program.instr? (here + lines.length) = some instr)
    (busy : course.Busy start observer.task floor env blocks (first :: rest) now)
    (entered : Serves (first :: rest) entry)
    (plain : ∀ outer ∈ rest, outer.parked = [] ∧ outer.held = [])
    (back : exit.length = rest.length + 1)
    (outs : ∀ level kind given, out level kind given →
      course.base < given.length ∧ given.length ≤ rest.length + 1)
    (quiet : now.Quiet observer.task) (ip : now.world.ip env = here) (holding : holds now.world)
    (finish : ∀ less ≤ fuel, ∀ later, now.shape.Grows later.shape →
      course.Busy start observer.task floor env blocks (exit.take 1 ++ rest) later →
      later.Quiet observer.task → later.world.ip env = here + lines.length →
      observer.Sees less env (later.world.instr? env) later (Comes env (here + lines.length) goes))
    (lefts : ∀ less < fuel, ∀ later env given level kind, out level kind given →
      now.shape.Grows later.shape →
      course.Busy start observer.task floor env (blocks.drop (rest.length + 1 - given.length))
        ((given.take 1 ++ rest).drop (rest.length + 1 - given.length)) later →
      later.Quiet observer.task → later.world.ip env = targets level kind →
      observer.Sees less env (later.world.instr? env) later (leads level kind)) :
    observer.Sees fuel env (now.world.instr? env) now
      (Passes env here (here + lines.length) holds goes (Leaving here lines leads)) := by
  obtain ⟨instr', isNext⟩ : ∃ instr', now.world.instr? env = some instr' := by
    rw [busy.within.instr?, ip]
    cases lines with
    | nil => exact ⟨instr, by simpa using isLast⟩
    | cons line lines => exact ⟨_, carries.head⟩
  have sees : observer.Sees fuel env (now.world.instr? env) now
      (Stretch (Moment.Between here (here + lines.length)) (Comes env (here + lines.length) goes)
        (Leaving here lines leads)) := by
    refine through hostSafe runs carries (Stretch.absorbs _ _ _) busy entered plain rfl back outs
      quiet ip ?_ ?_
    · intro less isLess later grows busy quiet ip
      exact (finish less isLess later grows busy quiet ip).mono fun _ _ => .after
    · intro less isLess later env given level kind moment exits grows busy quiet ip isExit
      exact (lefts less isLess later env given level kind exits grows busy quiet ip).mono
        fun _ _ seen => .leaves isExit.between ⟨level, kind, isExit, seen⟩
  rw [isNext] at sees ⊢
  refine sees.headed.mono ?_
  rintro moments halt ⟨⟨others, rfl⟩, seen⟩
  exact ⟨⟨_, others, rfl, ⟨rfl, ip⟩, holding⟩, seen⟩

end Parts

end Observer.Sees

/-- A run is in the environment of a statement that chooses among clauses. From `breakTo` on it is seen
to close the statement, and an exit leads to its end or out of it. -/
structure Observer.Among (observer : Observer) (course : Course strict) (ctx : Ctx strict)
    (out : Nat → ExitKind → List Layer → Prop) (targets : Targets) (start : Config strict)
    (floor : Nat) (env : EnvRef) (blocks : List EnvRef) (breakTo : Nat) (goes : Sight)
    (leads : Nat → ExitKind → Sight) : Prop where
  host : Host.Safe strict observer.host
  around : Around course.base out ctx.scope ctx.layers
  plain : ∀ layer ∈ ctx.layers, layer.parked = [] ∧ layer.held = []
  outs : ∀ level kind given, out level kind given →
    course.base < given.length ∧ given.length ≤ ctx.layers.length
  closes : ∀ fuel later layers, course.Busy start observer.task floor env blocks layers later →
    later.Quiet observer.task → later.world.ip env = breakTo →
    observer.Sees fuel env (later.world.instr? env) later goes
  lefts : ∀ fuel later env given level kind, out level kind given →
    (given.length = ctx.layers.length →
      ∃ layers, course.Busy start observer.task floor env blocks layers later) →
    later.Quiet observer.task → later.world.ip env = targets level kind →
    observer.Sees fuel env (later.world.instr? env) later (leads level kind)

namespace Observer.Among

variable {ctx : Ctx strict} {out : Nat → ExitKind → List Layer → Prop} {goes : Sight}

open Sees

theorem plains {lines : List Line}
    (among : observer.Among course ctx out targets start floor env blocks breakTo goes leads)
    (runs : ∀ base < ctx.layers.length, ∃ sites,
      Runs strict base out here lines sites ctx.layers ctx.layers)
    (carries : course.program.Carries targets here lines)
    (isJump : course.program.instr? (here + lines.length) = some (.goto breakTo))
    (busy : course.Busy start observer.task floor env blocks layers now)
    (serves : Serves layers ctx.layers) (quiet : now.Quiet observer.task)
    (ip : now.world.ip env = here) :
    observer.Sees fuel env (now.world.instr? env) now
      (Passes env here (here + lines.length) (fun _ => True) (fun _ => goes)
        (Leaving here lines leads)) := by
  have busyHere := busy.serves serves
  obtain ⟨-, first, rest, -, -, isLayers, -⟩ := busyHere.within.innermost
  have plain := among.plain
  have outs := among.outs
  rw [isLayers] at busyHere plain outs runs
  obtain ⟨sites, bodyRuns⟩ := runs rest.length (Nat.lt_succ_self _)
  refine passes among.host bodyRuns carries isJump busyHere (.refl _)
    (List.forall_mem_cons.mp plain).2 rfl outs quiet ip trivial ?_ ?_
  · intro less isLess later _ busyLater quietLater ipLater
    exact jumps busyLater quietLater ipLater isJump fun least _ final busyFinal quietFinal ipFinal =>
      among.closes least final _ busyFinal quietFinal ipFinal
  · intro less isLess later left given level kind exits _ busyLeft quietLeft ipLeft
    refine among.lefts less later left given level kind exits (fun same => ?_) quietLeft ipLeft
    rw [same, isLayers, List.length_cons, Nat.sub_self] at busyLeft
    exact ⟨_, busyLeft⟩

/-- A clause with variables: a block is entered, the parked values are copied to the variables, the
statements are run, and the block is left. -/
theorem binds {outer : Layer} {rest : List Layer} {grown : Frame} {body : Piece}
    {kind : List Frame → List Site → Prop}
    (among : observer.Among course ctx out targets start floor env blocks breakTo goes leads)
    (given : List (Slot × Slot × Value))
    (declares : Declares { owned := true } grown (given.map (·.2.1)))
    (distinct : (given.map (·.2.1)).Nodup)
    (declaring : Declaring strict ctx.scope grown (here + 2) body kind)
    (carries : course.program.Carries targets here
      (⟨.push body.frame.objects body.frame.words, span⟩ ::
        ⟨.adopt (given.map fun copy => (copy.1, copy.2.1)), span⟩ :: body.lines ++ [⟨.pop, span⟩]))
    (isJump : course.program.instr? (here + body.lines.length + 3) = some (.goto breakTo))
    (busy : course.Busy start observer.task floor env blocks (outer :: rest) now)
    (serves : Serves (outer :: rest) ctx.layers)
    (held : ∀ copy ∈ given, (copy.1, copy.2.2) ∈ outer.held ∧
      copy.2.2.Inhabits now.shape copy.2.1.type)
    (quiet : now.Quiet observer.task) (ip : now.world.ip env = here) :
    observer.Sees fuel env (now.world.instr? env) now
      (Binds env here (here + body.lines.length + 3)
        (given.map fun copy => (copy.2.1, copy.2.1.kept copy.2.2)) goes
        (Leaving here (⟨.push body.frame.objects body.frame.words, span⟩ ::
          ⟨.adopt (given.map fun copy => (copy.1, copy.2.1)), span⟩ :: body.lines ++ [⟨.pop, span⟩])
          leads)) := by
  obtain ⟨others, bodyDeclares, bodyRuns⟩ := declaring
  obtain ⟨level, levelFrame, grows⟩ :=
    (declares.trans bodyDeclares).level (.empty { owned := true } rfl rfl rfl) rfl
  have covers : level.Covers body.frame := levelFrame ▸ (Level.Grows.refl level).covers
  have grownCovers : level.Covers grown := bodyDeclares.covers covers
  have isOwned : level.frame.owned = true := grows.owned
  -- The block is entered.
  obtain ⟨block, middle, ran, advances, quiet, busyBlock, ipBlock, fresh⟩ := busy.pushes quiet level
  rw [levelFrame] at ran
  have isPush : now.world.instr? env = some (.push body.frame.objects body.frame.words) := by
    rw [busy.within.instr?, ip]
    exact carries.left.head
  refine comes isPush ip ran advances fun less isLess => ?_
  refine mono ?_ fun moments halt seen => ⟨block, fresh, seen⟩
  -- The values are copied.
  have shared : ∀ slot ∈ given.map (·.2.1), level.Shared slot := by
    intro slot member
    obtain ⟨name, isNamed⟩ := declares.named slot member
    exact grownCovers.shared isNamed
  obtain ⟨copied, ranCopies, advancesCopies, quiet, busyCopied, ipCopied, loads, -⟩ :=
    busyBlock.adopts quiet (fun copy member => ⟨shared _ (List.mem_map_of_mem member),
      (held copy member).1, (held copy member).2.grows advances.grows⟩) distinct
  obtain ⟨begun, gone, advancesOn, busyBegun, quiet, -, ipBegun, loadsOn⟩ :=
    busyCopied.goto quiet (copied.world.ip block + 1)
  have atBlock : middle.world.ip block = here + 1 := by rw [ipBlock, ip]
  have isAdopt : middle.world.instr? block =
      some (.adopt (given.map fun copy => (copy.1, copy.2.1))) := by
    rw [busyBlock.within.instr?, atBlock]
    exact carries.left.tail.head
  have ranAdopt : ∀ call fuel, Step.run call fuel block
      (.adopt (given.map fun copy => (copy.1, copy.2.1))) middle.world =
        .done (begun.world.instr? block, block) begun.world := by
    intro call fuel
    rw [Step.run, Run.bind_done ranCopies]
    exact gone
  refine comes isAdopt atBlock ranAdopt (advancesCopies.trans advancesOn) fun lesser isLesser => ?_
  -- The statements are run.
  obtain ⟨entered, enteredScope, enteredLayers⟩ :=
    @exists_entered _ ctx { owned := true } level rfl (declares.covers grownCovers)
  simp only [entering, isOwned, if_true] at enteredLayers
  have top : Top ({ level } :: ctx.layers) body.frame :=
    ⟨fun _ => ⟨_, rfl, covers⟩, fun bare => by simp [covers.owned, isOwned] at bare⟩
  have fits := entered.fits
  rw [enteredScope, enteredLayers] at fits
  let mid : Ctx strict := ⟨grown :: ctx.scope, stored (given.map (·.2.1)) ({ level } :: ctx.layers),
    fits.declared declares (top.before bodyDeclares)⟩
  have cost : grown.cost = 1 := by simp [Frame.cost, declares.owned]
  have midAround : Around ctx.layers.length out mid.scope mid.layers := by
    refine (among.around.enter declares.loop declares.func ?_).rebase (by simp [mid, stored])
    rw [cost]
    exact Serves.refl _
  have length : here + body.lines.length + 3 - 1 = here + 2 + body.lines.length := by omega
  rw [length]
  have isPop : course.program.instr? (here + 2 + body.lines.length) = some .pop := by
    have popped := carries.right.head
    rwa [show here + (_ :: _ :: body.lines : List Line).length = here + 2 + body.lines.length by
      simp only [List.length_cons]; omega] at popped
  have serving : Serves (stored (given.map (·.2.1)) ({ level } :: outer :: rest)) mid.layers :=
    .cons (.refl _) serves
  refine (?_ : observer.Sees _ _ _ _ (Passes block _ _ _ _ (Leaving (here + 2) body.lines leads))).mono
    fun moments halt seen => seen.mono (fun _ _ _ => id)
      fun moment rest halt leaving => leaving.within [_, _] _
  obtain ⟨sites, -, bodyRun⟩ := bodyRuns mid _ _ rfl midAround (top.stored _)
  refine passes among.host bodyRun carries.left.tail.tail
    isPop (busyBegun.serves serving) (.refl _) among.plain (by simp [mid, stored]) ?_ quiet ?_ ?_ ?_ ?_
  · intro level kind given exits
    obtain ⟨above, below⟩ := among.outs level kind given exits
    exact ⟨above, Nat.le_succ_of_le below⟩
  · rw [ipBegun, ipCopied, atBlock]
  · intro entry member
    obtain ⟨copy, isCopy, rfl⟩ := List.mem_map.mp member
    rw [loadsOn]
    exact loads copy isCopy
  · intro least isLeast later _ busyLater quietLater ipLater
    obtain ⟨left, ranPop, advancesPop, quietLeft, busyLeft, ipLeft⟩ :=
      busyLater.pops quietLater (by simp)
    rw [List.tail_cons, ← busy.within.env_eq] at ranPop busyLeft ipLeft
    have isNext : later.world.instr? block = some .pop := by
      rw [busyLater.within.instr?, ipLater, isPop]
    refine comes isNext ipLater ranPop advancesPop fun final isFinal => ?_
    have atJump : left.world.ip env = here + body.lines.length + 3 := by
      rw [ipLeft, ipLater]
      omega
    exact jumps busyLeft quietLeft atJump isJump fun last _ after busyAfter quietAfter ipAfter =>
      among.closes last after _ busyAfter quietAfter ipAfter
  · intro least isLeast later left given level kind exits _ busyLeft quietLeft ipLeft
    refine among.lefts least later left given level kind exits (fun same => ?_) quietLeft ipLeft
    rw [same, Nat.add_sub_cancel_left, List.drop_one, List.drop_one] at busyLeft
    exact ⟨_, busyLeft⟩

end Observer.Among

theorem Observer.Enters.among {ctx again : Ctx strict} {lines : List Line} {last : Frame}
    {labels : List String} {owned : Bool} {finish : Nat}
    (enters : observer.Enters course ctx targets here lines start floor env blocks now)
    (scope : again.scope = last :: ctx.scope) (loop : last.loop = some ⟨false, labels⟩)
    (func : last.func = none) (serves : Serves (again.layers.drop last.cost) ctx.lasting.layers)
    (plain : ∀ layer ∈ again.layers, layer.parked = [] ∧ layer.held = [])
    (same : owned = false → inner = env)
    (carries : course.program.Carries targets finish (closing owned span))
    (isEnd : finish + owned.toNat = here + lines.length) :
    observer.Among course again
      (switching ctx.scope.length again.layers (exiting course ctx))
      (targets.closing ctx.scope.length finish 0) start floor inner
      (if owned then inner :: blocks else blocks) finish
      (Resumes owned env inner finish (here + lines.length))
      (Breaks targets ctx.scope.length (Resumes owned env inner finish (here + lines.length))) := by
  have around : Around course.base (switching ctx.scope.length again.layers (exiting course ctx))
      again.scope again.layers := by
    rw [scope]
    exact enters.around_lasting.enter_switch loop func serves (.refl _)
  have length := serves.length_eq
  rw [List.length_drop] at length
  have closes (fuel : Nat) (later : Config strict) (layers : List Layer)
      (busy : course.Busy start observer.task floor inner
        (if owned then inner :: blocks else blocks) layers later)
      (quiet : later.Quiet observer.task) (ip : later.world.ip inner = finish) :
      observer.Sees fuel inner (later.world.instr? inner) later
        (Resumes owned env inner finish (here + lines.length)) :=
    .resumes enters.busy.within.env_eq same carries isEnd
      (fun next world isStop => enters.halts env next world (.inr (Nat.le_of_eq isStop.symm)))
      busy quiet ip
  refine ⟨enters.host, around, plain, fun level kind given exits => ?_, closes,
    fun fuel later left given level kind exits busy quiet ip => ?_⟩
  · unfold switching at exits
    split at exits
    · rw [exits.2.length_eq]
      exact ⟨around.deep, Nat.le_refl _⟩
    · obtain ⟨-, above, below⟩ := exits
      have lasting : ctx.lasting.layers.length = ctx.layers.length := by simp [Ctx.lasting]
      omega
  · unfold switching at exits
    split at exits
    · rename_i own
      obtain ⟨rfl, served⟩ := exits
      obtain ⟨layers, busy⟩ := busy served.length_eq
      rw [own, Targets.closing_self] at ip
      have isInner : left = inner := by
        rw [busy.within.env_eq]
        cases owned with
        | true => rfl
        | false => exact (same rfl).symm ▸ enters.busy.within.env_eq.symm
      subst isInner
      refine (closes fuel later layers busy quiet ip).mono fun _ _ seen => ?_
      rw [Breaks, if_pos own]
      exact ⟨rfl, seen⟩
    · rename_i other
      rw [Targets.closing_of_ne other] at ip
      refine (enters.exited exits.1 ip).mono fun _ _ seen => ?_
      rw [Breaks, if_neg other]
      exact seen

theorem Observer.exists_enters (foreign : ∀ index, Natives.signature? index = none)
    (lines : List Line) :
    ∃ (observer : Observer) (course : Course strict) (ctx : Ctx strict) (now : Config strict)
      (env : EnvRef), ctx.scope = [{ owned := true }] ∧
      observer.Enters course ctx (fun _ _ => lines.length) 0 lines now 0 env [] now := by
  have noSignature : strict → ∀ index signature, Natives.signature? index = some signature →
      signature.Proper := by simp [foreign]
  obtain ⟨first, sound⟩ := @Interpreter.new_sound _ strict {} noSignature
  let level : Level := .empty { owned := true } rfl rfl rfl
  let program : Program :=
    ⟨(lines.map fun line => { line with instr := line.instr.under fun _ _ => lines.length }).toArray,
      false⟩
  obtain ⟨now, -, calm, isKnown, ip, -⟩ := @Config.acquire _ _ first _ none program 0 level
    (first.owner_isSome sound.quiet.isTask (.inl rfl)) (by simp)
  set env : EnvRef := ⟨first.world.envs.size⟩
  let course : Course strict := ⟨(Interpreter.new {}).thread, env, program, 0, fun _ _ => True⟩
  have quiet := calm.quiet sound.quiet
  have within : course.Within now env [] [{ level }] :=
    .root isKnown rfl rfl ⟨rfl, by simp, by simp, by simp⟩ .nil (by simp) rfl
  have fits : Fits strict [{ owned := true }] [{ level }] :=
    .owned rfl (Level.Grows.refl level).covers (by simp) .nil
  refine ⟨⟨fun env _ world => decide (world.ip env < lines.length), [], _⟩, course,
    ⟨_, _, fits⟩, now, env, rfl, ⟨noSignature, by simp⟩, ?_, ⟨Nat.zero_lt_one, ?_, ?_⟩,
    ⟨.refl _ _ _, .inl rfl, Nat.zero_le _, within, by simp, by simp⟩, quiet, ip, ?_, by simp⟩
  · intro index line found
    simp [course, program, Program.instr?, found]
  · intro kind label hops level found
    simp [Scope.exit?] at found
  · intro hops info found
    simp [Scope.function?] at found
  · intro ref next world going
    simpa using going

end MiniGo
