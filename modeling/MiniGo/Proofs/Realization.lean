import MiniGo.Proofs.Counter
import MiniGo.Proofs.Statements
/-!
Lines that do what an action says. A piece of a program realizes an action if the counter machine, from
the first line of the piece, does what the action does and goes on as its completion says: after the last
line, at the target of an exit, or at the end of the function. Each way to put pieces together realizes
the corresponding way to put actions together.

Both sides are bounded, the machine by its fuel and the action by the rounds of its loops. They agree
unless one of them is broken off: the machine, if it has no more fuel than there are rounds, or the
action, if the machine has as much fuel as all its rounds cost.
-/

namespace MiniGo

/-- The same outcome, unless one of the two is broken off early. -/
inductive Outcome.Cut {α : Type} (early late : Prop) : Outcome α → Outcome α → Prop
  | refl (outcome : Outcome α) : Cut early late outcome outcome
  | await {wait : Wait} {world : World} {first second : World → Outcome α} :
    (∀ later, Cut early late (first later) (second later)) →
    Cut early late (.await wait world first) (.await wait world second)
  | early {outcome : Outcome α} : early → Cut early late (.broken .exhausted) outcome
  | late {outcome : Outcome α} : late → Cut early late outcome (.broken .exhausted)

def Run.Cut {α : Type} (early late : Prop) (run other : Run α) : Prop :=
  ∀ world, (run world).Cut early late (other world)

namespace Run.Cut

variable {α β : Type} {early late : Prop}

theorem refl (run : Run α) : run.Cut early late run := fun world => .refl (run world)

theorem after (run : Run α) {next other : α → Run β}
    (goes : ∀ value, (next value).Cut early late (other value)) :
    (run >>= next).Cut early late (run >>= other) := by
  intro world
  show (Run.bind run next world).Cut early late (Run.bind run other world)
  rw [Run.bind_apply, Run.bind_apply]
  induction run world with
  | done value world => exact goes value world
  | fail error world => exact .refl _
  | await wait world resume ih => exact .await ih
  | broken reason => exact .refl _

end Run.Cut

/-- The exit that a label, or none, stands for: the environments to leave and the level. -/
abbrev Exits := ExitKind → Option String → Option (Nat × Nat)

abbrev Targets := Nat → ExitKind → Nat

namespace Exits

def inside (exits : Exits) (cost : Nat) : Exits := fun kind label =>
  (exits kind label).map fun (hops, level) => (cost + hops, level)

def offering (exits : Exits) (info : LoopInfo) (level : Nat) : Exits := fun kind label =>
  if (kind == .break || info.continues) && label.all info.labels.contains then some (0, level)
  else exits kind label

def Below (exits : Exits) (level : Nat) : Prop :=
  ∀ kind label hops found, exits kind label = some (hops, found) → found < level

end Exits

def Dest.under (targets : Targets) : Dest → Nat
  | line position => position
  | exit level kind => targets level kind

def InstrOf.under (targets : Targets) : Instr → Instr
  | .leave hops dest => .leave hops (.line (dest.under targets))
  | instr => instr

def ProgramOf.Does (program : Program) (position : Nat) (instr : Instr) : Prop :=
  ∃ found, program.instr? position = some found ∧ ∀ call env, act call env found = act call env instr

def ProgramOf.Holds (program : Program) (targets : Targets) (here : Nat) (lines : List Line) : Prop :=
  ∀ index line, lines[index]? = some line → program.Does (here + index) (line.instr.under targets)

namespace ProgramOf.Holds

variable {program : Program} {targets : Targets} {here : Nat} {line : Line}
  {first second lines : List Line}

theorem left (holds : Holds program targets here (first ++ second)) :
    Holds program targets here first := by
  intro index line found
  refine holds index line ?_
  rw [List.getElem?_append_left (List.getElem?_eq_some_iff.mp found).1]
  exact found

theorem right (holds : Holds program targets here (first ++ second)) :
    Holds program targets (here + first.length) second := by
  intro index line found
  have does := holds (first.length + index) line
    (by rw [List.getElem?_append_right (by omega)]; simpa using found)
  rwa [← Nat.add_assoc] at does

theorem head (holds : Holds program targets here (line :: lines)) :
    program.Does here (line.instr.under targets) := holds 0 line rfl

theorem tail (holds : Holds program targets here (line :: lines)) :
    Holds program targets (here + 1) lines := @right _ _ _ [line] lines holds

end ProgramOf.Holds

def Targets.closing (targets : Targets) (level breakTo continueTo : Nat) : Targets := fun found kind =>
  if found = level then
    match kind with
    | .break => breakTo
    | .continue => continueTo
  else targets found kind

theorem Targets.closing_of_ne {targets : Targets} {level found : Nat} (differs : found ≠ level)
    (breakTo continueTo : Nat) (kind : ExitKind) :
    targets.closing level breakTo continueTo found kind = targets found kind := if_neg differs

theorem Targets.closing_self (targets : Targets) (level breakTo continueTo : Nat) (kind : ExitKind) :
    targets.closing level breakTo continueTo level kind =
      match kind with
      | .break => breakTo
      | .continue => continueTo := if_pos rfl

theorem InstrOf.under_close (targets : Targets) (level breakTo continueTo : Nat) (line : Line) :
    (line.close level breakTo continueTo).instr.under targets =
      line.instr.under (targets.closing level breakTo continueTo) := by
  obtain ⟨instr, span⟩ := line
  cases instr with
  | leave hops dest =>
    cases dest with
    | line position => rfl
    | exit found kind =>
      by_cases same : found = level
      · cases kind <;> simp [Line.close, Dest.close, InstrOf.under, Dest.under, Targets.closing, same]
      · simp [Line.close, Dest.close, InstrOf.under, Dest.under, Targets.closing, same]
  | _ => rfl

theorem Line.close_isPlain (line : Line) (level breakTo continueTo : Nat) :
    (line.close level breakTo continueTo).instr.isPlain = line.instr.isPlain := by
  obtain ⟨instr, span⟩ := line
  cases instr <;> rfl

theorem ProgramOf.Holds.opened {program : Program} {targets : Targets} {here level breakTo : Nat}
    {continueTo : Nat} {lines : List Line}
    (holds : program.Holds targets here (lines.map (·.close level breakTo continueTo))) :
    program.Holds (targets.closing level breakTo continueTo) here lines := by
  intro index line found
  rw [← InstrOf.under_close]
  exact holds index _ (by simp [found])

theorem ProgramOf.holds_self (lines : List Line) (defers : Bool) :
    ProgramOf.Holds ⟨lines.toArray, defers⟩ (fun _ _ => 0) 0 lines := by
  intro index line found
  refine ⟨line.instr, by simp [Program.instr?, found], fun call env => ?_⟩
  cases line.instr with
  | leave hops dest => cases dest <;> rfl
  | _ => rfl

/-- What the counter machine and an action are run with, and which of them may be broken off. -/
structure Setting where
  early : Prop
  late : Prop
  program : Program
  call : Caller
  rounds : Nat

namespace Setting

variable (setting : Setting)

def run : Nat → EnvRef → Nat → Nat → Run Counter.Halt := Counter.run setting.program setting.call

def perform (action : Action) (env : EnvRef) : Run Ending := action setting.call setting.rounds env

abbrev Same {α : Type} (run other : Run α) : Prop := run.Cut setting.early setting.late other

/-- The machine is bounded by what the action is bounded by, or has what is needed. -/
def Spare (bound need fuel : Nat) : Prop :=
  (setting.early ∧ fuel ≤ bound) ∨ (setting.late ∧ need ≤ fuel)

/-- The machine goes on like the rest of the action, however the action completes. -/
structure Continues (exits : Exits) (targets : Targets) (next depth bound need : Nat)
    (rest : Ending → Run Counter.Halt) : Prop where
  normal : ∀ env fuel, setting.Spare bound need fuel →
    setting.Same (setting.run fuel env depth next) (rest ⟨.normal, env⟩)
  exit : ∀ kind label hops level, exits kind label = some (hops, level) →
    ∀ env fuel, setting.Spare bound need (fuel + 1) →
    setting.Same (Run.update (·.leave env hops) >>= fun outer =>
      setting.run fuel outer (depth - hops) (targets level kind)) (rest ⟨.exit kind label, env⟩)
  ret : ∀ env, setting.Same (Counter.stop env depth none) (rest ⟨.ret, env⟩)
  failed : ∀ env error, setting.Same (Counter.stop env depth (some error)) (rest ⟨.failed error, env⟩)

/-- From `here` on the machine does what the action does, at a cost, and goes on at `next`. -/
def Realizes (exits : Exits) (targets : Targets) (here next cost : Nat) (action : Action) : Prop :=
  ∀ depth bound need rest, bound ≤ setting.rounds →
    setting.Continues exits targets next depth bound need rest →
    ∀ env fuel, setting.Spare bound (cost + need) fuel →
      setting.Same (setting.run fuel env depth here) (setting.perform action env >>= rest)

end Setting

/-- The lines realize the action wherever they stand with their exits closed. -/
structure Means (exits : Exits) (here : Nat) (lines : List Line) (action : Action) : Prop where
  plain : ∀ line ∈ lines, line.instr.isPlain = true
  realizes : ∀ (setting : Setting) targets, setting.program.Holds targets here lines →
    ∃ cost, setting.Realizes exits targets here (here + lines.length) cost action

namespace Setting

variable {setting : Setting} {exits : Exits} {targets : Targets} {here next depth bound need fuel : Nat}
  {rest : Ending → Run Counter.Halt} {env : EnvRef}

theorem Spare.mono {wider less : Nat} (spare : setting.Spare bound need fuel) (bounds : bound ≤ wider)
    (needs : less ≤ need) : setting.Spare wider less fuel :=
  spare.imp (fun ⟨may, few⟩ => ⟨may, by omega⟩) fun ⟨may, many⟩ => ⟨may, by omega⟩

theorem Spare.pred (spare : setting.Spare bound (need + 1) (fuel + 1)) :
    setting.Spare (bound - 1) need fuel :=
  spare.imp (fun ⟨may, few⟩ => ⟨may, by omega⟩) fun ⟨may, many⟩ => ⟨may, by omega⟩

theorem Continues.mono {narrow more : Nat}
    (continues : setting.Continues exits targets next depth bound need rest) (bounds : narrow ≤ bound)
    (needs : need ≤ more) : setting.Continues exits targets next depth narrow more rest :=
  { continues with
    normal := fun env fuel spare => continues.normal env fuel (spare.mono bounds needs)
    exit := fun kind label hops level found env fuel spare =>
      continues.exit kind label hops level found env fuel (spare.mono bounds needs) }

theorem Realizes.mono {cost more : Nat} {action : Action}
    (realizes : setting.Realizes exits targets here next cost action) (less : cost ≤ more) :
    setting.Realizes exits targets here next more action :=
  fun depth bound need rest bounds continues env fuel spare =>
    realizes depth bound need rest bounds continues env fuel (spare.mono (Nat.le_refl _) (by omega))

theorem step (need : Nat) {α : Type} {instr : Instr} {part : Run α} {move : α → Move}
    {other : Except RuntimeError α → Run Counter.Halt} (does : setting.program.Does here instr)
    (acts : act setting.call env instr = part >>= fun value => pure (move value))
    (spare : setting.Spare bound (need + 1) fuel)
    (goes : ∀ less value, setting.Spare bound (need + 1) (less + 1) →
      setting.Same (Counter.follow (setting.run less) env depth here (.ok (move value)))
        (other (.ok value)))
    (fails : ∀ error, setting.Same (Counter.stop env depth (some error)) (other (.error error))) :
    setting.Same (setting.run fuel env depth here) (Run.attempt part >>= other) := by
  cases fuel with
  | zero =>
    rcases spare with ⟨may, -⟩ | ⟨-, many⟩
    · exact fun world => .early may
    · omega
  | succ less =>
    obtain ⟨instr', found, same⟩ := does
    have ran : setting.run (less + 1) env depth here =
        Run.attempt part >>= fun result => Counter.follow (setting.run less) env depth here
          (result.map move) := by
      rw [run, Counter.run, found]
      dsimp only
      rw [same, acts, Run.attempt_bind, Run.bind_assoc]
      refine Run.bind_congr fun result => ?_
      cases result <;> rfl
    rw [ran]
    refine .after _ fun result => ?_
    cases result with
    | ok value => exact goes less value spare
    | error error => exact fails error

theorem lead (need : Nat) {instr : Instr} {move : Move} {other : Run Counter.Halt}
    (does : setting.program.Does here instr) (acts : act setting.call env instr = pure move)
    (spare : setting.Spare bound (need + 1) fuel)
    (goes : ∀ less, setting.Spare bound (need + 1) (less + 1) →
      setting.Same (Counter.follow (setting.run less) env depth here (.ok move)) other) :
    setting.Same (setting.run fuel env depth here) other :=
  @step _ _ _ _ _ _ need _ _ (pure ()) (fun _ => move)
    (fun
      | .ok _ => other
      | .error error => Counter.stop env depth (some error))
    does acts spare (fun less _ spare => goes less spare) fun _ => .refl _

theorem perform_doing {α : Type} (part : Caller → EnvRef → Run α) (next : α → Action) (env : EnvRef)
    (rest : Ending → Run Counter.Halt) :
    setting.perform (Action.doing part next) env >>= rest =
      Run.attempt (part setting.call env) >>= fun
        | .ok value => setting.perform (next value) env >>= rest
        | .error error => rest ⟨.failed error, env⟩ := by
  rw [perform, Action.doing, Run.bind_assoc]
  refine Run.bind_congr fun result => ?_
  cases result <;> rfl

theorem perform_after (first : Action) (next : Completion → Action) (env : EnvRef)
    (rest : Ending → Run Counter.Halt) :
    setting.perform (first.after next) env >>= rest = setting.perform first env >>= fun ending =>
      setting.perform (next ending.completion) ending.env >>= rest := by
  rw [perform, Action.after, Run.bind_assoc]
  rfl

end Setting

theorem act_simple {instr : Instr} (simple : instr.isSimple = true) (call : Caller) (env : EnvRef) :
    act call env instr = effect instr call env >>= fun _ => pure .next := by
  cases instr <;> first | rfl | simp [InstrOf.isSimple] at simple

namespace World

theorem leave_of_outermost {world : World} {ref : EnvRef} (outermost : world.outer? ref = none)
    (hops : Nat) : world.leave ref hops = (ref, world) := by
  cases hops with
  | zero => rfl
  | succ hops => simp only [leave, outermost]

theorem leave_add (world : World) (ref : EnvRef) (hops more : Nat) :
    world.leave ref (hops + more) = (world.leave ref hops).2.leave (world.leave ref hops).1 more := by
  induction hops generalizing world ref with
  | zero => rw [Nat.zero_add]; rfl
  | succ hops ih =>
    rw [Nat.succ_add]
    cases isOuter : world.outer? ref with
    | none => rw [leave_of_outermost isOuter, leave_of_outermost isOuter, leave_of_outermost isOuter]
    | some outer =>
      simp only [leave, isOuter]
      exact ih _ outer

end World

theorem Run.leave_add {α : Type} (env : EnvRef) (hops more : Nat) (next : EnvRef → Run α) :
    Run.update (·.leave env (hops + more)) >>= next =
      Run.update (·.leave env hops) >>= fun outer => Run.update (·.leave outer more) >>= next := by
  funext world
  show next (world.leave env (hops + more)).1 (world.leave env (hops + more)).2 = _
  rw [World.leave_add]
  rfl

theorem Counter.stop_succ (env : EnvRef) (depth : Nat) (failure : Option RuntimeError) :
    Counter.stop env (depth + 1) failure =
      Run.update (·.leave env 1) >>= fun outer => Counter.stop outer depth failure := by
  rw [Counter.stop, Nat.add_comm, Run.leave_add]
  rfl

namespace Means

variable {exits : Exits} {here : Nat} {lines first second : List Line} {action other : Action}

theorem nil (exits : Exits) (here : Nat) : Means exits here [] .skip where
  plain := by simp
  realizes setting targets _ := ⟨0, fun depth bound need rest _ continues env fuel spare =>
    continues.normal env fuel (spare.mono (Nat.le_refl _) (by omega))⟩

theorem append (left : Means exits here first action)
    (right : Means exits (here + first.length) second other) :
    Means exits here (first ++ second) (action.andThen other) where
  plain := List.forall_mem_append.mpr ⟨left.plain, right.plain⟩
  realizes setting targets holds := by
    obtain ⟨cost, does⟩ := left.realizes setting targets holds.left
    obtain ⟨more, goesOn⟩ := right.realizes setting targets holds.right
    refine ⟨cost + more, fun depth bound need rest bounds continues env fuel spare => ?_⟩
    rw [List.length_append, ← Nat.add_assoc] at continues
    rw [Action.andThen, Setting.perform_after]
    have later := continues.mono (Nat.le_refl bound) (Nat.le_add_left need more)
    refine does depth bound (more + need) _ bounds ?_ env fuel (spare.mono (Nat.le_refl _) (by omega))
    exact ⟨goesOn depth bound need rest bounds continues, later.exit, later.ret, later.failed⟩

theorem effect {instr : Instr} (simple : instr.isSimple = true) (exits : Exits) (here : Nat)
    (span : Span) :
    Means exits here [⟨instr, span⟩] (.effect (MiniGo.effect instr)) where
  plain := by
    rw [List.forall_mem_singleton]
    revert simple
    cases instr <;> simp [InstrOf.isSimple, InstrOf.isPlain]
  realizes setting targets holds := by
    refine ⟨1, fun depth bound need rest bounds continues env fuel spare => ?_⟩
    have closed : instr.under targets = instr := by
      revert simple
      cases instr <;> simp [InstrOf.isSimple, InstrOf.under]
    have stands := closed ▸ holds.head
    rw [Action.effect, Setting.perform_doing]
    exact Setting.step need stands (act_simple simple setting.call env) (Nat.add_comm 1 need ▸ spare)
      (fun less _ spare => continues.normal env less (spare.pred.mono (Nat.sub_le _ _) (Nat.le_refl _)))
      fun error => continues.failed env error

theorem halting (exits : Exits) (here : Nat) (span : Span) :
    Means exits here [⟨.interrupt .ret, span⟩] (.stop .ret) where
  plain := by simp [InstrOf.isPlain]
  realizes setting targets holds := ⟨1, fun depth bound need rest _ continues env fuel spare =>
    Setting.lead need holds.head rfl (Nat.add_comm 1 need ▸ spare) fun _ _ => continues.ret env⟩

theorem returning (exits : Exits) (here hops : Nat) (results : List Slot) (values : Values)
    (span : Span) :
    Means exits here [⟨.ret hops results values, span⟩] (.returning hops results values) where
  plain := by simp [InstrOf.isPlain]
  realizes setting targets holds := by
    refine ⟨1, fun depth bound need rest _ continues env fuel spare => ?_⟩
    rw [Action.returning, Setting.perform_doing]
    exact Setting.step need holds.head rfl (Nat.add_comm 1 need ▸ spare)
      (fun _ _ _ => continues.ret env) fun error => continues.failed env error

theorem exit {kind : ExitKind} {label : Option String} {hops level : Nat}
    (found : exits kind label = some (hops, level)) (here : Nat) (span : Span) :
    Means exits here [⟨.leave hops (.exit level kind), span⟩] (.stop (.exit kind label)) where
  plain := by simp [InstrOf.isPlain]
  realizes setting targets holds := ⟨1, fun depth bound need rest _ continues env fuel spare =>
    Setting.lead need holds.head rfl (Nat.add_comm 1 need ▸ spare) fun less spare =>
      continues.exit kind label hops level found env less (spare.mono (Nat.le_refl _) (by omega))⟩

theorem enclosed {objects words : Nat} {span : Span}
    (inner : Means (exits.inside 1) (here + 1) lines action) :
    Means exits here ([⟨.push objects words, span⟩] ++ lines ++ [⟨.pop, span⟩])
      (.enclosed objects words action) where
  plain := by
    simp only [List.forall_mem_append, List.forall_mem_singleton]
    exact ⟨⟨rfl, inner.plain⟩, rfl⟩
  realizes setting targets holds := by
    obtain ⟨cost, does⟩ := inner.realizes setting targets holds.left.tail
    have pops := holds.right.head
    refine ⟨cost + 2, fun depth bound need rest bounds continues env fuel spare => ?_⟩
    simp only [List.length_append, List.length_singleton, ← Nat.add_assoc] at continues pops
    refine Setting.lead (cost + (need + 1)) holds.left.head rfl
      (spare.mono (Nat.le_refl _) (by omega)) fun less spare => ?_
    have performed : setting.perform (.enclosed objects words action) env >>= rest =
        Run.update (·.push env objects words) >>= fun inner => Run.modify (·.drop env) >>= fun _ =>
          setting.perform action inner >>= fun ending => Run.update (·.leave ending.env 1) >>=
            fun outer => rest ⟨ending.completion, outer⟩ := by
      simp only [Setting.perform, Action.enclosed, Run.bind_assoc]
      rfl
    rw [performed]
    refine .after _ fun env => .after _ fun _ => does (depth + 1) bound (need + 1) _ bounds
      ⟨fun env fuel spare => ?_, fun kind label hops level found env fuel spare => ?_, fun env => ?_,
        fun env error => ?_⟩ env less (spare.pred.mono (Nat.sub_le _ _) (Nat.le_refl _))
    · refine Setting.lead need pops rfl spare fun less spare => .after _ fun outer => ?_
      exact continues.normal outer less (spare.pred.mono (Nat.sub_le _ _) (Nat.le_refl _))
    · obtain ⟨⟨more, level⟩, isOuter, same⟩ := Option.map_eq_some_iff.mp found
      obtain ⟨rfl, rfl⟩ := Prod.mk.inj same
      rw [Run.leave_add, Nat.add_comm 1 more, Nat.add_sub_add_right]
      exact .after _ fun outer => continues.exit kind label more level isOuter outer fuel
        (spare.mono (Nat.le_refl _) (Nat.le_succ _))
    · rw [Counter.stop_succ]
      exact .after _ fun outer => continues.ret outer
    · rw [Counter.stop_succ]
      exact .after _ fun outer => continues.failed outer error

theorem choose_or_skip {cond : Code} {span : Span} (yes : Means exits (here + 1) lines action) :
    Means exits here ([⟨.jumpUnless cond (here + 1 + lines.length), span⟩] ++ lines)
      (.choose (.code cond) action .skip) where
  plain := List.forall_mem_cons.mpr ⟨rfl, yes.plain⟩
  realizes setting targets holds := by
    obtain ⟨cost, does⟩ := yes.realizes setting targets holds.tail
    refine ⟨cost + 1, fun depth bound need rest bounds continues env fuel spare => ?_⟩
    rw [List.length_append, List.length_singleton, ← Nat.add_assoc] at continues
    rw [Action.choose, Setting.perform_doing]
    refine Setting.step (cost + need) holds.head rfl (spare.mono (Nat.le_refl _) (by omega))
      (fun less truth spare => ?_) fun error => continues.failed env error
    cases truth with
    | true =>
      exact does depth bound need rest bounds continues env less
        (spare.pred.mono (Nat.sub_le _ _) (Nat.le_refl _))
    | false => exact continues.normal env less (spare.pred.mono (Nat.sub_le _ _) (by omega))

theorem choose {cond : Code} {span condSpan : Span} (yes : Means exits (here + 1) first action)
    (no : Means exits (here + 1 + first.length + 1) second other) :
    Means exits here ([⟨.jumpUnless cond (here + 1 + first.length + 1), condSpan⟩] ++ first ++
      [⟨.goto (here + 1 + first.length + 1 + second.length), span⟩] ++ second)
      (.choose (.code cond) action other) where
  plain := by
    simp only [List.forall_mem_append, List.forall_mem_singleton]
    exact ⟨⟨⟨rfl, yes.plain⟩, rfl⟩, no.plain⟩
  realizes setting targets holds := by
    obtain ⟨cost, does⟩ := yes.realizes setting targets holds.left.left.tail
    have jumps := holds.left.right.head
    have otherwise := holds.right
    simp only [List.length_append, List.length_singleton, ← Nat.add_assoc] at jumps otherwise
    obtain ⟨more, doesOther⟩ := no.realizes setting targets otherwise
    refine ⟨cost + more + 2, fun depth bound need rest bounds continues env fuel spare => ?_⟩
    simp only [List.length_append, List.length_singleton, ← Nat.add_assoc] at continues
    rw [Action.choose, Setting.perform_doing]
    refine Setting.step (cost + more + 1 + need) holds.left.left.head rfl
      (spare.mono (Nat.le_refl _) (by omega)) (fun less truth spare => ?_)
      fun error => continues.failed env error
    have spare := spare.pred.mono (Nat.sub_le _ _) (Nat.le_refl _)
    cases truth with
    | true =>
      have later := continues.mono (Nat.le_refl bound) (Nat.le_succ need)
      refine does depth bound (need + 1) rest bounds ⟨fun env fuel spare => ?_, later.exit, later.ret,
        later.failed⟩ env less (spare.mono (Nat.le_refl _) (by omega))
      exact Setting.lead need jumps rfl spare fun less spare => continues.normal env less
        (spare.pred.mono (Nat.sub_le _ _) (Nat.le_refl _))
    | false =>
      exact doesOther depth bound need rest bounds continues env less
        (spare.mono (Nat.le_refl _) (by omega))

theorem choose_const {value : Bool} (yes : value = true → Means exits here lines action)
    (no : value = false → Means exits here lines other) :
    Means exits here lines (.choose (.const value) action other) := by
  cases value with
  | true => exact yes rfl
  | false => exact no rfl

end Means

end MiniGo
