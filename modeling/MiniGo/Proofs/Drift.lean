import MiniGo.Proofs.Lockstep
import MiniGo.Proofs.Updates
/-!
Positions that no one reads. An environment holds the position of the code that runs in it. Two states
that differ in the positions of some environments lead to the same, as long as the code that runs is at
the same position in both: an environment is entered, jumped in or returned to, and each of these sets
its position.
-/

namespace MiniGo

def Env.unplaced (env : Env) : Env := { env with ip := 0 }

namespace World

def unplaced (world : World) : World := { world with envs := world.envs.map Env.unplaced }

variable {world before after : World}

theorem env?_unplaced (ref : EnvRef) : world.unplaced.env? ref = (world.env? ref).map Env.unplaced := by
  simp [env?, unplaced]

theorem updateEnv_unplaced (ref : EnvRef) {change placeless : Env → Env}
    (same : ∀ env, placeless env.unplaced = (change env).unplaced) :
    world.unplaced.updateEnv ref placeless = (world.updateEnv ref change).unplaced := by
  have envs : (world.envs.map Env.unplaced).modify ref.index placeless =
      (world.envs.modify ref.index change).map Env.unplaced := by
    apply Array.ext_getElem?
    intro index
    simp only [Array.getElem?_modify, Array.getElem?_map]
    by_cases here : ref.index = index
    · simp only [here, if_true, Option.map_map]
      congr 1
      funext env
      exact same env
    · simp [here]
  simp only [updateEnv, unplaced, envs]

theorem setIp_unplaced (ref : EnvRef) (position : Nat) :
    (world.setIp ref position).unplaced = world.unplaced := by
  have unmoved : world.unplaced.updateEnv ref id = world.unplaced := by
    have envs : world.unplaced.envs.modify ref.index id = world.unplaced.envs := by
      apply Array.ext_getElem?
      intro index
      simp [Array.getElem?_modify]
    rw [updateEnv, envs]
  have moved : world.unplaced.updateEnv ref id = (world.setIp ref position).unplaced :=
    updateEnv_unplaced ref fun _ => rfl
  rw [← moved, unmoved]

theorem outer?_unplaced (ref : EnvRef) : world.unplaced.outer? ref = world.outer? ref := by
  simp only [outer?, env?_unplaced]
  cases world.env? ref <;> rfl

theorem threadOf_unplaced (ref : EnvRef) : world.unplaced.threadOf ref = world.threadOf ref := by
  simp only [threadOf, env?_unplaced]
  cases world.env? ref <;> rfl

theorem load_unplaced (ref : EnvRef) (slot : Slot) :
    world.unplaced.load ref slot = world.load ref slot := by
  simp only [load, env?_unplaced]
  cases world.env? ref <;> rfl

theorem up_unplaced (ref : EnvRef) (hops : Nat) : world.unplaced.up ref hops = world.up ref hops := by
  induction hops generalizing ref with
  | zero => rfl
  | succ hops ih =>
    simp only [up, outer?_unplaced]
    cases world.outer? ref with
    | none => rfl
    | some outer => exact ih outer

theorem dropWithin_unplaced (ref : EnvRef) (depth : Nat) :
    dropWithin ref world.unplaced depth = (dropWithin ref world depth).unplaced := by
  induction depth generalizing world ref with
  | zero => rfl
  | succ depth ih =>
    have given : (world.unplaced.updateEnv ref fun env => { env with holders := env.holders - 1 }) =
        (world.updateEnv ref fun env => { env with holders := env.holders - 1 }).unplaced :=
      updateEnv_unplaced ref fun _ => rfl
    simp only [dropWithin, env?_unplaced, given]
    cases world.env? ref with
    | none => rfl
    | some env =>
      simp only [Option.map_some, Env.unplaced]
      cases env.outer with
      | none => rfl
      | some outer =>
        dsimp only
        split
        · exact ih outer
        · rfl

theorem drop_unplaced (ref : EnvRef) : world.unplaced.drop ref = (world.drop ref).unplaced :=
  dropWithin_unplaced ref _

theorem recycle_unplaced (thread : ThreadRef) (ref : EnvRef) :
    world.unplaced.recycle thread ref = (world.recycle thread ref).unplaced := by
  simp only [recycle, env?_unplaced]
  cases world.env? ref with
  | none => rfl
  | some env =>
    simp only [Option.map_some, ← drop_unplaced]
    congr 1
    show ite (_ = true) _ _ = _
    rw [apply_ite World.unplaced]
    rfl

theorem write_unplaced (text : String) : world.unplaced.write text = (world.write text).unplaced := by
  unfold write
  rw [apply_ite World.unplaced]
  rfl

theorem retain_unplaced (ref : EnvRef) : world.unplaced.retain ref = (world.retain ref).unplaced :=
  updateEnv_unplaced ref fun _ => rfl

theorem releaseTo_unplaced (ref outer : EnvRef) :
    world.unplaced.releaseTo ref outer = (world.releaseTo ref outer).unplaced := by
  simp only [releaseTo, release, threadOf_unplaced, retain_unplaced]
  exact @recycle_unplaced { world.retain outer with exited := ref :: world.exited } _ ref

theorem leave_unplaced (ref : EnvRef) (hops : Nat) :
    world.unplaced.leave ref hops = ((world.leave ref hops).1, (world.leave ref hops).2.unplaced) := by
  induction hops generalizing world ref with
  | zero => rfl
  | succ hops ih =>
    simp only [leave, outer?_unplaced]
    cases world.outer? ref with
    | none => rfl
    | some outer =>
      simp only [releaseTo_unplaced]
      exact ih outer

theorem pop_unplaced (ref : EnvRef) :
    ((world.pop ref).1, (world.pop ref).2.unplaced) = world.unplaced.leave ref 1 := by
  simp only [pop, leave, outer?_unplaced]
  cases world.outer? ref with
  | none => rfl
  | some outer => simp only [← releaseTo_unplaced, setIp_unplaced]

theorem unwindWithin_unplaced (root ref : EnvRef) (depth : Nat) :
    unwindWithin root ref world.unplaced depth =
      ((unwindWithin root ref world depth).1, (unwindWithin root ref world depth).2.unplaced) := by
  induction depth generalizing world ref with
  | zero => rfl
  | succ depth ih =>
    simp only [unwindWithin, outer?_unplaced]
    split
    · rfl
    · cases world.outer? ref with
      | none => rfl
      | some outer =>
        simp only [releaseTo_unplaced]
        exact ih outer

theorem unwind_unplaced (root ref : EnvRef) : world.unplaced.unwind root ref =
    ((world.unwind root ref).1, (world.unwind root ref).2.unplaced) :=
  unwindWithin_unplaced root ref _

theorem size_unplaced : world.unplaced.envs.size = world.envs.size := by simp [unplaced]

theorem added_unplaced (env : Env) :
    ({ world.unplaced with envs := world.unplaced.envs.push env.unplaced } : World) =
      ({ world with envs := world.envs.push env } : World).unplaced := by
  simp [unplaced]

theorem acquire_unplaced (thread : ThreadRef) (outer : Option EnvRef) (program : Program)
    (ip objects words : Nat) : world.unplaced.acquire thread outer program 0 objects words =
      ((world.acquire thread outer program ip objects words).1,
        (world.acquire thread outer program ip objects words).2.unplaced) := by
  let taken := world.updateThread thread ({ · with pool := (world.thread thread).pool.tail })
  let env : Env := ⟨((world.thread thread).pool.headD {}).resize objects words, ip, program, outer,
    thread, 1⟩
  cases outer with
  | none => exact Prod.ext (congrArg EnvRef.mk size_unplaced) (@added_unplaced taken env)
  | some outer =>
    have retained := @retain_unplaced taken outer
    refine Prod.ext (congrArg EnvRef.mk ?_) ?_
    · exact (congrArg (·.envs.size) retained).trans size_unplaced
    · exact (congrArg (fun world : World => { world with envs := world.envs.push env.unplaced })
        retained).trans (added_unplaced env)

theorem push_unplaced (ref : EnvRef) (objects words : Nat) : world.unplaced.push ref objects words =
    ((world.push ref objects words).1, (world.push ref objects words).2.unplaced) := by
  simp only [push, env?_unplaced]
  cases world.env? ref with
  | none => rfl
  | some env =>
    simp only [Option.map_some, size_unplaced]
    exact @acquire_unplaced { world with entered := ⟨world.envs.size⟩ :: world.entered } env.thread
      (some ref) env.program env.ip objects words

theorem Leaves.ip (leaves : before.Leaves after) (ref : EnvRef) : after.ip ref = before.ip ref := by
  obtain ⟨refs, alike⟩ := leaves
  cases found : before.env? ref with
  | some env => exact @Alike.ip { before with exited := refs ++ before.exited } _ _ env alike found
  | none =>
    have outside : before.envs.size ≤ ref.index := by simpa [World.env?] using found
    have still : after.env? ref = none := by simpa [World.env?, alike.size] using outside
    simp only [World.ip, found, still]

theorem Alike.ip_eq (alike : before.Alike after) (ref : EnvRef) : after.ip ref = before.ip ref :=
  Leaves.ip ⟨[], alike⟩ ref

theorem ip_setIp_of_ne {ref other : EnvRef} (position : Nat) (differs : other ≠ ref) :
    (world.setIp ref position).ip other = world.ip other := by
  simp [World.ip, setIp, env?_updateEnv, differs]

theorem ip_acquire (thread : ThreadRef) (outer : Option EnvRef) (program : Program)
    (ip objects words : Nat) (ref : EnvRef) :
    (world.acquire thread outer program ip objects words).2.ip ref =
      if ref = ⟨world.envs.size⟩ then ip else world.ip ref := by
  obtain ⟨middle, alike, same⟩ := world.acquire_spec thread outer program ip objects words
  have old := alike.ip_eq ref
  simp only [World.ip, same, env?_push, alike.size] at old ⊢
  by_cases new : ref = ⟨world.envs.size⟩
  · simp only [new, if_true]
  · simpa only [new, if_false] using old

end World

/-- The states differ in positions only, and not in those of some environments. -/
structure World.Drift (fixed : EnvRef → Prop) (left right : World) : Prop where
  unplaced : left.unplaced = right.unplaced
  ip : ∀ env, fixed env → left.ip env = right.ip env

namespace World.Drift

variable {fixed : EnvRef → Prop} {left right : World}

theorem reads {α : Type} (drift : Drift fixed left right) (view : World → α)
    (unseen : ∀ world, view world.unplaced = view world) : view left = view right := by
  rw [← unseen, drift.unplaced, unseen]

theorem size (drift : Drift fixed left right) : left.envs.size = right.envs.size :=
  drift.reads (·.envs.size) fun _ => size_unplaced

theorem change (drift : Drift fixed left right) (change : World → World)
    (unseen : ∀ world, change world.unplaced = (change world).unplaced)
    (unmoved : ∀ world env, (change world).ip env = world.ip env) :
    Drift fixed (change left) (change right) where
  unplaced := by rw [← unseen, drift.unplaced, unseen]
  ip env isFixed := by rw [unmoved, unmoved, drift.ip env isFixed]

theorem env? (drift : Drift fixed left right) {env : EnvRef} (isFixed : fixed env) :
    left.env? env = right.env? env := by
  have found := congrArg (World.env? · env) drift.unplaced
  have position := drift.ip env isFixed
  simp only [env?_unplaced, World.ip] at found position
  cases isLeft : left.env? env <;> cases isRight : right.env? env <;>
    simp only [isLeft, isRight, Option.map_some, Option.map_none, Option.some.injEq, reduceCtorEq]
      at found position ⊢
  rename_i first second
  cases first
  cases second
  simp_all [Env.unplaced]

theorem instr (drift : Drift fixed left right) {env : EnvRef} (isFixed : fixed env) :
    left.instr? env = right.instr? env := by
  simp only [World.instr?, drift.env? isFixed]

theorem setIp (drift : Drift fixed left right) (env : EnvRef) (position : Nat) :
    Drift (fun other => fixed other ∨ other = env) (left.setIp env position)
      (right.setIp env position) where
  unplaced := by rw [setIp_unplaced, setIp_unplaced, drift.unplaced]
  ip other isFixed := by
    by_cases same : other = env
    · subst same
      have found := congrArg (World.env? · other) drift.unplaced
      simp only [env?_unplaced] at found
      simp only [World.ip, World.setIp, env?_updateEnv, if_true]
      cases isLeft : left.env? other <;> cases isRight : right.env? other <;>
        simp_all
    · rw [ip_setIp_of_ne position same, ip_setIp_of_ne position same]
      exact drift.ip other (isFixed.resolve_right same)

theorem acquire (drift : Drift fixed left right) (thread : ThreadRef) (outer : Option EnvRef)
    (program : Program) (ip objects words : Nat) :
    (left.acquire thread outer program ip objects words).1 =
      (right.acquire thread outer program ip objects words).1 ∧
    Drift (fun other => fixed other ∨ other = (left.acquire thread outer program ip objects words).1)
      (left.acquire thread outer program ip objects words).2
      (right.acquire thread outer program ip objects words).2 := by
  have both := congrArg (World.acquire · thread outer program 0 objects words) drift.unplaced
  simp only [acquire_unplaced thread outer program ip, Prod.mk.injEq] at both
  refine ⟨both.1, both.2, fun other isFixed => ?_⟩
  rw [ip_acquire, ip_acquire, drift.size]
  split
  · rfl
  · rename_i differs
    obtain ⟨_, _, same⟩ := left.acquire_spec thread outer program ip objects words
    rw [same, drift.size] at isFixed
    exact drift.ip other (isFixed.resolve_right differs)

theorem push (drift : Drift fixed left right) {env : EnvRef} (isFixed : fixed env)
    (objects words : Nat) :
    (left.push env objects words).1 = (right.push env objects words).1 ∧
    Drift (fun other => fixed other ∨ other = (left.push env objects words).1)
      (left.push env objects words).2 (right.push env objects words).2 := by
  unfold World.push
  rw [drift.env? isFixed]
  cases right.env? env with
  | none =>
    refine ⟨rfl, drift.unplaced, fun other known => ?_⟩
    rcases known with known | rfl
    · exact drift.ip other known
    · exact drift.ip _ isFixed
  | some found =>
    have entered : Drift fixed { left with entered := ⟨left.envs.size⟩ :: left.entered }
        { right with entered := ⟨left.envs.size⟩ :: right.entered } :=
      ⟨congrArg (fun world : World => { world with entered := ⟨left.envs.size⟩ :: world.entered })
        drift.unplaced, drift.ip⟩
    simp only [← drift.size]
    exact entered.acquire _ _ _ _ _ _

theorem pop (drift : Drift fixed left right) {env : EnvRef} (isFixed : fixed env) :
    (left.pop env).1 = (right.pop env).1 ∧
    Drift (fun other => fixed other ∨ other = (left.pop env).1) (left.pop env).2 (right.pop env).2 := by
  have outer : left.outer? env = right.outer? env :=
    drift.reads (·.outer? env) fun _ => outer?_unplaced env
  have same : left.ip env = right.ip env := drift.ip env isFixed
  unfold World.pop
  rw [outer, same]
  cases right.outer? env with
  | none =>
    refine ⟨rfl, drift.unplaced, fun other known => ?_⟩
    rcases known with known | rfl
    · exact drift.ip other known
    · exact same
  | some outer =>
    refine ⟨rfl, ?_⟩
    exact (drift.setIp outer (right.ip env)).change _ (fun _ => releaseTo_unplaced env outer)
      fun world ref => Leaves.ip ⟨[env], alike_releaseTo world env outer⟩ ref

end World.Drift

def Comparison.drifting (early late : Prop) : Comparison where
  State := EnvRef → Prop
  goes before after := ∀ env, before env → after env
  waits before after := after = before
  holds := World.Drift
  early := early
  late := late
  refl _ _ := id
  trans first second env known := second env (first env known)

namespace Comparison

variable {early late : Prop}

theorem drifting_reads {α : Type} {view : World → α}
    (unseen : ∀ world, view world.unplaced = view world) : (drifting early late).Reads view :=
  fun _ _ _ drift => drift.reads view unseen

theorem drifting_keeps {change : World → World}
    (unseen : ∀ world, change world.unplaced = (change world).unplaced)
    (unmoved : ∀ world env, (change world).ip env = world.ip env) :
    (drifting early late).Keeps change :=
  fun _ _ _ drift => drift.change change unseen unmoved

end Comparison

open Comparison in
/-- Both runs are at the same position in the environments that are known not to have drifted. -/
def Lockstep.drifting (early late : Prop) : Lockstep where
  toComparison := .drifting early late
  poised fixed env := fixed env
  poised_goes grows := grows _
  poised_waits same known := same ▸ known
  heap := drifting_reads fun _ => rfl
  exchange := drifting_reads fun _ => rfl
  up env hops := drifting_reads fun _ => World.up_unplaced env hops
  load env slot := drifting_reads fun _ => World.load_unplaced env slot
  threadOf env := drifting_reads fun _ => World.threadOf_unplaced env
  setHeap _ := drifting_keeps (fun _ => rfl) fun _ _ => rfl
  setExchange _ := drifting_keeps (fun _ => rfl) fun _ _ => rfl
  write text := drifting_keeps (fun world => World.write_unplaced text)
    fun world => (world.alike_write text).ip_eq
  store env slot value := drifting_keeps (fun _ => World.updateEnv_unplaced env fun _ => rfl)
    fun world other => world.ip_store env other slot value
  retain env := drifting_keeps (fun _ => World.retain_unplaced env)
    fun world => (world.alike_retain env).ip_eq
  drop env := drifting_keeps (fun _ => World.drop_unplaced env)
    fun world => (world.alike_drop env).ip_eq
  recycle thread env := drifting_keeps (fun _ => World.recycle_unplaced thread env)
    fun world => (world.alike_recycle thread env).ip_eq
  leave env hops := ⟨drifting_reads fun world => by rw [World.leave_unplaced],
    drifting_keeps (fun world => by rw [World.leave_unplaced])
      fun world => (world.leaves_leave env hops).ip⟩
  unwind root env := ⟨drifting_reads fun world => by rw [World.unwind_unplaced],
    drifting_keeps (fun world => by rw [World.unwind_unplaced])
      fun world => (world.leaves_unwindWithin root env _).ip⟩
  thread _ _ _ := drifting_reads fun _ => rfl
  updateThread _ _ _ := drifting_keeps (fun _ => rfl) fun _ _ => rfl
  spawnThread _ := ⟨drifting_reads fun _ => rfl, drifting_keeps (fun _ => rfl) fun _ _ => rfl⟩
  spawn _ := drifting_keeps (fun _ => rfl) fun _ _ => rfl
  ip drift known := ⟨drift.ip _ known, drift.instr known⟩
  setIp env position drift := ⟨_, fun _ => .inl, drift.setIp env position, .inr rfl⟩
  acquire thread outer program ip objects words drift :=
    (drift.acquire thread outer program ip objects words).imp_right
      fun drift => ⟨_, fun _ => .inl, drift, .inr rfl⟩
  push objects words drift known := (drift.push known objects words).imp_right
    fun drift => ⟨_, fun _ => .inl, drift, .inr rfl⟩
  pop drift known := (drift.pop known).imp_right fun drift => ⟨_, fun _ => .inl, drift, .inr rfl⟩

/-- A function of the host that does the same whatever positions environments have. -/
def HostFunction.Unplaced (function : HostFunction) : Prop :=
  ∀ {early late : Prop} (call other : Caller), (Comparison.drifting early late).Calls call other →
    ∀ thread args,
      (Comparison.drifting early late).Alike (function call thread args) (function other thread args)

namespace HostFunction

open Comparison.Alike

theorem echo_unplaced : echo.Unplaced := fun _ _ _ _ _ => .pure _

theorem values_unplaced (results : List Value) : (values results).Unplaced := fun _ _ _ _ _ => .pure _

theorem failing_unplaced (error : RuntimeError) : (failing error).Unplaced := fun _ _ _ _ _ => .fail _

theorem double_unplaced : double.Unplaced := by
  intro early late call other calls thread args
  cases args with
  | nil => exact .pure _
  | cons value rest => exact (ofExcept _).bind fun _ => .pure _

theorem log_unplaced : log.Unplaced := by
  intro early late call other calls thread args
  refine (modify (Comparison.drifting_keeps (fun world => ?_) fun world env => ?_)).bind
    fun _ => .pure _
  · induction args generalizing world with
    | nil => rfl
    | cons value rest ih =>
      have same : world.unplaced.text value = world.text value := rfl
      simp only [List.foldl_cons, same, World.write_unplaced]
      exact ih _
  · induction args generalizing world with
    | nil => rfl
    | cons value rest ih => exact (ih _).trans ((world.alike_write _).ip_eq env)

theorem callFirst_unplaced (spread : Bool) : (callFirst spread).Unplaced :=
  fun _ _ calls thread _ => calls thread _

end HostFunction

theorem Machine.call_drifts {host : Host} (natives : ∀ native ∈ host, HostFunction.Unplaced native)
    {early late : Prop} {fuel less : Nat} (fuels : (Comparison.drifting early late).Fuels fuel less) :
    (Comparison.drifting early late).Calls (call host fuel) (call host less) :=
  (@Lockstep.call_alike (.drifting early late) host
    (fun native member _ _ _ calls => natives native member _ _ calls) _ _ fuels).1

end MiniGo
