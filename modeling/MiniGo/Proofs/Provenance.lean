import MiniGo.Proofs.Aliasing
import MiniGo.Proofs.Parallel
/-!
What running code does with slices is deeds: it makes them, stores them, reads them and passes them on,
and wherever it ends, deeds have led there. So slices behave in running code as they do in deeds.
-/

namespace MiniGo

open Relation (ReflTransGen)

variable [Natives] {α β : Type} {task : ThreadRef} {stuck : Prop}

theorem Value.eq_of_items? {shape : Shape True} {first second : Value} {ref : SliceRef}
    (isFirst : first.Known shape) (isSecond : second.Known shape) (refers : first.items? = some ref)
    (refers' : second.items? = some ref) : first = second := by
  obtain ⟨elem, rfl⟩ := Value.eq_slice_of_items? refers
  obtain ⟨elem', rfl⟩ := Value.eq_slice_of_items? refers'
  have same : shape.slice ref = some elem := isFirst
  have same' : shape.slice ref = some elem' := isSecond
  rw [Option.some.inj (same.symm.trans same')]

namespace Stage

variable {stage next : Stage} {run : Run α} {post wider : Stage → Except RuntimeError α → Prop}

/-- Deeds have led from one stage to another. What has been held still is, and what is recorded of a
place, if it holds what it held. -/
structure Reaches (stage next : Stage) : Prop where
  deeds : ReflTransGen Deed stage next
  held : ∀ held ∈ stage.held, held ∈ next.held
  places : ∀ place ∈ stage.places,
    place.1.content next.config.world = place.1.content stage.config.world → place ∈ next.places

def Has (stage : Stage) (value : Value) : Prop :=
  ∀ ref, value.items? = some ref → ∃ held ∈ stage.held, held.value = value

/-- A computation of a task: wherever it ends, deeds have led there. It runs out of fuel only if `stuck`
holds. -/
def Follows (stage : Stage) (task : ThreadRef) (stuck : Prop) (run : Run α)
    (post : Stage → Except RuntimeError α → Prop) : Prop :=
  (run stage.config.world).Attains task stuck (fun later result =>
    ∃ next : Stage, next.config = later ∧ ReflTransGen Deed stage next ∧ post next result) stage.config

theorem reaches_after {later : Config True} (leads : stage.config.Leads later) :
    stage.Reaches (stage.after later) :=
  ⟨.single (.goes leads), fun _ member => member, fun _ isPlace same => mem_kept.mpr ⟨isPlace, same⟩⟩

namespace Follows

theorem of_meets {wanted : Config True → α → Prop}
    (meets : run.Meets stage.config.measured task 0 wanted)
    (ends : ∀ later result, stage.config.Leads later →
      (run stage.config.world).Finishes (Config.Others True task) result later.world →
      stage.config.Ends task 0 wanted later result →
      ∃ next : Stage, next.config = later ∧ ReflTransGen Deed stage next ∧ post next result) :
    stage.Follows task ((run stage.config.world).Exhausts (Config.Others True task)) run post :=
  ((Outcome.Safe.attains (Run.Meets.leads meets)).finishes).mono id
    fun later result ⟨finishes, leads, found⟩ => ends later result leads finishes found

theorem of_done {wanted : Config True → α → Prop} {value : α} {world : World}
    (meets : run.Meets stage.config.measured task 0 wanted)
    (ran : run stage.config.world = .done value world)
    (ends : ∀ later, later.world = world → stage.config.Leads later →
      stage.config.Since task 0 later → later.Quiet task → wanted later value →
      ∃ next : Stage, next.config = later ∧ ReflTransGen Deed stage next ∧ post next (.ok value)) :
    stage.Follows task stuck run post := by
  have safe := Run.Meets.leads meets
  unfold Follows
  rw [ran] at safe ⊢
  obtain ⟨now, same, advances, leads, since, quiet, holds⟩ := safe
  exact ⟨now, same, advances, ends now same leads since quiet holds⟩

theorem of_ended (result : Except RuntimeError α)
    (ran : run stage.config.world = Run.ofExcept result stage.config.world) (ends : post stage result) :
    stage.Follows task stuck run post := by
  unfold Follows
  rw [ran]
  cases result <;> exact ⟨stage.config, rfl, .refl _ _, stage, rfl, .refl, ends⟩

theorem mono (follows : stage.Follows task stuck run post)
    (implies : ∀ next result, post next result → wider next result) :
    stage.Follows task stuck run wider :=
  Outcome.Attains.mono follows id fun _ _ ⟨next, same, deeds, ends⟩ =>
    ⟨next, same, deeds, implies next _ ends⟩

theorem sooner {middle : Stage} (follows : middle.Follows task stuck run post)
    (deeds : ReflTransGen Deed stage middle) (same : middle.config = stage.config) :
    stage.Follows task stuck run post := by
  unfold Follows at follows ⊢
  rw [← same]
  exact follows.mono id fun _ _ ⟨next, isNext, more, ends⟩ => ⟨next, isNext, deeds.trans more, ends⟩

theorem bind {finish : α → Run β} {second : Stage → Except RuntimeError β → Prop}
    (follows : stage.Follows task stuck run post)
    (goes : ∀ next value, ReflTransGen Deed stage next → post next (.ok value) →
      next.Follows task stuck (finish value) second)
    (fails : ∀ next error, post next (.error error) → second next (.error error)) :
    stage.Follows task stuck (run >>= finish) second := by
  show (Run.bind run finish stage.config.world).Attains _ _ _ _
  rw [Run.bind_apply]
  refine Outcome.Attains.bind follows ?_ ?_
  · rintro now value ⟨next, rfl, deeds, ends⟩
    refine Outcome.Attains.mono (goes next value deeds ends) id fun later result found => ?_
    obtain ⟨last, same, more, ends⟩ := found
    exact ⟨last, same, deeds.trans more, ends⟩
  · rintro now error ⟨next, same, deeds, ends⟩
    exact ⟨next, same, deeds, fails next error ends⟩

theorem after {operands : Run α} {finish : α → Run β} {wanted : Config True → α → Prop}
    {second : Stage → Except RuntimeError β → Prop}
    (meets : operands.Meets stage.config.measured task 0 wanted)
    (goes : ∀ later value, stage.config.Leads later → later.Quiet task → wanted later value →
      (operands stage.config.world).Finishes (Config.Others True task) (.ok value) later.world →
      (stage.after later).Follows task False (finish value) second)
    (fails : ∀ later error, stage.config.Leads later →
      (operands stage.config.world).Finishes (Config.Others True task) (.error error) later.world →
      second (stage.after later) (.error error)) :
    stage.Follows task ((operands stage.config.world).Exhausts (Config.Others True task))
      (operands >>= finish) second := by
  show (Run.bind operands finish stage.config.world).Attains _ _ _ _
  rw [Run.bind_apply]
  refine Outcome.Attains.bind (Outcome.Safe.attains (Run.Meets.leads meets)).finishes ?_ ?_
  · rintro now value ⟨finishes, leads, -, quiet, holds⟩
    refine Outcome.Attains.mono (goes now value leads quiet holds finishes) False.elim
      fun later result found => ?_
    obtain ⟨next, same, deeds, ends⟩ := found
    exact ⟨next, same, (reaches_after leads).deeds.trans deeds, ends⟩
  · rintro now error ⟨finishes, leads, -⟩
    exact ⟨stage.after now, rfl, (reaches_after leads).deeds, fails now error leads finishes⟩

end Follows

theorem hosts_measured {env : EnvRef} {layers : List Layer}
    (hosts : stage.config.Hosts task 0 env layers) : stage.config.measured.Hosts task 0 env layers := by
  have since : stage.config.Since task 0 stage.config.measured := Config.calm_measured.since
  exact hosts.since since (Config.calm_measured.quiet hosts.quiet)

namespace Tracked

variable {config : Config True} {call : Caller} {env : EnvRef} {ctx : Ctx True}

theorem exists_holding (tracked : stage.Tracked) {values : List Value}
    (known : ∀ value ∈ values, value.Known stage.config.shape) :
    ∃ next : Stage, next.config = stage.config ∧ next.places = stage.places ∧
      (∀ held ∈ stage.held, held ∈ next.held) ∧ ReflTransGen Deed stage next ∧ next.Tracked ∧
      ∀ value ∈ values, next.Has value := by
  induction values with
  | nil => exact ⟨stage, rfl, rfl, fun _ => id, .refl, tracked, by simp⟩
  | cons value values ih =>
    obtain ⟨isKnown, others⟩ := List.forall_mem_cons.mp known
    obtain ⟨next, config, places, kept, deeds, nextTracked, has⟩ := ih others
    rw [← config] at isKnown
    by_cases isHeld : next.Has value
    · exact ⟨next, config, places, kept, deeds, nextTracked, List.forall_mem_cons.mpr ⟨isHeld, has⟩⟩
    · simp only [Has, not_forall, not_exists, not_and] at isHeld
      obtain ⟨ref, refers, differs⟩ := isHeld
      have apart : ∀ held ∈ next.held, held.value.items? ≠ some ref := fun held member same =>
        differs held member (Value.eq_of_items? (nextTracked.known held member) isKnown same refers)
      have finds := Deed.finds isKnown refers apart
      refine ⟨{ next with held := ⟨value, next.made⟩ :: next.held, made := next.made + 1 }, config,
        places, fun held member => List.mem_cons_of_mem _ (kept held member), deeds.tail finds,
        finds.tracked nextTracked, List.forall_mem_cons.mpr ⟨?_, ?_⟩⟩
      · exact fun _ _ => ⟨_, .head _, rfl⟩
      · intro other member otherRef otherRefers
        obtain ⟨held, isOld, same⟩ := has other member otherRef otherRefers
        exact ⟨held, List.mem_cons_of_mem _ isOld, same⟩

theorem exists_reached (tracked : stage.Tracked) {later : Config True} (leads : stage.config.Leads later)
    {values : List Value} (known : ∀ value ∈ values, value.Known later.shape) :
    ∃ next : Stage, next.config = later ∧ ReflTransGen Deed (stage.after later) next ∧
      stage.Reaches next ∧ next.Tracked ∧ ∀ value ∈ values, next.Has value := by
  have reaches := reaches_after leads
  obtain ⟨next, config, places, kept, deeds, nextTracked, has⟩ :=
    (tracked.deeds reaches.deeds).exists_holding known
  refine ⟨next, config, deeds, ⟨reaches.deeds.trans deeds,
    fun held member => kept held (reaches.held held member), fun place isPlace same => ?_⟩, nextTracked,
      has⟩
  rw [places]
  exact reaches.places place isPlace (config ▸ same)

theorem gives (tracked : stage.Tracked) {wanted : Config True → α → Prop}
    (meets : run.Meets stage.config.measured task 0 wanted) (values : α → List Value)
    (known : ∀ now found, wanted now found → ∀ value ∈ values found, value.Known now.shape) :
    stage.Follows task ((run stage.config.world).Exhausts (Config.Others True task)) run
      fun next result => stage.Reaches next ∧
        ∀ found, result = .ok found → wanted next.config found ∧
          ∀ value ∈ values found, next.Has value := by
  refine .of_meets meets fun later result leads _ ends => ?_
  cases result with
  | error error => exact ⟨_, rfl, (reaches_after leads).deeds, reaches_after leads, by simp⟩
  | ok found =>
    obtain ⟨-, -, holds⟩ := ends
    obtain ⟨next, rfl, -, reaches, -, has⟩ := tracked.exists_reached leads (known later found holds)
    refine ⟨next, rfl, reaches.deeds, reaches, ?_⟩
    rintro _ ⟨⟩
    exact ⟨holds, has⟩

theorem values (tracked : stage.Tracked) (safe : call.Safe True)
    (hosts : stage.config.Hosts task 0 env ctx.layers) {codes : Values} {types : List Ty}
    (typed : ValuesTyped True ctx codes types) :
    stage.Follows task
      ((evalValues call env codes stage.config.world).Exhausts (Config.Others True task))
      (evalValues call env codes) fun next result => stage.Reaches next ∧
        ∀ values, result = .ok values → Inhabit next.config.shape values types ∧
          ∀ value ∈ values, next.Has value :=
  tracked.gives (evalValues_meets safe codes typed (hosts_measured hosts)) id
    fun _ _ inhabit => inhabit.1

theorem operands (tracked : stage.Tracked) (safe : call.Safe True)
    (hosts : stage.config.Hosts task 0 env ctx.layers) {node : Call} {results : List Ty}
    (typed : CallTyped True ctx node results) :
    stage.Follows task
      ((evalCall call env node stage.config.world).Exhausts (Config.Others True task))
      (evalCall call env node) fun next result => stage.Reaches next ∧
        ∀ invocation, result = .ok invocation → invocation.Sound next.config.shape ∧
          ∀ value ∈ invocation.args, next.Has value :=
  tracked.gives (evalCall_meets safe typed (hosts_measured hosts)) (·.args) fun _ _ sound => sound.args

theorem calls (tracked : stage.Tracked) (safe : call.Safe True) (quiet : stage.config.Quiet task)
    {thread : ThreadRef} (own : stage.config.shape.Owns task thread) {invocation : Invocation}
    (sound : invocation.Sound stage.config.shape) :
    stage.Follows task
      ((call thread invocation stage.config.world).Exhausts (Config.Others True task))
      (call thread invocation) fun next result => stage.Reaches next ∧
        ∀ results, result = .ok results → ∀ value ∈ results, next.Has value := by
  have since : stage.config.Since task 0 stage.config.measured := Config.calm_measured.since
  have meets := safe stage.config.measured task thread invocation 0 (Config.calm_measured.quiet quiet)
    (since.owns _ own) (sound.grows since.grows) (Nat.zero_le _)
  refine (tracked.gives meets id fun _ _ ends => ends.1).mono fun next result ends => ?_
  exact ⟨ends.1, fun results same => (ends.2 results same).2⟩

end Tracked

/-- A slice has been made. First its base and what is added have been evaluated. It has an origin of its
own, whatever slices are among its elements are copies, and its elements are those of the base at that
moment and then what is added. -/
def Makes (stage : Stage) (task : ThreadRef) (given : Outcome (Value × Extras)) (next : Stage) :
    Except RuntimeError Value → Prop
  | .error error => given.Finishes (Config.Others True task) (.error error) next.config.world
  | .ok value => ∃ (middle : Stage) (base : Value) (extras : Extras) (ref : SliceRef),
    given.Finishes (Config.Others True task) (.ok (base, extras)) middle.config.world ∧
    stage.Reaches middle ∧ middle.held = stage.held ∧ middle.made = stage.made ∧
    next = middle.created next.config value ref [] ∧ value.items? = some ref ∧
    next.heap.elementsOf value = middle.heap.elementsOf base ++ extras.values middle.heap ∧
    ∀ brought, (∀ copy ∈ brought, middle.Brings base extras copy.1 copy.2) →
      Deed middle (middle.created next.config value ref brought)

/-- A location has been read, once its operands have been evaluated. If it is recorded to hold a copy,
what has been read stems from the same creation. -/
def Reads (stage : Stage) (task : ThreadRef) (location : Outcome Location) (next : Stage) :
    Except RuntimeError Value → Prop
  | .error error => location.Finishes (Config.Others True task) (.error error) next.config.world ∨
    ∃ found, location.Finishes (Config.Others True task) (.ok found) next.config.world ∧
      found.content next.config.world = .error error
  | .ok value => stage.Reaches next ∧
    ∃ found, location.Finishes (Config.Others True task) (.ok found) next.config.world ∧
      found.content next.config.world = .ok value ∧
      ∀ origin, (found, origin) ∈ next.places →
        Deed next { next with held := ⟨value, origin⟩ :: next.held }

namespace Tracked

variable {config : Config True} {call : Caller} {env : EnvRef} {ctx : Ctx True} {code : Code} {type : Ty}

theorem makes_of_eval (safe : call.Safe True) (hosts : stage.config.Hosts task 0 env ctx.layers)
    (typed : CodeTyped True ctx code type) {elem : Ty} (makes : code.madeOf? = some elem) :
    stage.Follows task
      ((code.givenFor call env stage.config.world).Exhausts (Config.Others True task))
      (eval call env code) (stage.Makes task (code.givenFor call env stage.config.world)) := by
  rw [eval_makes makes]
  refine .after (code.givenFor_meets safe typed makes (hosts_measured hosts)) ?_
    fun later error _ finishes => finishes
  intro later given leads quiet inhabit finishes
  have making : Making (Run.makeSlice elem given.1 given.2) given.1 given.2 := .slice elem _ _
  obtain ⟨found, made⟩ := making.run_eq later.world
  refine .of_done (Run.makeSlice_meets  (Config.calm_measured.quiet quiet)
    (inhabit.1.grows Config.calm_measured.grows) (inhabit.2.grows Config.calm_measured.grows)) made ?_
  intro last same more _ _ holds
  have creates (brought : List (Int64 × Nat))
      (brings : ∀ copy ∈ brought, (stage.after later).Brings given.1 given.2 copy.1 copy.2) :=
    @Deed.makes _ (stage.after later) last _ _ _ _ _ brought making (same ▸ made) rfl holds.1 more brings
  refine ⟨_, rfl, .single (creates [] (by simp)), stage.after later, given.1, given.2, _, finishes,
    reaches_after leads, rfl, rfl, rfl, rfl, ?_, creates⟩
  show last.world.heap.elementsOf _ = _
  rw [same, Heap.elementsOf_eq rfl, Heap.items_newSlice]
  rfl

theorem reads_of_eval (safe : call.Safe True) (hosts : stage.config.Hosts task 0 env ctx.layers)
    (typed : CodeTyped True ctx code type) (reads : code.isRead = true) :
    stage.Follows task
      ((code.readFrom call env stage.config.world).Exhausts (Config.Others True task))
      (eval call env code) (stage.Reads task (code.readFrom call env stage.config.world)) := by
  rw [eval_reads reads]
  refine .after (code.readFrom_meets safe typed reads (hosts_measured hosts)) ?_
    fun later error _ finishes => .inl finishes
  intro later location leads _ _ finishes
  refine .of_ended _ (Location.load_apply location later.world) ?_
  cases holds : location.content later.world with
  | error error => exact .inr ⟨location, finishes, holds⟩
  | ok value =>
    refine ⟨reaches_after leads, location, finishes, holds, fun origin isPlace => .reads isPlace ?_⟩
    show location.load later.world = _
    rw [Location.load_apply, holds]
    rfl

end Tracked

/-- A value has been stored. What is recorded of other places still is, and that the place holds a copy,
if the value is a slice that is held. -/
structure Takes (stage : Stage) (location : Location) (value : Value) (next : Stage) : Prop where
  deed : Deed stage next
  held : next.held = stage.held
  others : ∀ place ∈ stage.places, location.isSame place.1 = false → place ∈ next.places
  copies : ∀ held ∈ stage.held, held.value = value → location ≠ .blank →
    (location, held.origin) ∈ next.places

/-- Values have been stored, one after the other. What is recorded of other places still is, and each
copy of a slice is recorded, unless something else has been stored over it. -/
structure Stored (stage : Stage) (stores : List (Location × Value)) (next : Stage) : Prop where
  deeds : ReflTransGen Deed stage next
  held : next.held = stage.held
  others : ∀ place ∈ stage.places, (∀ entry ∈ stores, entry.1.isSame place.1 = false) →
    place ∈ next.places
  copies : ∀ before location held after, stores = before ++ (location, held.value) :: after →
    held ∈ stage.held → location ≠ .blank → (∀ entry ∈ after, entry.1.isSame location = false) →
    (location, held.origin) ∈ next.places

theorem Stored.refl (stage : Stage) : stage.Stored [] stage :=
  ⟨.refl, rfl, fun _ isPlace _ => isPlace, by simp⟩

theorem Stored.cons {middle : Stage} {location : Location} {value : Value}
    {rest : List (Location × Value)} (takes : stage.Takes location value middle)
    (stored : middle.Stored rest next) : stage.Stored ((location, value) :: rest) next := by
  refine ⟨stored.deeds.head takes.deed, stored.held.trans takes.held,
    fun place isPlace differs => ?_, ?_⟩
  · obtain ⟨first, others⟩ := List.forall_mem_cons.mp differs
    exact stored.others place (takes.others place isPlace first) others
  · intro before target copy after same member notBlank differs
    cases before with
    | nil =>
      obtain ⟨⟨rfl, rfl⟩, rfl⟩ := (List.cons.inj same).imp Prod.mk.inj id
      exact stored.others _ (takes.copies copy member rfl notBlank) differs
    | cons first before =>
      obtain ⟨-, rfl⟩ := List.cons.inj same
      exact stored.copies before target copy after rfl (takes.held ▸ member) notBlank differs

/-- What has been stored when the stores have ended: all, or those up to the first that fails. -/
def StoredUpTo (stage : Stage) (entries : List (Location × Value)) (next : Stage) :
    Except RuntimeError Unit → Prop
  | .ok () => stage.Stored entries next
  | .error error => ∃ count location value, stage.Stored (entries.take count) next ∧
    entries[count]? = some (location, value) ∧ location.put value next.config.world = .error error

namespace Tracked

theorem exists_takes (tracked : stage.Tracked) {location : Location} {target : Option Ty} {value : Value}
    (sound : location.Sound stage.config.shape target) (stores : value.Stores stage.config.shape target)
    {later : Config True} (done : location.store value stage.config.world = .done () later.world)
    (leads : stage.config.Leads later) :
    ∃ next : Stage, next.config = later ∧ stage.Takes location value next := by
  have others (place : Location × Nat) (isPlace : place ∈ stage.places)
      (differs : location.isSame place.1 = false) : place ∈ stage.others location :=
    List.mem_filter.mpr ⟨isPlace, by simp [differs]⟩
  by_cases isHeld : ∃ held ∈ stage.held, held.value = value ∧ location ≠ .blank
  · obtain ⟨held, member, rfl, notBlank⟩ := isHeld
    obtain ⟨type, rfl⟩ : ∃ type, target = some type := by
      cases target with
      | some type => exact ⟨type, rfl⟩
      | none =>
        cases location with
        | blank => exact absurd rfl notBlank
        | slot => exact absurd sound.1 (by simp)
        | item => exact absurd (sound.choose_spec.2 trivial) (by simp)
        | entry => exact absurd (sound.choose_spec.2 trivial).2 (by simp)
        | nilMap => exact absurd (sound trivial) (by simp)
        | nilSlice => cases done
    have inhabits : held.value.Inhabits stage.config.shape type :=
      ⟨stores.1, fun isStrict => stores.2 isStrict _ rfl⟩
    refine ⟨_, rfl, .copies member sound inhabits done leads, rfl,
      fun place isPlace differs => List.mem_cons_of_mem _ (others place isPlace differs), ?_⟩
    intro other isOther same _
    rw [tracked.apart other isOther held member (by rw [same])]
    exact .head _
  · refine ⟨_, rfl, .writes sound done leads, rfl, others, fun held member same notBlank => ?_⟩
    exact absurd ⟨held, member, same, notBlank⟩ isHeld

theorem takes_of_store (tracked : stage.Tracked) (quiet : stage.config.Quiet task) {location : Location}
    {target : Option Ty} {value : Value} (sound : location.Sound stage.config.shape target)
    (stores : value.Stores stage.config.shape target) :
    stage.Follows task stuck (location.store value) fun next result =>
      match result with
      | .ok () => stage.Takes location value next ∧ next.config.Quiet task ∧
        stage.config.Leads next.config
      | .error error => next = stage ∧ location.put value stage.config.world = .error error := by
  have grown : stage.config.shape.Grows stage.config.measured.shape := Config.calm_measured.grows
  cases made : location.put value stage.config.world with
  | error error =>
    refine .of_ended (.error error) ?_ ⟨rfl, rfl⟩
    rw [Location.store_apply, made]
    rfl
  | ok world =>
    have done : location.store value stage.config.world = .done () world := by
      rw [Location.store_apply, made]
    refine .of_done (Location.store_meets (Config.calm_measured.quiet quiet) (sound.grows grown)
      ⟨stores.1.grows grown, stores.2⟩) done fun later same leads _ stillQuiet _ => ?_
    obtain ⟨next, rfl, takes⟩ := tracked.exists_takes sound stores (same ▸ done) leads
    exact ⟨next, rfl, .single takes.deed, takes, stillQuiet, leads⟩

theorem stores (tracked : stage.Tracked) (quiet : stage.config.Quiet task)
    {entries : List (Location × Value)} (sound : Location.Stores stage.config.shape entries) :
    stage.Follows task stuck (Location.storeEach entries) (stage.StoredUpTo entries) := by
  induction entries generalizing stage with
  | nil => exact .of_ended (.ok ()) rfl (.refl stage)
  | cons entry rest ih =>
    obtain ⟨location, value⟩ := entry
    obtain ⟨⟨target, located, storable⟩, others⟩ := List.forall_mem_cons.mp sound
    refine (tracked.takes_of_store quiet located storable).bind ?_ ?_
    · rintro middle ⟨⟩ - ⟨takes, stillQuiet, leads⟩
      have sound := Location.Stores.grows others leads.grows
      refine (ih (takes.deed.tracked tracked) stillQuiet sound).mono ?_
      rintro next (error | ⟨⟩) ended
      · obtain ⟨count, failed, item, stored, found, fails⟩ := ended
        exact ⟨count + 1, failed, item, stored.cons takes, found, fails⟩
      · exact Stored.cons takes ended
    · rintro next error ⟨rfl, fails⟩
      exact ⟨0, location, value, .refl _, rfl, fails⟩

end Tracked

/-- Stores have been prepared and made. Before anything is stored, all slices among what is stored are
held. -/
def Stores (stage : Stage) (task : ThreadRef) (prepared : Outcome (List (Location × Value)))
    (next : Stage) (result : Except RuntimeError Unit) : Prop :=
  (∃ error, result = .error error ∧
    prepared.Finishes (Config.Others True task) (.error error) next.config.world) ∨
  ∃ (middle : Stage) (entries : List (Location × Value)),
    prepared.Finishes (Config.Others True task) (.ok entries) middle.config.world ∧
    stage.Reaches middle ∧ (∀ entry ∈ entries, middle.Has entry.2) ∧
    middle.StoredUpTo entries next result

namespace Tracked

theorem stores_of_prepared (tracked : stage.Tracked) {prepare : Run (List (Location × Value))}
    (meets : prepare.Meets stage.config.measured task 0 fun now entries =>
      Location.Stores now.shape entries) :
    stage.Follows task ((prepare stage.config.world).Exhausts (Config.Others True task))
      (prepare >>= Location.storeEach) (stage.Stores task (prepare stage.config.world)) := by
  refine .after meets ?_ fun later error _ finishes => .inl ⟨error, rfl, finishes⟩
  intro later entries leads quiet sound finishes
  have known : ∀ value ∈ entries.map (·.2), value.Known later.shape := by
    intro value member
    obtain ⟨entry, isEntry, rfl⟩ := List.mem_map.mp member
    obtain ⟨target, -, storable⟩ := sound entry isEntry
    exact storable.1
  obtain ⟨middle, config, deeds, reached, middleTracked, has⟩ := tracked.exists_reached leads known
  have stores : middle.Follows task False (Location.storeEach entries) (middle.StoredUpTo entries) :=
    middleTracked.stores (config ▸ quiet) (config ▸ sound)
  refine (stores.sooner deeds config).mono fun next result ended => .inr ⟨middle, entries, ?_, reached,
    fun entry member => has _ (List.mem_map_of_mem member), ended⟩
  rw [config]
  exact finishes

end Tracked

/-- What a call hands to its function: slices with parameters of their own as they are, and the others
packed into a new slice. -/
structure Passes (stage : Stage) (signature : Signature) (args : List Value) (spread : Bool)
    (next : Stage) (given : List Value) : Prop where
  own : ∀ index held, held ∈ stage.held → args[index]? = some held.value →
    spread = true ∨ signature.variadicElem? = none ∨ index < signature.fixed →
    given[index]? = some held.value ∧ held ∈ next.held ∧
      Deed stage { stage with held := held :: stage.held }
  plain : spread = true ∨ signature.variadicElem? = none → given = args ∧ next = stage
  packs : ∀ elem, spread = false → signature.variadicElem? = some elem →
    ∃ packed ref, given = args.take signature.fixed ++ [packed] ∧ packed.items? = some ref ∧
      next = stage.created next.config packed ref [] ∧
      next.heap.elementsOf packed = args.drop signature.fixed ∧
      ∀ brought, (∀ copy ∈ brought,
          stage.Brings .nil (.each (args.drop signature.fixed)) copy.1 copy.2) →
        Deed stage (stage.created next.config packed ref brought)

namespace Tracked

variable {signature : Signature} {args : List Value} {spread : Bool}

theorem passes_own {given : List Value} {world : World} {index : Nat} {held : Held}
    (done : Machine.arguments signature args spread stage.config.world = .done given world)
    (member : held ∈ stage.held) (isArg : args[index]? = some held.value)
    (own : spread = true ∨ signature.variadicElem? = none ∨ index < signature.fixed) :
    given[index]? = some held.value ∧ Deed stage { stage with held := held :: stage.held } := by
  have isGiven : given[index]? = some held.value := by
    rw [Machine.arguments_getElem? (List.getElem?_eq_some_iff.mp isArg).1 own done, isArg]
  exact ⟨isGiven, .passes member isArg own done isGiven⟩

theorem passes_of_call (quiet : stage.config.Quiet task)
    (known : ∀ value ∈ args, value.Known stage.config.shape) (proper : signature.Proper)
    {targets : List Ty} (are : List.Forall₂ Value.Is args targets)
    (accepts : signature.Accepts spread targets) :
    stage.Follows task stuck (Machine.arguments signature args spread) fun next result =>
      ∃ given, result = .ok given ∧ stage.Passes signature args spread next given ∧
        stage.config.Since task 0 next.config ∧ next.config.Quiet task ∧
        Inhabit next.config.shape given signature.params := by
  have grown : stage.config.shape.Grows stage.config.measured.shape := Config.calm_measured.grows
  have meets : (Machine.arguments signature args spread).Meets stage.config.measured task 0
      fun now given => Inhabit now.shape given signature.params :=
    Machine.arguments_meets (Config.calm_measured.quiet quiet)
      (fun value member => (known value member).grows grown) (fun _ => proper)
      fun _ => ⟨targets, are, accepts⟩
  by_cases plain : spread = true ∨ signature.variadicElem? = none
  · have done : ∀ world, Machine.arguments signature args spread world = .done args world := by
      intro world
      unfold Machine.arguments Machine.packed
      rcases plain with isSpread | none
      · rw [if_pos isSpread]
        rfl
      · rw [none]
        split <;> rfl
    have inhabit : Inhabit stage.config.shape args signature.params := by
      unfold Run.Meets at meets
      rw [done] at meets
      obtain ⟨now, same, -, since, -, fits⟩ := meets
      exact ⟨known, fits.2⟩
    refine .of_ended (.ok args) (done _) ⟨args, rfl, ⟨fun index held member isArg own => ?_,
      fun _ => ⟨rfl, rfl⟩, fun elem notSpread isElem => ?_⟩, .refl _ _ _, quiet, inhabit⟩
    · obtain ⟨isGiven, deed⟩ := passes_own (done _) member isArg own
      exact ⟨isGiven, member, deed⟩
    · rcases plain with isSpread | none
      · simp [isSpread] at notSpread
      · simp [none] at isElem
  · simp only [not_or, Bool.not_eq_true, ← ne_eq, Option.ne_none_iff_exists'] at plain
    obtain ⟨rfl, elem, isElem⟩ := plain
    have enough : signature.fixed ≤ args.length := by
      have variadic := (Machine.variadic_params isElem).1
      rw [are.length_eq]
      simpa [Signature.Accepts, variadic] using accepts.2
    have making := Making.pack isElem enough
    set slice := stage.config.world.heap.newSlice (args.drop signature.fixed).toArray with isSlice
    have packs : Machine.arguments signature args false stage.config.world =
        .done (args.take signature.fixed ++ [.slice elem slice.1])
          { stage.config.world with heap := slice.2 } := by
      rw [Machine.arguments_packed isElem enough]
      exact (Run.bind_done (Run.newSlice_apply elem _ _) _).trans rfl
    have made := (Run.bind_done packs fun given => pure (given.getLastD .nil)).trans rfl
    refine .of_done meets packs fun later same leads since quiet inhabit => ?_
    have last : (args.take signature.fixed ++ [Value.slice elem slice.1]).getLastD .nil =
        .slice elem slice.1 := List.getLastD_concat ..
    have creates (brought : List (Int64 × Nat))
        (brings : ∀ copy ∈ brought,
          stage.Brings .nil (.each (args.drop signature.fixed)) copy.1 copy.2) :
        Deed stage (stage.created later (.slice elem slice.1) slice.1 brought) :=
      .makes making (by rw [made, last, same]; rfl) rfl (inhabit.1 _ (by simp)) leads brings
    refine ⟨_, rfl, .single (creates [] (by simp)), _, rfl, ⟨fun index held member isArg own => ?_,
      fun own => ?_, ?_⟩, since, quiet, inhabit⟩
    · obtain ⟨isGiven, deed⟩ := passes_own packs member isArg own
      exact ⟨isGiven, List.mem_cons_of_mem _ member, deed⟩
    · rcases own with isSpread | none
      · cases isSpread
      · simp [none] at isElem
    · rintro elem' - isElem'
      obtain rfl := Option.some.inj (isElem.symm.trans isElem')
      refine ⟨_, slice.1, rfl, rfl, rfl, ?_, creates⟩
      show later.world.heap.elementsOf _ = _
      rw [same, Heap.elementsOf_eq rfl, isSlice, Heap.items_newSlice]

end Tracked

end Stage

section Entering

omit [Natives]

def Step.initial (env : EnvRef) : List (Option Slot) → List Value → List (Location × Value)
  | some slot :: slots, value :: values => (.slot env slot, value) :: initial env slots values
  | none :: slots, _ :: values => initial env slots values
  | _, _ => []

/-- What the variables of a function hold when its body starts: its parameters what the call gives them,
and its results zero. -/
def Template.initial (template : Template) (env : EnvRef) (given : List Value) :
    List (Location × Value) :=
  Step.initial env template.params given ++
    template.results.map fun slot => (.slot env slot, .zero slot.type)

theorem Step.storeInit_eq_storeEach (env : EnvRef) (slots : List (Option Slot)) (values : List Value) :
    storeInit env slots values = Location.storeEach (initial env slots values) := by
  induction slots generalizing values with
  | nil => cases values <;> rfl
  | cons slot slots ih =>
    cases values with
    | nil => cases slot <;> rfl
    | cons value values =>
      cases slot with
      | none => exact ih values
      | some slot =>
        show (Run.store env slot value >>= fun _ => storeInit env slots values) = _
        rw [ih]
        rfl

theorem Machine.storeZeros_eq_storeEach (env : EnvRef) (slots : List Slot) :
    storeZeros env slots =
      Location.storeEach (slots.map fun slot => (.slot env slot, .zero slot.type)) := by
  induction slots with
  | nil => rfl
  | cons slot slots ih =>
    simp only [storeZeros, ih]
    rfl

theorem Location.storeEach_append (before after : List (Location × Value)) :
    storeEach (before ++ after) = storeEach before >>= fun _ => storeEach after := by
  induction before with
  | nil => rfl
  | cons entry before ih =>
    simp only [List.cons_append, storeEach, ih, Run.bind_assoc]

theorem Machine.enter_eq (template : Template) (outer : EnvRef) (thread : ThreadRef)
    (given : List Value) :
    enter template outer thread given =
      Run.update (·.acquire thread (some outer) template.program 0 template.objects template.words) >>=
        fun env => Location.storeEach (template.initial env given) >>= fun _ => pure env := by
  simp only [enter, Template.initial, Location.storeEach_append, Step.storeInit_eq_storeEach,
    storeZeros_eq_storeEach, Run.bind_assoc]

/-- Gives a call its arguments, in an environment that is made for the body of its function. -/
def Machine.passing (signature : Signature) (template : Template) (outer : EnvRef) (thread : ThreadRef)
    (args : List Value) (spread : Bool) : Run EnvRef := do
  let given ← arguments signature args spread
  if given.length = signature.params.length then enter template outer thread given
  else Run.fail (.arityMismatch signature.params.length given.length)

/-- The arguments of a call are given to its function, then the body is executed, and then the results
are read. -/
theorem Machine.watchedCall_closure (watch : Watch) (host : Host) (fuel : Nat) (thread : ThreadRef)
    (signature : Signature) (template : Template) (outer : EnvRef) (args : List Value) (spread : Bool) :
    watchedCall watch host (fuel + 1) thread ⟨.func ⟨signature, .closure template outer⟩, args, spread⟩ =
      passing signature template outer thread args spread >>= fun env =>
        Run.attempt (execWith (watchedCall watch host fuel) (loop watch host fuel) env) >>=
          release template thread env := by
  rw [watchedCall_eq]
  simp only [passing, Run.bind_assoc]
  refine congrArg (arguments signature args spread >>= ·) (funext fun given => ?_)
  simp only [apply, ne_eq, ite_not]
  split
  · exact invoke_eq _ _ _ _ _
  · rfl

end Entering

theorem Step.initial_stores {strict : Prop} {shape : Shape strict} {ref : EnvRef} {known : EnvShape}
    {slots : List (Option Slot)} {values : List Value} (found : shape.env ref = some known)
    (shared : ∀ slot, some slot ∈ slots → known.level.Shared slot)
    (isKnown : ∀ value ∈ values, value.Known shape)
    (are : strict → List.Forall₂ (fun (value : Value) (slot : Option Slot) =>
      ∀ wanted, slot.map (·.type) = some wanted → value.Is wanted) values slots) :
    Location.Stores shape (initial ref slots values) := by
  induction slots generalizing values with
  | nil => cases values <;> simp [initial, Location.Stores]
  | cons slot slots ih =>
    cases values with
    | nil => cases slot <;> simp [initial, Location.Stores]
    | cons value values =>
      obtain ⟨isFirst, others⟩ := List.forall_mem_cons.mp isKnown
      have rest := ih (fun slot member => shared slot (.tail _ member)) others fun isStrict =>
        (List.forall₂_cons.mp (are isStrict)).2
      cases slot with
      | none => exact rest
      | some slot =>
        have located : Location.Sound shape (some slot.type) (.slot ref slot) :=
          ⟨rfl, known, found, shared _ (.head _)⟩
        refine List.forall_mem_cons.mpr ⟨⟨_, located, isFirst, fun isStrict wanted same => ?_⟩, rest⟩
        exact (List.forall₂_cons.mp (are isStrict)).1 wanted same

theorem Template.initial_stores {strict : Prop} {shape : Shape strict} {template : Template}
    {ref : EnvRef} {known : EnvShape} {given : List Value} (found : shape.env ref = some known)
    (params : List.Forall₂ (fun (slot : Option Slot) type => ∀ found, slot = some found →
      known.level.Shared found ∧ found.type = type) template.params template.signature.params)
    (results : List.Forall₂ (fun (slot : Slot) type => known.level.Shared slot ∧ slot.type = type)
      template.results template.signature.results)
    (inhabit : Inhabit shape given template.signature.params) :
    Location.Stores shape (template.initial ref given) := by
  refine List.forall_mem_append.mpr ⟨Step.initial_stores found (fun slot member => ?_) inhabit.1
    fun isStrict => ?_, fun entry member => ?_⟩
  · obtain ⟨type, -, holds⟩ := exists_of_forall₂ params member
    exact (holds slot rfl).1
  · refine forall₂_chain (inhabit.2 isStrict) params.flip fun value type slot is holds wanted same => ?_
    obtain ⟨found, rfl, rfl⟩ := Option.map_eq_some_iff.mp same
    exact (holds found rfl).2 ▸ is
  · obtain ⟨slot, isResult, rfl⟩ := List.mem_map.mp member
    obtain ⟨type, -, shared, -⟩ := exists_of_forall₂ results isResult
    refine ⟨some slot.type, ⟨rfl, known, found, shared⟩, trivial, fun _ wanted same => ?_⟩
    obtain rfl := Option.some.inj same
    exact Value.zero_is _

omit [Natives] in
theorem Step.initial_slots {env : EnvRef} {slots : List (Option Slot)} {values : List Value} :
    ∀ entry ∈ initial env slots values, ∃ env slot, entry.1 = .slot env slot := by
  induction slots generalizing values with
  | nil => cases values <;> simp [initial]
  | cons slot slots ih =>
    cases values with
    | nil => cases slot <;> simp [initial]
    | cons value values =>
      cases slot with
      | none => exact ih
      | some slot => exact List.forall_mem_cons.mpr ⟨⟨_, _, rfl⟩, ih⟩

omit [Natives] in
theorem Template.initial_slots {template : Template} {env : EnvRef} {given : List Value} :
    ∀ entry ∈ template.initial env given, ∃ env slot, entry.1 = .slot env slot := by
  refine List.forall_mem_append.mpr ⟨Step.initial_slots, fun entry member => ?_⟩
  obtain ⟨slot, -, rfl⟩ := List.mem_map.mp member
  exact ⟨_, _, rfl⟩

namespace Stage

variable {stage next : Stage}

theorem StoredUpTo.stored {entries : List (Location × Value)} {result : Except RuntimeError Unit}
    (ended : stage.StoredUpTo entries next result)
    (slots : ∀ entry ∈ entries, ∃ env slot, entry.1 = .slot env slot) :
    result = .ok () ∧ stage.Stored entries next := by
  rcases result with error | ⟨⟩
  · obtain ⟨count, location, value, -, found, fails⟩ := ended
    obtain ⟨env, slot, rfl⟩ := slots _ (List.mem_of_getElem? found)
    cases fails
  · exact ⟨rfl, ended⟩

def Enters (stage : Stage) (signature : Signature) (template : Template) (args : List Value)
    (spread : Bool) (next : Stage) (env : EnvRef) : Prop :=
  ∃ (passed entered : Stage) (given : List Value), stage.Passes signature args spread passed given ∧
    passed.Reaches entered ∧ entered.held = passed.held ∧
    entered.Stored (template.initial env given) next

namespace Tracked

variable {signature : Signature} {template : Template} {outer : EnvRef} {thread : ThreadRef}
  {args : List Value} {spread : Bool}

theorem enters (tracked : stage.Tracked) (quiet : stage.config.Quiet task)
    (own : stage.config.shape.Owns task thread) {ctx : Ctx True}
    (typed : TemplateTyped True ctx template)
    (spans : Spans stage.config.shape (some outer) ctx.layers) {given : List Value}
    (inhabit : Inhabit stage.config.shape given template.signature.params) :
    stage.Follows task stuck (Machine.enter template outer thread given) fun next result =>
      ∃ env entered, result = .ok env ∧ stage.Reaches entered ∧ entered.held = stage.held ∧
        entered.Stored (template.initial env given) next := by
  obtain @⟨_, _, _, _, _, level, _, _, -, -, objects, words, params, results, -⟩ := typed
  have older : ∀ ref, some outer = some ref → ref.index < stage.config.world.envs.size := by
    rintro _ ⟨⟩
    obtain ⟨known, found⟩ := spans.known
    obtain ⟨-, there, present, -⟩ := stage.config.sound.envs _ known found
    exact (Array.getElem?_eq_some_iff.mp present).1
  obtain ⟨first, acquired, calm, isEnv, -⟩ := stage.config.measured.acquire template.program 0 level
    (stage.config.owner_isSome quiet.isTask own) older
  rw [objects, words] at acquired
  set root : EnvRef := ⟨stage.config.world.envs.size⟩
  have acquires : (Run.update
      (·.acquire thread (some outer) template.program 0 template.objects template.words)).Meets
        stage.config.measured task 0 fun now env =>
          env = root ∧ now.shape.env root = some ⟨level, some outer, template.program, thread⟩ :=
    .calm first (Run.update_done acquired) calm (Config.calm_measured.quiet quiet) ⟨rfl, isEnv⟩
  rw [Machine.enter_eq]
  have enters : stage.Follows task stuck (Run.update
      (·.acquire thread (some outer) template.program 0 template.objects template.words))
        fun next result => result = .ok root ∧ stage.Reaches next ∧ next.held = stage.held ∧
          next.config.Quiet task ∧ Location.Stores next.config.shape (template.initial root given) :=
    .of_done acquires (Run.update_done acquired) fun later _ leads _ quiet found =>
      ⟨stage.after later, rfl, (reaches_after leads).deeds, rfl, reaches_after leads, rfl, quiet,
        Template.initial_stores found.2 params results (inhabit.grows leads.grows)⟩
  refine enters.bind ?_ ?_
  · rintro entered _ - ⟨⟨⟩, reaches, held, quiet, sound⟩
    refine ((tracked.deeds reaches.deeds).stores quiet sound).bind ?_ ?_
    · rintro next ⟨⟩ - stored
      exact .of_ended (.ok root) rfl ⟨root, entered, rfl, reaches, held, stored⟩
    · intro next error ended
      cases (ended.stored Template.initial_slots).1
  · rintro next error ⟨⟨⟩, -⟩

theorem enters_of_call (tracked : stage.Tracked) (quiet : stage.config.Quiet task)
    (own : stage.config.shape.Owns task thread)
    (sound : Invocation.Sound stage.config.shape
      ⟨.func ⟨signature, .closure template outer⟩, args, spread⟩) :
    stage.Follows task stuck (Machine.passing signature template outer thread args spread)
      fun next result => ∃ env, result = .ok env ∧
        stage.Enters signature template args spread next env := by
  obtain ⟨signature', targets, is, are, accepts⟩ := sound.typed trivial
  obtain rfl : signature' = signature := by
    rcases is.eq_func with isNil | ⟨body, isFunc⟩
    · cases isNil
    · cases isFunc
      rfl
  obtain ⟨rfl, ctx, typed, spans⟩ :
      FuncBody.Known stage.config.shape signature' (.closure template outer) := sound.callee
  have proper : template.signature.Proper := by
    obtain ⟨-, -, -, -, -, -, proper, -⟩ := id typed
    exact proper trivial
  refine (passes_of_call quiet sound.args proper are accepts).bind ?_ ?_
  · rintro passed given deeds ⟨_, ⟨⟩, passes, since, quiet, inhabit⟩
    rw [if_pos (inhabit.2 trivial).length_eq]
    refine ((tracked.deeds deeds).enters quiet (since.owns _ own) typed (spans.lasting.grows since.grows)
      inhabit).mono ?_
    rintro next _ ⟨env, entered, rfl, reaches, held, stored⟩
    exact ⟨env, rfl, passed, entered, given, passes, reaches, held, stored⟩
  · rintro next error ⟨given, ⟨⟩, -⟩

end Tracked

/-- The results of a call have been read. One that is recorded to hold a copy gives a copy. -/
structure Returns (stage : Stage) (template : Template) (env : EnvRef) (next : Stage)
    (results : List Value) : Prop where
  reaches : stage.Reaches next
  copies : ∀ (index : Nat) slot origin, template.results[index]? = some slot →
    (.slot env slot, origin) ∈ stage.places →
    ∃ held ∈ stage.held, held.origin = origin ∧ results[index]? = some held.value ∧
      Deed stage { stage with held := held :: stage.held }

namespace Tracked

theorem returns_of_release (tracked : stage.Tracked) (quiet : stage.config.Quiet task)
    (template : Template) (thread : ThreadRef) (env : EnvRef) :
    stage.Follows task stuck (Machine.release template thread env (.ok ())) fun next result =>
      ∃ results, result = .ok results ∧ stage.Returns template env next results := by
  have measured : stage.config.measured.Quiet task := Config.calm_measured.quiet quiet
  have meets : (Machine.release template thread env (.ok ())).Meets stage.config.measured task 0
      fun _ results => results = template.results.map (stage.config.world.load env) :=
    (Run.read_meets (fun _ results => results = template.results.map (stage.config.world.load env))
      measured rfl).bind fun now results _ quiet same =>
        (Run.modifyAlike_meets quiet (World.alike_recycle _ _ _)).bind fun _ _ _ quiet _ =>
          Run.pure_meets quiet same
  refine .of_done meets rfl fun later _ leads _ _ _ => ⟨stage.after later, rfl,
    (reaches_after leads).deeds, _, rfl, reaches_after leads,
    fun index slot origin isResult isPlace => ?_⟩
  obtain ⟨-, held, member, isOrigin, holds⟩ := tracked.places _ isPlace
  have loaded : stage.config.world.load env slot = held.value := Except.ok.inj holds
  subst isOrigin
  refine ⟨held, member, rfl, by simp [isResult, loaded], .reads isPlace ?_⟩
  rw [Location.load_apply, holds]
  rfl

end Tracked

end Stage

namespace Step

def initialised (call : Caller) (env : EnvRef) (slots : List (Option Slot)) (values : Values) :
    Run (List (Location × Value)) := do
  let values ← evalValues call env values
  pure (initial env slots values)

/-- An assignment, a declaration or a return: what it stores, and how the run goes on then. -/
inductive Storing (call : Caller) (env : EnvRef) :
    Instr → Run (List (Location × Value)) → Run Next → Prop
  | assign (places : List Place) (values : Values) :
    Storing call env (.assign places values) (assigned call env places values) (advance env)
  | init (slots : List (Option Slot)) (values : Values) :
    Storing call env (.init slots values) (initialised call env slots values) (advance env)
  | ret (hops : Nat) (results : List Slot) (values : Values) :
    Storing call env (.ret hops results values) (returned call env hops results values)
      (interrupt env .ret)

namespace Storing

variable {call : Caller} {env : EnvRef} {instr : Instr} {prepare : Run (List (Location × Value))}
  {finish : Run Next}

omit [Natives] in
theorem run_eq (storing : Storing call env instr prepare finish) (fuel : Nat) :
    run call fuel env instr = (do
      let stores ← prepare
      Location.storeEach stores
      finish) := by
  cases storing with
  | assign places values => exact run_assign places values
  | init slots values =>
    simp only [run, initialised, storeInit_eq_storeEach, Run.bind_assoc]
    rfl
  | ret hops results values => exact run_ret hops results values

omit [Natives] in
theorem concludes (storing : Storing call env instr prepare finish) : Concludes finish := by
  cases storing with
  | assign | init => exact advance_concludes env
  | ret => exact interrupt_concludes env .ret

theorem meets (storing : Storing call env instr prepare finish) (safe : call.Safe True)
    {start : Config True} {ctx : Ctx True} {base here : Nat} {lands : Nat → List Layer → Prop}
    {out : Nat → ExitKind → List Layer → Prop} (hosts : start.Hosts task 0 env ctx.layers)
    (typed : InstrTyped True base lands out here ctx instr) :
    prepare.Meets start task 0 fun now stores => Location.Stores now.shape stores := by
  cases storing with
  | assign =>
    cases typed with
    | assign placesTyped typed storesTo =>
      exact (assigned_meets safe placesTyped typed storesTo hosts).mono fun _ _ _ _ fit => fit.sound
  | ret =>
    cases typed with
    | ret isLayer shared typed assignable =>
      exact (returned_meets safe isLayer shared typed assignable hosts).mono fun _ _ _ _ fit => fit.sound
  | init =>
    cases typed with
    | init isLayer shared typed storesTo =>
      refine (evalValues_meets safe _ typed hosts).bind fun now values since quiet inhabit => ?_
      obtain ⟨known, found, level, -⟩ := now.up_spec (hosts.since since quiet).spans isLayer
      refine Run.pure_meets quiet (initial_stores found (fun slot member => level ▸ shared slot member)
        inhabit.1 fun isStrict => ?_)
      exact forall₂_chain (inhabit.2 isStrict) storesTo fun _ _ _ is storesTo wanted same =>
        is.assign (storesTo wanted same)

end Storing

end Step

namespace Stage

/-- What running code does from a stage on, with slices: the deeds that it does, wherever it ends. -/
structure Performs (stage : Stage) : Prop where
  /-- Values are evaluated, for whatever they are used. Then each slice among them is held. -/
  values : ∀ {task call env} {ctx : Ctx True} {codes types}, call.Safe True →
    stage.config.Hosts task 0 env ctx.layers → ValuesTyped True ctx codes types →
    stage.Follows task
      ((evalValues call env codes stage.config.world).Exhausts (Config.Others True task))
      (evalValues call env codes) fun next result => stage.Reaches next ∧
        ∀ values, result = .ok values → Inhabit next.config.shape values types ∧
          ∀ value ∈ values, next.Has value
  /-- A literal, `make` or `append` makes a slice. -/
  makes : ∀ {task call env} {ctx : Ctx True} {code type elem}, call.Safe True →
    stage.config.Hosts task 0 env ctx.layers → CodeTyped True ctx code type → code.madeOf? = some elem →
    stage.Follows task
      ((code.givenFor call env stage.config.world).Exhausts (Config.Others True task))
      (eval call env code) (stage.Makes task (code.givenFor call env stage.config.world))
  /-- A variable, an element of a slice or an entry of a map is read. -/
  reads : ∀ {task call env} {ctx : Ctx True} {code type}, call.Safe True →
    stage.config.Hosts task 0 env ctx.layers → CodeTyped True ctx code type → code.isRead = true →
    stage.Follows task
      ((code.readFrom call env stage.config.world).Exhausts (Config.Others True task))
      (eval call env code) (stage.Reads task (code.readFrom call env stage.config.world))
  /-- An assignment, a declaration or a return makes its stores. -/
  stores : ∀ {task call env instr prepare finish}, call.Safe True → stage.config.About task env instr →
    Step.Storing call env instr prepare finish →
    (∀ fuel, Step.run call fuel env instr = (do
      let stores ← prepare
      Location.storeEach stores
      finish)) ∧ Step.Concludes finish ∧
    stage.Follows task ((prepare stage.config.world).Exhausts (Config.Others True task))
      (prepare >>= Location.storeEach) (stage.Stores task (prepare stage.config.world))
  /-- A function and the arguments of its call are evaluated. -/
  operands : ∀ {task call env} {ctx : Ctx True} {node results}, call.Safe True →
    stage.config.Hosts task 0 env ctx.layers → CallTyped True ctx node results →
    stage.Follows task
      ((evalCall call env node stage.config.world).Exhausts (Config.Others True task))
      (evalCall call env node) fun next result => stage.Reaches next ∧
        ∀ invocation, result = .ok invocation → invocation.Sound next.config.shape ∧
          ∀ value ∈ invocation.args, next.Has value
  /-- A call gives its arguments to the function, executes the body and reads the results. -/
  invokes : ∀ {task watch host fuel thread signature template outer args spread},
    stage.config.Quiet task → stage.config.shape.Owns task thread →
    Invocation.Sound stage.config.shape ⟨.func ⟨signature, .closure template outer⟩, args, spread⟩ →
    (Machine.watchedCall watch host (fuel + 1) thread
        ⟨.func ⟨signature, .closure template outer⟩, args, spread⟩ =
      Machine.passing signature template outer thread args spread >>= fun env =>
        Run.attempt (Machine.execWith (Machine.watchedCall watch host fuel)
          (Machine.loop watch host fuel) env) >>= Machine.release template thread env) ∧
    stage.Follows task False (Machine.passing signature template outer thread args spread)
      fun next result => ∃ env, result = .ok env ∧ stage.Enters signature template args spread next env
  returns : ∀ {task} (template : Template) (thread : ThreadRef) (env : EnvRef), stage.config.Quiet task →
    stage.Follows task False (Machine.release template thread env (.ok ())) fun next result =>
      ∃ results, result = .ok results ∧ stage.Returns template env next results
  /-- Whatever a call does in between, the slices it gives are held when it has ended. -/
  calls : ∀ {task thread} {call : Caller} {invocation : Invocation}, call.Safe True →
    stage.config.Quiet task → stage.config.shape.Owns task thread →
    invocation.Sound stage.config.shape →
    stage.Follows task
      ((call thread invocation stage.config.world).Exhausts (Config.Others True task))
      (call thread invocation) fun next result => stage.Reaches next ∧
        ∀ results, result = .ok results → ∀ value ∈ results, next.Has value

theorem Tracked.performs {stage : Stage} (tracked : stage.Tracked) : stage.Performs where
  values safe hosts typed := tracked.values safe hosts typed
  makes safe hosts typed makes := makes_of_eval safe hosts typed makes
  reads safe hosts typed reads := reads_of_eval safe hosts typed reads
  stores safe about storing := by
    obtain ⟨activation, here, hosts, typed⟩ := about.typed
    exact ⟨storing.run_eq, storing.concludes,
      tracked.stores_of_prepared (storing.meets safe (hosts_measured hosts) typed)⟩
  operands safe hosts typed := tracked.operands safe hosts typed
  invokes quiet own sound :=
    ⟨Machine.watchedCall_closure _ _ _ _ _ _ _ _ _, tracked.enters_of_call quiet own sound⟩
  returns template thread env quiet := tracked.returns_of_release quiet template thread env
  calls safe quiet own sound := tracked.calls safe quiet own sound

/-- Whatever code runs in between, slices are shared by those that stem from one creation, show the
assignments to each other and to nothing else, and keep their lengths; and what is made is new. Running
code does deeds, each of which says where the slices come from that it gives: literals, `make`, `append`
and variadic calls make new ones, and what is read, stored, passed or returned is a copy. -/
theorem slices_shared_by_origin {start earlier now : Stage} (bare : start.Bare)
    (before : ReflTransGen Deed start earlier) (after : ReflTransGen Deed earlier now) :
    earlier.Behaves now ∧ now.Performs :=
  ⟨bare.behaves before after, (bare.tracked.deeds (before.trans after)).performs⟩

omit [Natives] in
/-- A literal is evaluated, passed to a variadic function as it is, and appended to. -/
theorem slices_shared_by_origin_appended :
    let ints (numbers : List Int64) : List Value := numbers.map Value.int
    ∃ (_ : Natives) (start now : Stage) (call : Caller) (env : EnvRef) (world : World)
      (made passed appended : Held), start.Bare ∧
      eval call env (.sliceLit .int [.const (.int 1), .const (.int 2)]) start.config.world =
        .done made.value world ∧
      ReflTransGen Deed start now ∧ now.held = [appended, passed, made] ∧
      now.heap.elementsOf made.value = ints [1, 2] ∧
      now.heap.elementsOf appended.value = ints [1, 2, 3] ∧
      now.heap.Shares made.value passed.value ∧ ¬now.heap.Shares made.value appended.value ∧
      start.Behaves now ∧ now.Performs := by
  intro ints
  let natives : Natives := ⟨fun _ => none⟩
  obtain ⟨observer, course, ctx, config, env, -, enters⟩ :=
    @Observer.exists_enters True natives (fun _ => rfl) []
  have hosts := enters.busy.hosts enters.quiet (Nat.zero_le _)
  have safe := (Machine.watchedCall_safe .never enters.host 0).1
  let start : Stage := { config }
  have bare : start.Bare := ⟨rfl, rfl⟩
  have one {number : Int64} : CodeFits True ctx (.const (.int number)) .int := .of .const rfl
  have literal : CodeTyped True ctx (.sliceLit .int [.const (.int 1), .const (.int 2)]) (.slice .int) :=
    .sliceLit (.cons one (.cons one .nil))
  have evaluates := (slices_shared_by_origin bare .refl .refl).2.makes safe hosts literal rfl
  obtain ⟨-, same, -, stage, rfl, evaluated, middle, base, extras, ref, given, -, isHeld, isMade, isNext,
    refers, content, -⟩ := evaluates
  generalize middle.config.world = world at given
  cases given
  let made : Held := ⟨.slice .int ⟨start.heap.slices.size⟩, 0⟩
  have literal : stage.heap.elementsOf made.value = ints [1, 2] := content
  have isHeld : stage.held = [made] := by
    rw [isNext]
    exact congrArg₂ (fun origin held => Held.mk made.value origin :: held) isMade isHeld
  have member : made ∈ stage.held := isHeld ▸ .head _
  have passes : Deed stage { stage with held := made :: stage.held } :=
    @Deed.passes _ stage ⟨[.slice .int], [], true⟩ [made.value] [made.value] true 0 made made.value _
      member rfl (.inl rfl) rfl rfl
  have deeds := evaluated.tail passes
  obtain ⟨value, grown, done, -, content, others⟩ :=
    (slices_shared_by_origin bare .refl deeds).1.makes _ _ _ (.slice .int made.value (.each (ints [3])))
  obtain ⟨rfl, -⟩ := Outcome.done.inj done
  obtain ⟨last, isLast, -, appends⟩ := Deed.exists_makes { stage with held := made :: stage.held }
    (.slice .int made.value (.each (ints [3]))) done (by
      show ∀ value ∈ stage.heap.elementsOf made.value ++ ints [3], value.Inhabits _ _
      rw [literal]
      intro value member
      obtain ⟨number, -, rfl⟩ := List.mem_map.mp (show value ∈ ints [1, 2, 3] from member)
      exact Value.inhabits_const rfl)
  have all := deeds.tail appends
  obtain ⟨behaves, performs⟩ := slices_shared_by_origin bare .refl all
  have isHeap : last.world.heap = grown := congrArg World.heap isLast
  have known := (bare.tracked.deeds evaluated).known made member
  have kept : last.world.heap.elementsOf made.value = ints [1, 2] := by
    rw [isHeap, (others made.value known).1]
    exact literal
  have again : made ∈ made :: stage.held := .head _
  refine ⟨natives, start, _, Machine.watchedCall .never observer.host 0, env, _, made, made, _, bare,
    rfl, all, by rw [isHeld], kept, ?_, ?_, fun shares => ?_, behaves, performs⟩
  · show last.world.heap.elementsOf _ = _
    rw [isHeap, content]
    show stage.heap.elementsOf made.value ++ ints [3] = _
    rw [literal]
    rfl
  · refine (behaves.shares made (.tail _ again) made (.tail _ again)).2.mpr ⟨rfl, ?_⟩
    show last.world.heap.elementsOf made.value ≠ []
    rw [kept]
    exact List.cons_ne_nil _ _
  · have apart := ((behaves.shares made (.tail _ again) _ (.head _)).2.mp shares).1
    have count : stage.made = 1 := by
      rw [isNext]
      exact congrArg (· + 1) isMade
    exact Nat.zero_ne_one (apart.trans count)

end Stage

end MiniGo
