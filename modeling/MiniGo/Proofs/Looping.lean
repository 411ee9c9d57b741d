import MiniGo.Proofs.Iterations
import MiniGo.Proofs.Selecting
/-!
Range loops as they are run. The subject is evaluated once, and the iteration state is set up from its
value. A turn moves the state on, stores what it hands out to the targets of the loop, and runs the
body. Whatever the body does, it does not reach the iteration state, a `continue` leads to the step
that ends a turn, and a `break` to the end of the loop.
-/

namespace MiniGo

namespace Compile

structure RangeLoop where
  defines : Bool
  operand : Operand
  type : Ty
  kind : RangeKind
  keyType : Ty
  valueType : Option Ty
  key : Option Place
  value : Option Place
  /-- The frame with the variables of the loop. -/
  named : Frame
  slots : RangeSlots
  frame : Frame
  body : Fragment

namespace RangeLoop

variable (loop : RangeLoop)

def next (_ : RangeLoop) (here : Nat) : Nat := here + 2

def step (here : Nat) : Nat := here + 3 + loop.body.length

def finish (here : Nat) : Nat := loop.step here + 2

structure Of (scope : Scope) (here : Nat) (labels : List String) (key value : Option Expr)
    (isDefine : Bool) (subject : Expr) (body : Block) (span : Span) (lines : List Line) : Prop where
  defines : loop.defines = isDefine
  operand : expr ({ owned := true } :: scope) subject = .ok loop.operand
  type : loop.operand.type = .ok loop.type
  shape : rangeShape loop.type span subject.span = .ok (loop.kind, loop.keyType, loop.valueType)
  one : value.isSome = true → loop.valueType.isSome = true
  targets : ∃ middle, rangeTarget scope { owned := true } loop.keyType isDefine key =
      .ok (loop.key, middle) ∧
    rangeTarget scope middle (loop.valueType.getD .any) isDefine value = .ok (loop.value, loop.named)
  slots : rangeSlots loop.named loop.type loop.keyType = (loop.slots, loop.frame)
  body : block ({ loop.frame with loop := some ⟨true, labels⟩ } :: scope) (here + 3) body = .ok loop.body
  lines : lines = opening true span loop.frame ++
    (rangeLoop loop.kind loop.keyType loop.slots loop.operand.toCode loop.key loop.value loop.body
      scope.length (here + 1) span).lines ++ closing true span

section Sights

variable (host : Host) (others : World → World → Prop) (inner : EnvRef)

/-- A value is stored to a target, if there is one: the operands of the target are evaluated, and then
the target has the value. -/
def Delivers (target : Option Place) (value : Value) (goes : World → Sight) : World → Sight :=
  match target with
  | none => goes
  | some place => Works others inner
      (fun fuel => Location.ofPlace (Machine.call host fuel) inner place)
      fun found location => Does others inner (location.store value)
        (fun after _ moments halt => location.content after = .ok value ∧ goes after moments halt) found

def Shown (found : Value × Value) (world : World) : Prop :=
  loop.defines = true →
    (∀ slot, loop.key = some (.slot 0 slot) → world.load inner slot = found.1) ∧
      ∀ slot, loop.value = some (.slot 0 slot) → world.load inner slot = found.2

/-- A turn of the loop: its targets take what is handed out, and the body is run. From the end of the
body, and after a `continue`, the run goes on with the step that ends the turn. -/
def Turn (targets : Targets) (levels here : Nat) (ends : Sight) (found : Value × Value) (goes : Sight) :
    World → Sight :=
  Delivers host others inner loop.key found.1
    (Delivers host others inner loop.value found.2 fun _ =>
      Passes inner (here + 3) (loop.step here) (loop.Shown inner found) (fun _ => goes)
        (Leaving (here + 3) loop.body.lines
          (Cycles targets levels ends (Comes inner (loop.step here) fun _ => goes))))

variable {loop host others inner} in
theorem Delivers.mono {target : Option Place} {value : Value} {goes wider : World → Sight} {world : World}
    {moments : List Moment} {halt : Halt}
    (seen : Delivers host others inner target value goes world moments halt)
    (implies : ∀ world moments halt, goes world moments halt → wider world moments halt) :
    Delivers host others inner target value wider world moments halt := by
  cases target with
  | none => exact implies _ _ _ seen
  | some place =>
    exact Works.mono seen fun _ _ _ _ seen =>
      seen.mono fun _ _ _ _ seen => ⟨seen.1, implies _ _ _ seen.2⟩

variable {loop host others inner} in
theorem Turn.mono {targets : Targets} {levels here : Nat} {ends : Sight} {found : Value × Value}
    {goes wider : Sight} {world : World} {moments : List Moment} {halt : Halt}
    (seen : loop.Turn host others inner targets levels here ends found goes world moments halt)
    (implies : ∀ moments halt, goes moments halt → wider moments halt) :
    loop.Turn host others inner targets levels here ends found wider world moments halt :=
  Delivers.mono seen fun _ _ _ seen => seen.mono fun _ _ _ seen =>
    Passes.mono seen (fun _ => implies) fun _ _ _ seen => seen.mono fun _ _ _ _ seen =>
      seen.mono fun _ _ seen => seen.mono fun _ => implies

/-- The slices found at the start have their lengths, and the keys of the map are there. -/
structure Pinned (iteration : Iteration) (first now : Heap) : Prop where
  sizes : ∀ ref : SliceRef, ref.index < first.slices.size → (now.items ref).size = (first.items ref).size
  keys : ∀ key elem map type ref, loop.kind = .map → iteration.subject = .map key elem map →
    iteration.keys = .slice type ref → now.items ref = first.items ref

def Handles (targets : Targets) (levels here : Nat) (ends : Sight) (goes : Iteration → Sight)
    (iteration : Iteration) (before : World) : Sight := fun moments halt =>
  match iteration.hands loop.kind before with
  | .error error => ∃ world, Step.raise inner error before = .done (none, inner) world ∧
    moments = [⟨inner, none, world⟩] ∧ halt.Whole
  | .ok (none, _) => ends moments halt
  | .ok (some found, after) => ∃ middle : World, middle.heap = before.heap ∧
    loop.Turn host others inner targets levels here ends found
      (Comes inner (loop.step here + 1) fun _ => goes after.stepped) middle moments halt

def Turns (targets : Targets) (levels here : Nat) (first : Heap) (ends : Sight) :
    Nat → Iteration → Sight
  | 0, _ => fun _ _ => False
  | rounds + 1, iteration => Comes inner (loop.next here) fun before moments halt =>
    loop.Pinned iteration first before.heap ∧
      loop.Handles host others inner targets levels here ends
        (Turns targets levels here first ends rounds)
        iteration before moments halt

/-- What is known of the value that a loop is about to go over, and of the state then. -/
structure Ranges (subject : Value) (heap : Heap) : Prop where
  is : subject.Is loop.type
  inside : ∀ elem ref, subject = .slice elem ref → ref.index < heap.slices.size
  ascending : ∀ ref, (heap.entries ref).Ascending

/-- What is seen of a loop that is entered in an environment: the subject is evaluated, and `going` tells
what is seen from there on. -/
def Evaluates (here stop : Nat) (env : EnvRef)
    (going : EnvRef → World → Value → Sight → Sight) : Sight :=
  Opens true env here fun inner => Comes inner (here + 1) (Works others inner
    (fun fuel => eval (Machine.call host fuel) inner loop.operand.toCode)
    fun world subject => going inner world subject (Resumes true env inner (loop.finish here) stop))

/-- The state of the iteration is set up, and the turns are made that it tells. -/
def Iterates (targets : Targets) (levels here : Nat) (world : World) (subject : Value) (ends : Sight) :
    Sight := fun moments halt =>
  loop.Ranges subject world.heap ∧ ∃ iteration first rounds,
    iteration.Begins loop.kind subject world.heap first ∧
      loop.Turns host others inner targets levels here first ends rounds iteration moments halt

end Sights

section Of

variable {loop : RangeLoop} {scope : Scope} {here : Nat} {labels : List String}
  {key value : Option Expr} {isDefine : Bool} {subject : Expr} {body : Block} {span : Span}
  {lines : List Line}

theorem Of.carries {program : Program} {targets : Targets}
    (isLoop : loop.Of scope here labels key value isDefine subject body span lines)
    (notChan : loop.kind ≠ .chan) (carries : program.Carries targets here lines) :
    program.Carries targets here (opening true span loop.frame) ∧
      program.instr? (here + 1) =
        some (.rangeStart loop.kind loop.keyType loop.slots loop.operand.toCode) ∧
      program.instr? (loop.next here) =
        some (.rangeNext loop.kind loop.slots loop.key loop.value (loop.finish here)) ∧
      program.Carries (targets.closing scope.length (loop.finish here) (loop.step here)) (here + 3)
        loop.body.lines ∧
      program.instr? (loop.step here) = some (.rangeStep loop.slots) ∧
      program.instr? (loop.step here + 1) = some (.goto (loop.next here)) ∧
      program.Carries targets (loop.finish here) (closing true span) ∧
      loop.finish here + 1 = here + lines.length := by
  have parts : (rangeLoop loop.kind loop.keyType loop.slots loop.operand.toCode loop.key loop.value
      loop.body scope.length (here + 1) span).lines =
      ⟨.rangeStart loop.kind loop.keyType loop.slots loop.operand.toCode, span⟩ ::
      ⟨.rangeNext loop.kind loop.slots loop.key loop.value (loop.finish here), span⟩ ::
      (loop.body.lines.map (·.close scope.length (loop.finish here) (loop.step here)) ++
        [⟨.rangeStep loop.slots, span⟩, ⟨.goto (loop.next here), span⟩]) := by
    have isFinish : loop.finish here = here + 1 + 2 + loop.body.length + 1 + 1 := rfl
    have isStep : loop.step here = here + 1 + 2 + loop.body.length := rfl
    have channel : (loop.kind == .chan) = false := by simpa using notChan
    simp [rangeLoop, channel, isFinish, isStep, next, Fragment.close, Fragment.append_lines]
  have length : lines.length = loop.body.length + 6 := by
    rw [isLoop.lines, parts]
    simp [opening, closing, Fragment.length_lines]
  rw [isLoop.lines, parts] at carries
  have within := carries.left.right
  have first : here + (opening true span loop.frame).length = here + 1 := rfl
  rw [first] at within
  have afterStart := within.tail
  have afterNext := afterStart.tail
  have ending := afterNext.right
  rw [List.length_map, ← Fragment.length_lines] at ending
  refine ⟨carries.left.left, within.head, afterStart.head, afterNext.left.opened, ending.head,
    ending.tail.head, ?_, ?_⟩
  · have last := carries.right
    rwa [show here + _ = loop.finish here by
      simp only [finish, step, List.length_append, List.length_cons, List.length_map, opening,
        Fragment.length_lines, if_true, List.length_nil]
      omega] at last
  · rw [length]
    simp only [finish, step]
    omega

end Of

end RangeLoop

end Compile

section Stores

theorem PlacesTyped.ne_none {strict : Prop} {ctx : Ctx strict} {place : Place}
    {wanted : List (Option Ty)} (typed : PlacesTyped strict ctx [place] wanted)
    (notBlank : place ≠ .blank) : none ∉ wanted := by
  cases typed with
  | cons head rest =>
    cases rest
    cases head with
    | blank => exact absurd rfl notBlank
    | _ => simp
  | fresh _ _ rest =>
    cases rest
    simp

variable [Natives] {observer : Observer} {now : Config True} {spot : Spot True} {target : Option Place}
  {value : Value} {rest : Run Next} {goes : World → Sight} {wanted : List (Option Ty)} {less : Nat}

omit [Natives] in
theorem Location.put_of_finishes {location : Location} {others : World → World → Prop}
    {before after : World} (finishes : (location.store value before).Finishes others (.ok ()) after) :
    location.put value before = .ok after := by
  rw [store_apply] at finishes
  cases stored : location.put value before with
  | ok world =>
    rw [stored] at finishes
    rw [finishes.of_done.2]
  | error error =>
    rw [stored] at finishes
    cases finishes

theorem Location.content_put_self {location : Location} {type : Option Ty} {after : World}
    (located : location.Sound now.shape type) (notNone : type ≠ none)
    (stores : value.Stores now.shape type) (stored : location.put value now.world = .ok after) :
    location.content after = .ok value := by
  have isSame : location.isSame location = true := by
    cases location with
    | nilMap elem => cases stored
    | nilSlice index => cases stored
    | blank => exact absurd located notNone
    | _ => simp [isSame]
  rw [content_put located located stored, if_pos isSame, located.kept stores trivial]

theorem Observer.Leads.delivers (hostSafe : Host.Safe True observer.host)
    (sameTask : spot.task = observer.task) (poised : spot.Poised now) (notBlank : target ≠ some .blank)
    (typed : PlacesTyped True spot.ctx target.toList wanted)
    (stores : ∀ type ∈ wanted, value.Stores now.shape type)
    (leads : ∀ later, spot.Poised later → now.shape.Grows later.shape →
      (∀ slot ∈ target.toList.filterMap PlaceOf.inner?, later.shape.ready spot.env slot) →
      (∀ slot, target = some (.slot 0 slot) → later.world = now.world.store spot.env slot value ∧
        later.world.load spot.env slot = value) →
      (target = none → later = now) →
      observer.Leads less spot.env (goes later.world) later (rest later.world)) :
    observer.Leads less spot.env
      (Compile.RangeLoop.Delivers observer.host (Config.Others True observer.task) spot.env target value
        goes now.world) now
      ((storeTarget (Machine.call observer.host less) spot.env target value >>= fun _ => rest)
        now.world) := by
  cases target with
  | none => exact leads now poised (.refl _) (by simp) (by simp) fun _ => rfl
  | some place =>
    have safe := (Machine.watchedCall_safe .never hostSafe less).1
    obtain ⟨type, _, rfl, -, places⟩ := Location.ofFirst_meets safe typed poised.hosts
    have notNone : type ≠ none := fun isNone => typed.ne_none (by simpa using notBlank) (by simp [isNone])
    have parts : (storeTarget (Machine.call observer.host less) spot.env (some place) value >>=
        fun _ => rest) = (Location.ofPlace (Machine.call observer.host less) spot.env place >>=
          fun location => location.store value >>= fun _ => rest) := Run.bind_assoc _ _ _
    rw [parts]
    refine @Observer.Leads.works _ _ _ _ _ _ spot _ _ _
      (fun fuel => Location.ofPlace (Machine.call observer.host fuel) spot.env place) sameTask
      (.of_meets poised places) ?_
    rintro found location poisedFound grows ⟨located, inner⟩ isFound
    have storesFound : value.Stores found.shape type :=
      ⟨(stores type (.head _)).1.grows grows, (stores type (.head _)).2⟩
    refine @Observer.Leads.does _ _ _ _ _ _ spot _ _ _ (location.store value) sameTask
      (.of_meets poisedFound (Location.store_meets poisedFound.quiet located storesFound))
      (location.store_lasts value _) ?_
    rintro later _ poisedLater more ready finishes
    have holds := Location.content_put_self located notNone storesFound
      (Location.put_of_finishes finishes)
    refine (leads later poisedLater (grows.trans more) ?_ ?_ (by simp)).mono
      fun moments halt seen => ⟨holds, seen⟩
    · intro slot member
      obtain ⟨_, isPlace, isInner⟩ := List.mem_filterMap.mp member
      obtain rfl := List.mem_singleton.mp isPlace
      exact ready _ _ (inner slot isInner)
    · rintro slot ⟨⟩
      obtain ⟨isLocation, sameWorld⟩ := isFound.of_done
      obtain rfl := Except.ok.inj isLocation
      refine ⟨by rw [← sameWorld]; exact finishes.of_done.2, ?_⟩
      exact Except.ok.inj holds

end Stores

namespace Compile.RangeLoop

variable (loop : RangeLoop)

def stores : List Slot := (loop.key.toList ++ loop.value.toList).filterMap PlaceOf.inner?

/-- What the parts of a loop are known to be in its environment. -/
structure Typed (scope : Scope) (level : Level) : Prop where
  ranged : loop.kind.Over loop.type loop.keyType loop.valueType
  notChan : loop.kind ≠ .chan
  reserved : loop.slots.Reserved level loop.type loop.keyType
  keys : ∀ (ctx : Ctx True) (layer : Layer), ctx.scope = { owned := true } :: scope →
    ctx.layers[0]? = some layer → layer.level = level →
    ∃ wanted, PlacesTyped True ctx loop.key.toList wanted ∧
      ∀ type ∈ wanted, loop.keyType.StoresTo type
  values : ∀ (ctx : Ctx True) (layer : Layer), ctx.scope = { owned := true } :: scope →
    ctx.layers[0]? = some layer → layer.level = level →
    ∃ wanted, PlacesTyped True ctx loop.value.toList wanted ∧
      ∀ type ∈ wanted, ∃ given, loop.valueType = some given ∧ given.StoresTo type
  notBlank : loop.key ≠ some .blank ∧ loop.value ≠ some .blank
  own : loop.defines = true → ∀ place, loop.key = some place ∨ loop.value = some place →
    ∃ slot, place = .slot 0 slot ∧ level.Has slot
  distinct : loop.defines = true → ∀ first second, loop.key = some (.slot 0 first) →
    loop.value = some (.slot 0 second) → first ≠ second

end Compile.RangeLoop

/-- A run is in the environment of a range loop. From the end of the loop on it is seen to close the
statement, and the exits of the statements around lead out of it. -/
structure Observer.Loops [Natives] (observer : Observer) (course : Course True)
    (loop : Compile.RangeLoop) (scope : Scope) (level : Level) (ready : List Slot) (rest : List Layer)
    (out : Nat → ExitKind → List Layer → Prop) (targets : Targets) (here : Nat) (start : Config True)
    (floor : Nat) (inner : EnvRef) (blocks : List EnvRef) (ends : Sight) : Prop where
  host : Host.Safe True observer.host
  typed : loop.Typed scope level
  fits : Fits True ({ owned := true } :: scope) ({ level, ready } :: rest)
  plain : ∀ layer ∈ rest, layer.parked = [] ∧ layer.held = []
  body : ∀ held, ∃ sites, Runs True rest.length
    (looping scope.length ({ level, ready, held } :: rest) out) (here + 3) loop.body.lines sites
    (stored loop.stores ({ level, ready, held } :: rest)) ({ level, ready, held } :: rest)
  nextAt : course.program.instr? (loop.next here) =
    some (.rangeNext loop.kind loop.slots loop.key loop.value (loop.finish here))
  bodyAt : course.program.Carries
    (targets.closing scope.length (loop.finish here) (loop.step here)) (here + 3) loop.body.lines
  stepAt : course.program.instr? (loop.step here) = some (.rangeStep loop.slots)
  jumpAt : course.program.instr? (loop.step here + 1) = some (.goto (loop.next here))
  deep : course.base < rest.length + 1
  outs : ∀ level kind given, out level kind given →
    level ≠ scope.length ∧ course.base < given.length ∧ given.length ≤ rest.length + 1
  closes : ∀ fuel later layers, course.Busy start observer.task floor inner blocks layers later →
    later.Quiet observer.task → later.world.ip inner = loop.finish here →
    observer.Sees fuel inner (later.world.instr? inner) later ends
  lefts : ∀ fuel (later : Config True) env level kind given, out level kind given →
    later.Quiet observer.task → later.world.ip env = targets level kind →
    observer.Sees fuel env (later.world.instr? env) later (Exited targets scope.length level kind)

namespace Observer.Loops

variable [Natives] {observer : Observer} {course : Course True} {loop : Compile.RangeLoop}
  {scope : Scope} {level : Level} {ready : List Slot} {rest : List Layer}
  {out : Nat → ExitKind → List Layer → Prop} {targets : Targets} {here : Nat}
  {start now mid : Config True} {floor fuel rounds : Nat} {inner : EnvRef} {blocks : List EnvRef}
  {ends : Sight} {iteration : Iteration}

/-- The position of the instructions of the loop, with what is known of its state. -/
def ctx (loops : observer.Loops course loop scope level ready rest out targets here start floor inner
    blocks ends) (held : List (Slot × Value)) : Ctx True :=
  ⟨{ owned := true } :: scope, { level, ready, held } :: rest,
    loops.fits.serves (.cons ⟨rfl, fun _ member => member, fun _ member => member,
      List.nil_subset _⟩ (Serves.refl _))⟩

theorem steps (loops : observer.Loops course loop scope level ready rest out targets here start floor
      inner blocks ends) {goes : Sight}
    (busy : course.Busy start observer.task floor inner blocks
      ({ level, ready, held := loop.slots.holding iteration } :: rest) now)
    (quiet : now.Quiet observer.task) (ip : now.world.ip inner = loop.step here)
    (sees : ∀ less < fuel, ∀ later, now.shape.Grows later.shape →
      course.Busy start observer.task floor inner blocks
        ({ level, ready, held := loop.slots.holding iteration.stepped } :: rest) later →
      later.Quiet observer.task → later.world.ip inner = loop.next here →
      observer.Sees less inner (later.world.instr? inner) later goes) :
    observer.Sees fuel inner (now.world.instr? inner) now
      (Comes inner (loop.step here) fun _ => Comes inner (loop.step here + 1) fun _ => goes) := by
  have advanced := (busy.holds rfl).advance
  obtain ⟨middle, same, first, quiet, busyMiddle, -, ipMiddle, -⟩ :=
    busy.sets rfl quiet loops.typed.reserved (.index (iteration.index + iteration.step))
  obtain ⟨later, gone, second, busyLater, quietLater, -, ipLater, -⟩ :=
    busyMiddle.goto quiet (middle.world.ip inner + 1)
  have ran (call : Caller) (fuel : Nat) : Step.run call fuel inner (.rangeStep loop.slots) now.world =
      .done (later.world.instr? inner, inner) later.world := by
    rw [← same] at advanced
    rw [Step.run, Run.bind_done advanced]
    exact gone
  have isNext : now.world.instr? inner = some (.rangeStep loop.slots) := by
    rw [busy.within.instr?, ip, loops.stepAt]
  have advances := first.trans second
  have atJump : later.world.ip inner = loop.step here + 1 := by rw [ipLater, ipMiddle, ip]
  refine .comes isNext ip ran advances fun less isLess => ?_
  obtain ⟨last, jumped, third, busyLast, quietLast, -, ipLast, -⟩ :=
    busyLater.goto quietLater (loop.next here)
  have isJump : later.world.instr? inner = some (.goto (loop.next here)) := by
    rw [busyLater.within.instr?, atJump, loops.jumpAt]
  refine .comes isJump atJump (fun _ _ => jumped) third fun lesser isLesser => ?_
  exact sees lesser (by omega) last (advances.grows.trans third.grows) busyLast quietLast ipLast

theorem passes (loops : observer.Loops course loop scope level ready rest out targets here start floor
      inner blocks ends) {holds : World → Prop} {goes : Sight}
    (busy : course.Busy start observer.task floor inner blocks
      (stored loop.stores ({ level, ready, held := loop.slots.holding iteration } :: rest)) now)
    (quiet : now.Quiet observer.task) (ip : now.world.ip inner = here + 3) (holding : holds now.world)
    (sees : ∀ less ≤ fuel, ∀ later, now.shape.Grows later.shape →
      course.Busy start observer.task floor inner blocks
        ({ level, ready, held := loop.slots.holding iteration } :: rest) later →
      later.Quiet observer.task → later.world.ip inner = loop.step here →
      observer.Sees less inner (later.world.instr? inner) later
        (Comes inner (loop.step here) fun _ => goes)) :
    observer.Sees fuel inner (now.world.instr? inner) now
      (Passes inner (here + 3) (loop.step here) holds (fun _ => goes)
        (Leaving (here + 3) loop.body.lines
          (Cycles targets scope.length ends (Comes inner (loop.step here) fun _ => goes)))) := by
  have length : here + 3 + loop.body.lines.length = loop.step here := by
    rw [← Fragment.length_lines]
    rfl
  obtain ⟨sites, runs⟩ := loops.body (loop.slots.holding iteration)
  have seen : observer.Sees fuel inner (now.world.instr? inner) now
      (Passes inner (here + 3) (here + 3 + loop.body.lines.length) holds (fun _ => goes)
        (Leaving (here + 3) loop.body.lines
          (Cycles targets scope.length ends (Comes inner (loop.step here) fun _ => goes)))) := by
    refine .passes loops.host runs loops.bodyAt (by rw [length, loops.stepAt]) busy
      (Serves.refl _) loops.plain rfl ?_ quiet ip holding ?_ ?_
    · intro level' kind given exits
      unfold looping at exits
      split at exits
      · rw [exits.length_eq]
        exact ⟨loops.deep, Nat.le_refl _⟩
      · exact (loops.outs level' kind given exits).2
    · intro less isLess later grows busyLater quietLater ipLater
      rw [length] at ipLater ⊢
      exact sees less isLess later grows busyLater quietLater ipLater
    · intro less isLess later left given level' kind exits grows busyLeft quietLeft ipLeft
      unfold looping at exits
      split at exits
      · rename_i own
        subst own
        rw [exits.length_eq, List.length_cons, Nat.sub_self] at busyLeft
        obtain rfl : left = inner := busyLeft.within.env_eq.trans busy.within.env_eq.symm
        have served : Serves (given.take 1 ++ rest)
            ({ level, ready, held := loop.slots.holding iteration } :: rest) := (exits.take 1).append
        have busyHere := busyLeft.serves served
        rw [Targets.closing_self] at ipLeft
        unfold Cycles
        rw [if_pos rfl]
        cases kind with
        | «break» => exact loops.closes less later _ busyHere quietLeft ipLeft
        | «continue» => exact sees less (Nat.le_of_lt isLess) later grows busyHere quietLeft ipLeft
      · rename_i other
        rw [Targets.closing_of_ne other] at ipLeft
        unfold Cycles
        rw [if_neg other]
        exact loops.lefts less later left level' kind given exits quietLeft ipLeft
  rwa [length] at seen

theorem takes (loops : observer.Loops course loop scope level ready rest out targets here start floor
      inner blocks ends) {found : Value × Value} {goes : Sight} {less : Nat}
    (busy : course.Busy start observer.task floor inner blocks
      ({ level, ready, held := loop.slots.holding iteration } :: rest) now)
    (quiet : now.Quiet observer.task) (ip : now.world.ip inner = loop.next here)
    (hands : RangeSlots.Hands now.shape loop.keyType loop.valueType (some found))
    (sees : ∀ lesser ≤ less, ∀ later, now.shape.Grows later.shape →
      course.Busy start observer.task floor inner blocks
        ({ level, ready, held := loop.slots.holding iteration } :: rest) later →
      later.Quiet observer.task → later.world.ip inner = loop.step here →
      observer.Sees lesser inner (later.world.instr? inner) later
        (Comes inner (loop.step here) fun _ => goes)) :
    observer.Leads less inner
      (loop.Turn observer.host (Config.Others True observer.task) inner targets scope.length here ends
        found goes now.world) now
      ((storeTarget (Machine.call observer.host less) inner loop.key found.1 >>= fun _ =>
        storeTarget (Machine.call observer.host less) inner loop.value found.2 >>= fun _ =>
          Step.advance inner) now.world) := by
  let spot : Spot True := ⟨course, start, observer.task, floor, inner, blocks,
    loops.ctx (loop.slots.holding iteration), loop.next here⟩
  have poised : spot.Poised now := ⟨busy, quiet, ip⟩
  have typed := loops.typed
  obtain ⟨keyWanted, keyTyped, keyStores⟩ := typed.keys spot.ctx _ rfl rfl rfl
  obtain ⟨valueWanted, valueTyped, valueStores⟩ := typed.values spot.ctx _ rfl rfl rfl
  obtain ⟨isKey, known, isValue⟩ := hands found rfl
  refine @Observer.Leads.delivers _ _ _ spot _ _ _ _ _ _ loops.host rfl poised typed.notBlank.1 keyTyped
    (fun type member => isKey.stores (keyStores type member)) ?_
  intro middle poisedMiddle first keyReady keyIs noKey
  refine @Observer.Leads.delivers _ _ _ spot _ _ _ _ _ _ loops.host rfl poisedMiddle typed.notBlank.2
    valueTyped (fun type member => ?_) ?_
  · obtain ⟨given, isGiven, storesTo⟩ := valueStores type member
    exact ((isValue given isGiven).grows first).stores storesTo
  intro later poisedLater second valueReady valueIs noValue
  obtain ⟨last, gone, advances, busyLast, quietLast, shapeLast, ipLast, loads⟩ :=
    poisedLater.busy.goto poisedLater.quiet (later.world.ip inner + 1)
  have ready : ∀ slot ∈ loop.stores, last.shape.ready inner slot := by
    intro slot member
    rw [shapeLast]
    unfold Compile.RangeLoop.stores at member
    rw [List.filterMap_append] at member
    rcases List.mem_append.mp member with isKey | isValue
    · exact second.ready _ _ (keyReady slot isKey)
    · exact valueReady slot isValue
  have atBody : last.world.ip inner = here + 3 := by
    rw [ipLast, poisedLater.ip]
    rfl
  refine Observer.Leads.done gone advances ?_
  refine loops.passes (busyLast.stored fun _ => ready) quietLast atBody ?_
    fun lesser isLess final grows =>
    sees lesser isLess final (((first.trans second).trans advances.grows).trans grows)
  intro defines
  refine ⟨fun slot isSlot => ?_, fun slot isSlot => ?_⟩
  · rw [loads]
    obtain ⟨-, loaded⟩ := keyIs slot isSlot
    cases isTarget : loop.value with
    | none =>
      rw [noValue isTarget]
      exact loaded
    | some place =>
      obtain ⟨other, rfl, hasOther⟩ := typed.own defines place (.inr isTarget)
      obtain ⟨_, same, hasSlot⟩ := typed.own defines _ (.inl isSlot)
      cases same
      have differs := typed.distinct defines slot other isSlot isTarget
      rw [(valueIs other isTarget).1, World.load_store_ne _ _ fun same => differs
        (hasOther.1.unique hasSlot.1 same.2.1 same.2.2)]
      exact loaded
  · rw [loads]
    exact (valueIs slot isSlot).2

theorem turns (loops : observer.Loops course loop scope level ready rest out targets here start floor
      inner blocks ends) (few : fuel < rounds) (grows : mid.measured.shape.Grows now.shape)
    (inhabits : iteration.subject.Inhabits mid.shape loop.type)
    (keys : ∀ key elem map type ref, loop.kind = .map → iteration.subject = .map key elem map →
      iteration.keys = .slice type ref → mid.shape.keys ref = some (mid.world.heap.items ref) ∧
        ∀ value ∈ mid.world.heap.items ref, value.Inhabits mid.shape loop.keyType)
    (busy : course.Busy start observer.task floor inner blocks
      ({ level, ready, held := loop.slots.holding iteration } :: rest) now)
    (quiet : now.Quiet observer.task) (ip : now.world.ip inner = loop.next here) :
    observer.Sees fuel inner (now.world.instr? inner) now
      (loop.Turns observer.host (Config.Others True observer.task) inner targets scope.length here
        mid.world.heap ends rounds iteration) := by
  induction rounds generalizing fuel now iteration with
  | zero => exact absurd few (Nat.not_lt_zero _)
  | succ rounds ih =>
  have grown : mid.shape.Grows now.shape := Config.calm_measured.grows.trans grows
  have pinned : loop.Pinned iteration mid.world.heap now.world.heap := by
    refine ⟨fun ref inside => Config.size_items grows inside,
      fun key elem map type ref isKind isMap isKeys => ?_⟩
    have known := grown.keys _ _ (keys key elem map type ref isKind isMap isKeys).1
    obtain ⟨-, present⟩ := now.sound.heap.keys ref _ known
    simp [Heap.items, Array.getD_eq_getD_getElem?, present]
  have typed := loops.typed
  have isNext : now.world.instr? inner =
      some (.rangeNext loop.kind loop.slots loop.key loop.value (loop.finish here)) := by
    rw [busy.within.instr?, ip, loops.nextAt]
  refine .runs isNext ip fun less isLess => ?_
  unfold Compile.RangeLoop.Handles
  have yields := (busy.holds rfl).next typed.notChan
  cases made : iteration.hands loop.kind now.world with
  | error error =>
    rw [made] at yields
    show observer.Leads less inner _ now (Run.bind _ _ now.world)
    rw [Run.bind_apply, yields]
    exact ⟨now, rfl, .refl _ _, quiet, ⟨_, _, _, _, _, busy⟩, fun world raised halt whole =>
      ⟨pinned, world, raised, rfl, whole⟩⟩
  | ok handed =>
  obtain ⟨found, after⟩ := handed
  rw [made] at yields
  obtain ⟨world, done, sets⟩ := yields
  obtain ⟨middle, rfl, advances, quietMiddle, busyMiddle, shape, ipMiddle, heap⟩ :=
    busy.sets rfl quiet typed.reserved sets
  rw [Step.run, Run.bind_done done]
  refine Observer.Leads.sooner ?_ advances
  cases found with
  | none =>
    obtain ⟨last, gone, further, busyLast, quietLast, -, ipLast, -⟩ :=
      busyMiddle.goto quietMiddle (loop.finish here)
    exact Observer.Leads.done gone further ((loops.closes less last _ busyLast quietLast ipLast).mono
      fun moments halt seen => ⟨pinned, seen⟩)
  | some found =>
    obtain ⟨sameSubject, sameKeys⟩ := Iteration.hands_keeps made
    have fits := Iteration.hands_fit trivial typed.ranged (inhabits.grows grown)
      (fun key elem map type ref isKind isMap isKeys value member => by
        rw [pinned.keys key elem map type ref isKind isMap isKeys] at member
        exact ((keys key elem map type ref isKind isMap isKeys).2 value member).grows grown) made
    refine Observer.Leads.mono (loops.takes busyMiddle quietMiddle (ipMiddle.trans ip) (shape ▸ fits)
      fun lesser isLesser later more busyLater quietLater ipLater => ?_)
      fun moments halt seen => ⟨pinned, middle.world, heap, seen⟩
    refine loops.steps busyLater quietLater ipLater fun least isLeast last further busyLast quietLast
      ipLast => ?_
    refine ih (by omega) ((grows.trans advances.grows).trans (more.trans further)) ?_ ?_ busyLast
        quietLast
      ipLast
    · exact sameSubject.symm ▸ inhabits
    · intro key elem map type ref isKind isMap isKeys
      exact keys key elem map type ref isKind (sameSubject ▸ isMap) (sameKeys ▸ isKeys)

end Observer.Loops

end MiniGo
