import MiniGo.Interpreter
/-!
Two runs side by side. A comparison says what holds between the states of two runs, and which of them
may be broken off before the other. Two outcomes agree if they end alike, or wait alike and agree again
whatever others do meanwhile on both sides. A lockstep is a comparison that every operation on the state
keeps; the evaluation of expressions keeps it too.
-/

namespace MiniGo

structure Comparison where
  /-- What is known of both states. -/
  State : Type
  /-- How this may change while both run, and while both wait. -/
  goes : State → State → Prop
  waits : State → State → Prop
  holds : State → World → World → Prop
  /-- The first run, or the second, may be broken off early. -/
  early : Prop := False
  late : Prop := False
  refl : ∀ state, goes state state
  trans : ∀ {first second third}, goes first second → goes second third → goes first third

/-- Two outcomes that agree, and end as `post` says. -/
inductive Outcome.Agree (pair : Comparison) {α β : Type}
    (post : pair.State → Except RuntimeError α → Except RuntimeError β → Prop) :
    pair.State → Outcome α → Outcome β → Prop
  | done {state now : pair.State} {value : α} {other : β} {left right : World} :
    pair.goes state now → pair.holds now left right → post now (.ok value) (.ok other) →
    Agree pair post state (.done value left) (.done other right)
  | fail {state now : pair.State} {error other : RuntimeError} {left right : World} :
    pair.goes state now → pair.holds now left right → post now (.error error) (.error other) →
    Agree pair post state (.fail error left) (.fail other right)
  | await {state now : pair.State} {wait : Wait} {left right : World} {resume : World → Outcome α}
      {other : World → Outcome β} :
    pair.goes state now → pair.holds now left right →
    (∀ later left right, pair.waits now later → pair.holds later left right →
      Agree pair post later (resume left) (other right)) →
    Agree pair post state (.await wait left resume) (.await wait right other)
  | early {state : pair.State} {other : Outcome β} : pair.early →
    Agree pair post state (.broken .exhausted) other
  | late {state : pair.State} {outcome : Outcome α} : pair.late →
    Agree pair post state outcome (.broken .exhausted)
  | exhausted {state : pair.State} :
    Agree pair post state (.broken .exhausted) (.broken .exhausted)

namespace Outcome.Agree

variable {pair : Comparison} {α β γ δ : Type} {state now : pair.State} {outcome : Outcome α}
  {other : Outcome β} {post : pair.State → Except RuntimeError α → Except RuntimeError β → Prop}

theorem mono {wider : pair.State → Except RuntimeError α → Except RuntimeError β → Prop}
    (agree : outcome.Agree pair post state other)
    (implies : ∀ now result found, post now result found → wider now result found) :
    outcome.Agree pair wider state other := by
  induction agree with
  | done goes holds ends => exact .done goes holds (implies _ _ _ ends)
  | fail goes holds ends => exact .fail goes holds (implies _ _ _ ends)
  | await goes holds _ ih => exact .await goes holds ih
  | early may => exact .early may
  | late may => exact .late may
  | exhausted => exact .exhausted

theorem sooner (agree : outcome.Agree pair post now other) (before : pair.goes state now) :
    outcome.Agree pair post state other := by
  cases agree with
  | done goes holds ends => exact .done (pair.trans before goes) holds ends
  | fail goes holds ends => exact .fail (pair.trans before goes) holds ends
  | await goes holds resumes => exact .await (pair.trans before goes) holds resumes
  | early may => exact .early may
  | late may => exact .late may
  | exhausted => exact .exhausted

theorem keeps {known : pair.State → Prop} (agree : outcome.Agree pair post state other)
    (goes : ∀ {before after}, pair.goes before after → known before → known after)
    (waits : ∀ {before after}, pair.waits before after → known before → known after)
    (start : known state) :
    outcome.Agree pair (fun now result found => post now result found ∧ known now) state other := by
  induction agree with
  | done moves holds ends => exact .done moves holds ⟨ends, goes moves start⟩
  | fail moves holds ends => exact .fail moves holds ⟨ends, goes moves start⟩
  | await moves holds _ ih =>
    exact .await moves holds fun later left right meanwhile found =>
      ih later left right meanwhile found (waits meanwhile (goes moves start))
  | early may => exact .early may
  | late may => exact .late may
  | exhausted => exact .exhausted

theorem bind {wider : pair.State → Except RuntimeError γ → Except RuntimeError δ → Prop}
    {next : α → World → Outcome γ} {otherNext : β → World → Outcome δ}
    (agree : outcome.Agree pair post state other)
    (goes : ∀ now value found left right, pair.holds now left right →
      post now (.ok value) (.ok found) →
      (next value left).Agree pair wider now (otherNext found right))
    (fails : ∀ now error found, post now (.error error) (.error found) →
      wider now (.error error) (.error found)) :
    (outcome.bind next).Agree pair wider state (other.bind otherNext) := by
  induction agree with
  | done moves holds ends => exact (goes _ _ _ _ _ holds ends).sooner moves
  | fail moves holds ends => exact .fail moves holds (fails _ _ _ ends)
  | await moves holds _ ih => exact .await moves holds ih
  | early may => exact .early may
  | late may => exact .late may
  | exhausted => exact .exhausted

theorem attempt
    {post : pair.State → Except RuntimeError (Except RuntimeError α) →
      Except RuntimeError (Except RuntimeError β) → Prop}
    (agree : outcome.Agree pair (fun now result found => post now (.ok result) (.ok found)) state
      other) :
    outcome.attempt.Agree pair post state other.attempt := by
  induction agree with
  | done moves holds ends => exact .done moves holds ends
  | fail moves holds ends => exact .done moves holds ends
  | await moves holds _ ih => exact .await moves holds ih
  | early may => exact .early may
  | late may => exact .late may
  | exhausted => exact .exhausted

end Outcome.Agree

namespace Comparison

variable (pair : Comparison) {α : Type}

def Alike (run other : Run α) : Prop :=
  ∀ state left right, pair.holds state left right →
    (run left).Agree pair (fun _ result found => result = found) state (other right)

def Calls (call other : Caller) : Prop :=
  ∀ (thread : ThreadRef) (invocation : Invocation),
    pair.Alike (call thread invocation) (other thread invocation)

def Reads (view : World → α) : Prop :=
  ∀ state left right, pair.holds state left right → view left = view right

def Keeps (change : World → World) : Prop :=
  ∀ state left right, pair.holds state left right → pair.holds state (change left) (change right)

/-- The first run has the fuel of the second, or the one with less may be broken off early. -/
def Fuels (fuel other : Nat) : Prop :=
  fuel = other ∨ (pair.early ∧ fuel ≤ other) ∨ (pair.late ∧ other ≤ fuel)

variable {pair}

theorem Reads.comp {β : Type} {view : World → α} (reads : pair.Reads view) (next : α → β) :
    pair.Reads fun world => next (view world) :=
  fun state left right holds => congrArg next (reads state left right holds)

theorem Fuels.pred {fuel other : Nat} (fuels : pair.Fuels (fuel + 1) (other + 1)) :
    pair.Fuels fuel other := by
  rcases fuels with same | ⟨may, less⟩ | ⟨may, less⟩
  · exact .inl (by omega)
  · exact .inr (.inl ⟨may, by omega⟩)
  · exact .inr (.inr ⟨may, by omega⟩)

theorem Fuels.zero {fuel : Nat} (fuels : pair.Fuels 0 fuel) : fuel = 0 ∨ pair.early := by
  rcases fuels with same | ⟨may, -⟩ | ⟨-, less⟩
  · exact .inl same.symm
  · exact .inr may
  · exact .inl (by omega)

theorem Fuels.zero_right {fuel : Nat} (fuels : pair.Fuels fuel 0) : fuel = 0 ∨ pair.late := by
  rcases fuels with same | ⟨-, less⟩ | ⟨may, -⟩
  · exact .inl same
  · exact .inl (by omega)
  · exact .inr may

end Comparison

namespace Comparison.Alike

variable {pair : Comparison} {α β : Type} {run other : Run α}

theorem bind {next otherNext : α → Run β} (alike : pair.Alike run other)
    (goes : ∀ value, pair.Alike (next value) (otherNext value)) :
    pair.Alike (run >>= next) (other >>= otherNext) := by
  intro state left right holds
  show (Run.bind run next left).Agree pair _ state (Run.bind other otherNext right)
  rw [Run.bind_apply, Run.bind_apply]
  refine (alike state left right holds).bind ?_ ?_
  · rintro now value _ left right holds ⟨⟩
    exact goes value now left right holds
  · rintro now error _ ⟨⟩
    rfl

theorem attempt (alike : pair.Alike run other) : pair.Alike (Run.attempt run) (Run.attempt other) := by
  intro state left right holds
  rw [Run.attempt_apply, Run.attempt_apply]
  exact ((alike state left right holds).mono fun _ _ _ same => congrArg Except.ok same).attempt

theorem pure (value : α) : pair.Alike (Pure.pure value) (Pure.pure value) :=
  fun state _ _ holds => .done (pair.refl state) holds rfl

theorem fail (error : RuntimeError) : pair.Alike (Run.fail error : Run α) (Run.fail error) :=
  fun state _ _ holds => .fail (pair.refl state) holds rfl

theorem ofExcept (result : Except RuntimeError α) :
    pair.Alike (Run.ofExcept result) (Run.ofExcept result) := by
  cases result with
  | ok value => exact .pure value
  | error error => exact .fail error

theorem read {view : World → α} (reads : pair.Reads view) : pair.Alike (Run.read view) (Run.read view) :=
  fun state left right holds =>
    .done (pair.refl state) holds (congrArg Except.ok (reads state left right holds))

theorem tryRead {view : World → Except RuntimeError α} (reads : pair.Reads view) :
    pair.Alike (Run.tryRead view) (Run.tryRead view) := by
  intro state left right holds
  simp only [Run.tryRead, reads state left right holds]
  cases view right with
  | ok value => exact .done (pair.refl state) holds rfl
  | error error => exact .fail (pair.refl state) holds rfl

theorem modify {change : World → World} (keeps : pair.Keeps change) :
    pair.Alike (Run.modify change) (Run.modify change) :=
  fun state left right holds => .done (pair.refl state) (keeps state left right holds) rfl

theorem update {change : World → α × World} (reads : pair.Reads fun world => (change world).1)
    (keeps : pair.Keeps fun world => (change world).2) :
    pair.Alike (Run.update change) (Run.update change) :=
  fun state left right holds => .done (pair.refl state) (keeps state left right holds)
    (congrArg Except.ok (reads state left right holds))

theorem exhausted {fuel : Nat} {run : Run α} (fuels : pair.Fuels 0 fuel)
    (same : fuel = 0 → run = Run.exhausted) : pair.Alike Run.exhausted run := by
  intro state left right _
  rcases fuels.zero with isZero | may
  · rw [same isZero]
    exact .exhausted
  · exact .early may

theorem exhausted_right {fuel : Nat} {run : Run α} (fuels : pair.Fuels fuel 0)
    (same : fuel = 0 → run = Run.exhausted) : pair.Alike run Run.exhausted := by
  intro state left right _
  rcases fuels.zero_right with isZero | may
  · rw [same isZero]
    exact .exhausted
  · exact .late may

end Comparison.Alike

def Thread.bare (thread : Thread) : Thread := { thread with pool := [] }

/-- A comparison that operations on the state keep. Of some environments it is known that both runs are
at the same position in them (`poised`); the others may only be entered anew or jumped in. -/
structure Lockstep extends Comparison where
  poised : State → EnvRef → Prop
  poised_goes : ∀ {before after env}, goes before after → poised before env → poised after env
  poised_waits : ∀ {before after env}, waits before after → poised before env → poised after env
  heap : toComparison.Reads (·.heap)
  exchange : toComparison.Reads (·.exchange)
  up : ∀ env hops, toComparison.Reads (·.up env hops)
  load : ∀ env slot, toComparison.Reads (·.load env slot)
  threadOf : ∀ env, toComparison.Reads (·.threadOf env)
  setHeap : ∀ heap, toComparison.Keeps ({ · with heap })
  setExchange : ∀ exchange, toComparison.Keeps ({ · with exchange })
  write : ∀ text, toComparison.Keeps (·.write text)
  store : ∀ env slot value, toComparison.Keeps (·.store env slot value)
  retain : ∀ env, toComparison.Keeps (·.retain env)
  drop : ∀ env, toComparison.Keeps (·.drop env)
  recycle : ∀ thread env, toComparison.Keeps (·.recycle thread env)
  leave : ∀ env hops, toComparison.Reads (fun world => (world.leave env hops).1) ∧
    toComparison.Keeps fun world => (world.leave env hops).2
  unwind : ∀ root env, toComparison.Reads (fun world => (world.unwind root env).1) ∧
    toComparison.Keeps fun world => (world.unwind root env).2
  /-- Whatever is left with a thread. -/
  thread : ∀ {α : Type} ref (view : Thread → α), (∀ thread, view thread.bare = view thread) →
    toComparison.Reads fun world => view (world.thread ref)
  updateThread : ∀ ref change, (∀ thread : Thread, change thread.bare = (change thread).bare) →
    toComparison.Keeps (·.updateThread ref change)
  spawnThread : ∀ parent, toComparison.Reads (fun world => (world.spawnThread parent).1) ∧
    toComparison.Keeps fun world => (world.spawnThread parent).2
  spawn : ∀ spawn, toComparison.Keeps fun world =>
    { world with spawned := world.spawned + 1, pending := world.pending ++ [spawn] }
  /-- Positions. -/
  ip : ∀ {state left right env}, holds state left right → poised state env →
    left.ip env = right.ip env ∧ left.instr? env = right.instr? env
  setIp : ∀ {state left right} env position, holds state left right →
    ∃ now, goes state now ∧ holds now (left.setIp env position) (right.setIp env position) ∧
      poised now env
  acquire : ∀ {state left right} thread outer program ip objects words, holds state left right →
    (left.acquire thread outer program ip objects words).1 =
      (right.acquire thread outer program ip objects words).1 ∧
    ∃ now, goes state now ∧ holds now (left.acquire thread outer program ip objects words).2
      (right.acquire thread outer program ip objects words).2 ∧
      poised now (left.acquire thread outer program ip objects words).1
  push : ∀ {state left right env} objects words, holds state left right → poised state env →
    (left.push env objects words).1 = (right.push env objects words).1 ∧
    ∃ now, goes state now ∧ holds now (left.push env objects words).2
      (right.push env objects words).2 ∧ poised now (left.push env objects words).1
  pop : ∀ {state left right env}, holds state left right → poised state env →
    (left.pop env).1 = (right.pop env).1 ∧
    ∃ now, goes state now ∧ holds now (left.pop env).2 (right.pop env).2 ∧
      poised now (left.pop env).1

namespace Lockstep

variable {pair : Lockstep} {α : Type}

abbrev Alike (pair : Lockstep) (run other : Run α) : Prop := pair.toComparison.Alike run other

open Comparison.Alike

theorem tryHeap (change : Heap → Except RuntimeError Heap) :
    pair.Alike (Run.tryHeap change) (Run.tryHeap change) := by
  intro state left right holds
  simp only [Run.tryHeap, pair.heap state left right holds]
  cases change right.heap with
  | ok heap => exact .done (pair.refl state) (pair.setHeap heap state left right holds) rfl
  | error error => exact .fail (pair.refl state) holds rfl

theorem updateHeap (change : Heap → α × Heap) :
    pair.Alike (Run.updateHeap change) (Run.updateHeap change) := by
  intro state left right holds
  simp only [Run.updateHeap, pair.heap state left right holds]
  exact .done (pair.refl state) (pair.setHeap _ state left right holds) rfl

theorem updateExchange (change : Exchange → α × Exchange) :
    pair.Alike (Run.updateExchange change) (Run.updateExchange change) := by
  intro state left right holds
  simp only [Run.updateExchange, pair.exchange state left right holds]
  exact .done (pair.refl state) (pair.setExchange _ state left right holds) rfl

theorem tryExchange (change : Exchange → Except RuntimeError (α × Exchange)) :
    pair.Alike (Run.tryExchange change) (Run.tryExchange change) := by
  intro state left right holds
  simp only [Run.tryExchange, pair.exchange state left right holds]
  cases change right.exchange with
  | ok found => exact .done (pair.refl state) (pair.setExchange _ state left right holds) rfl
  | error error => exact .fail (pair.refl state) holds rfl

theorem yield : pair.Alike Run.yield Run.yield := fun state _ _ holds =>
  .await (pair.refl state) holds fun later _ _ _ found => .done (pair.refl later) found rfl

theorem waitFor (wait : Wait) : pair.Alike (Run.waitFor wait) (Run.waitFor wait) := by
  intro state left right holds
  simp only [Run.waitFor, pair.exchange state left right holds]
  split
  · exact .done (pair.refl state) holds rfl
  · exact .await (pair.refl state) holds fun later _ _ _ found => .done (pair.refl later) found rfl

theorem storing (env : EnvRef) (slot : Slot) (value : Value) :
    pair.Alike (Run.store env slot value) (Run.store env slot value) :=
  .modify (pair.store env slot value)

theorem loading (env : EnvRef) (hops : Nat) (slot : Slot) :
    pair.Alike (Run.load env hops slot) (Run.load env hops slot) := by
  refine .read fun state left right holds => ?_
  have same : left.up env hops = right.up env hops := pair.up env hops state left right holds
  rw [same]
  exact pair.load _ slot state left right holds

theorem dropping (env : EnvRef) : pair.Alike (Run.modify (·.drop env)) (Run.modify (·.drop env)) :=
  .modify (pair.drop env)

theorem send (ref : ChanRef) (value : Value) : pair.Alike (Run.send ref value) (Run.send ref value) := by
  have capacity : pair.Reads fun world => (world.exchange.channel ref).capacity :=
    pair.exchange.comp fun exchange => (exchange.channel ref).capacity
  refine (waitFor _).bind fun _ => (tryExchange _).bind fun ticket => (read capacity).bind
    fun capacity => ?_
  split
  · exact waitFor _
  · exact .pure _

theorem recv (elem : Ty) (ref : ChanRef) : pair.Alike (Run.recv elem ref) (Run.recv elem ref) := by
  have enters : pair.Alike
      (Run.modify fun world => { world with exchange := world.exchange.enterRecv ref })
      (Run.modify fun world => { world with exchange := world.exchange.enterRecv ref }) := by
    refine .modify fun state left right holds => ?_
    simp only [pair.exchange state left right holds]
    exact pair.setExchange _ state left right holds
  exact enters.bind fun _ => (waitFor _).bind fun _ => (updateExchange _).bind fun _ => .pure _

theorem selectRounds {fuel other : Nat} (fuels : pair.Fuels fuel other) (select : Selecting) :
    pair.Alike (Run.selectRounds fuel select) (Run.selectRounds other select) := by
  induction fuel generalizing other select with
  | zero =>
    exact exhausted fuels fun isZero => by
      subst isZero
      rfl
  | succ fuel ih =>
    cases other with
    | zero => exact exhausted_right fuels nofun
    | succ other =>
      refine (updateExchange _).bind fun ending => (ofExcept _).bind fun round => ?_
      cases round with
      | chosen selected => exact .pure _
      | sleep since next => exact (waitFor _).bind fun _ => ih fuels.pred next

theorem select {fuel other : Nat} (fuels : pair.Fuels fuel other) (cases : List SelectCase)
    (hasDefault : Bool) :
    pair.Alike (Run.select fuel cases hasDefault) (Run.select other cases hasDefault) := by
  unfold Run.select
  split
  · exact .fail _
  · refine (updateExchange _).bind fun claim => (selectRounds fuels _).bind fun selected => ?_
    cases selected with
    | default => exact yield.bind fun _ => .pure _
    | case index received => exact (Comparison.Alike.pure ()).bind fun _ => .pure _

theorem newSlice (elem : Ty) (items : List Value) :
    pair.Alike (Run.newSlice elem items) (Run.newSlice elem items) :=
  (updateHeap _).bind fun _ => .pure _

theorem sliceItem (base : Value) (index : Int64) :
    pair.Alike (Run.sliceItem base index) (Run.sliceItem base index) := by
  unfold Run.sliceItem
  split
  · exact tryRead (pair.heap.comp fun heap => heap.item _ index)
  · exact .fail _

theorem mapEntry (base key : Value) : pair.Alike (Run.mapEntry base key) (Run.mapEntry base key) := by
  unfold Run.mapEntry
  split
  · exact tryRead (pair.heap.comp fun heap => heap.entry? _ key)
  · exact .pure _

theorem recvFrom (channel : Value) : pair.Alike (Run.recvFrom channel) (Run.recvFrom channel) := by
  unfold Run.recvFrom
  split
  · exact recv _ _
  · exact .fail _

theorem sendTo (channel value : Value) :
    pair.Alike (Run.sendTo channel value) (Run.sendTo channel value) := by
  unfold Run.sendTo
  split
  · exact send _ _
  · exact .fail _

theorem elements (value : Value) : pair.Alike (Run.elements value) (Run.elements value) := by
  unfold Run.elements
  split
  · exact read (pair.heap.comp fun heap => (heap.items _).toList)
  · exact .pure _

theorem appended (elem : Ty) (base : Value) (extra : List Value) :
    pair.Alike (Run.appended elem base extra) (Run.appended elem base extra) := by
  unfold Run.appended
  split
  · exact (updateHeap _).bind fun _ => .pure _
  · exact newSlice _ _

theorem length (value : Value) :
    pair.Alike (Run.tryRead (·.length value)) (Run.tryRead (·.length value)) := by
  refine tryRead fun state left right holds => ?_
  have heap := pair.heap state left right holds
  have exchange := pair.exchange state left right holds
  cases value <;> simp only [World.length, heap, exchange]

theorem capacityOf (value : Value) : pair.Alike (Run.capacityOf value) (Run.capacityOf value) := by
  unfold Run.capacityOf
  split
  · exact read (pair.exchange.comp fun exchange =>
      Value.int (Int64.ofNat (exchange.channel _).capacity))
  · exact (length _).bind fun _ => .pure _

theorem closure (template : Template) (env : EnvRef) :
    pair.Alike (Run.closure template env) (Run.closure template env) :=
  (modify (pair.retain env)).bind fun _ => .pure _

section Evaluation

variable {call other : Caller}

mutual

theorem eval_alike (calls : pair.Calls call other) (env : EnvRef) :
    (code : Code) → pair.Alike (eval call env code) (eval other env code)
  | .const _ => .pure _
  | .load hops slot => loading env hops slot
  | .binary _ left right =>
    (eval_alike calls env left).bind fun _ => (eval_alike calls env right).bind fun _ => .ofExcept _
  | .logical stop left right => by
    refine (eval_alike calls env left).bind fun _ => (ofExcept _).bind fun truth => ?_
    split
    · exact .pure _
    · exact eval_alike calls env right
  | .unary _ operand => (eval_alike calls env operand).bind fun _ => .ofExcept _
  | .convert _ operand => (eval_alike calls env operand).bind fun _ => .pure _
  | .receive channel =>
    (eval_alike calls env channel).bind fun _ => (recvFrom _).bind fun _ => .pure _
  | .sliceIndex base index =>
    (eval_alike calls env index).bind fun _ => (ofExcept _).bind fun _ =>
      (eval_alike calls env base).bind fun _ => sliceItem _ _
  | .stringIndex base index =>
    (eval_alike calls env base).bind fun _ => (ofExcept _).bind fun _ =>
      (eval_alike calls env index).bind fun _ => (ofExcept _).bind fun _ => .ofExcept _
  | .mapIndex _ base key =>
    (eval_alike calls env key).bind fun _ => (eval_alike calls env base).bind fun _ =>
      (mapEntry _ _).bind fun _ => .pure _
  | .sliceLit _ items => (evalAll_alike calls env items).bind fun _ => newSlice _ _
  | .mapLit _ _ entries =>
    (updateHeap _).bind fun ref => (evalEntries_alike calls env ref entries).bind fun _ => .pure _
  | .typeAssert target operand => by
    refine (eval_alike calls env operand).bind fun value => ?_
    split
    · exact .pure _
    · exact .fail _
  | .closure template => closure template env
  | .builtin _ _ => .pure _
  | .length operand => (eval_alike calls env operand).bind fun _ => (length _).bind fun _ => .pure _
  | .capacity operand => (eval_alike calls env operand).bind fun _ => capacityOf _
  | .append _ base extra =>
    (eval_alike calls env base).bind fun _ => (evalValues_alike calls env extra).bind fun _ =>
      appended _ _ _
  | .makeSlice _ length =>
    (eval_alike calls env length).bind fun _ => (ofExcept _).bind fun _ =>
      (ofExcept _).bind fun _ => newSlice _ _
  | .makeMap _ _ => (updateHeap _).bind fun _ => .pure _
  | .makeChan _ none => (updateExchange _).bind fun _ => .pure _
  | .makeChan _ (some size) =>
    (eval_alike calls env size).bind fun _ => (ofExcept _).bind fun _ =>
      (ofExcept _).bind fun _ => (updateExchange _).bind fun _ => .pure _
  | .first values => (evalValues_alike calls env values).bind fun _ => .pure _

theorem evalAll_alike (calls : pair.Calls call other) (env : EnvRef) :
    (codes : List Code) → pair.Alike (evalAll call env codes) (evalAll other env codes)
  | [] => .pure _
  | code :: rest =>
    (eval_alike calls env code).bind fun _ => (evalAll_alike calls env rest).bind fun _ => .pure _

theorem evalEntries_alike (calls : pair.Calls call other) (env : EnvRef) (ref : MapRef) :
    (entries : List (Code × Code)) →
      pair.Alike (evalEntries call env ref entries) (evalEntries other env ref entries)
  | [] => .pure _
  | (key, value) :: rest =>
    (eval_alike calls env key).bind fun _ => (eval_alike calls env value).bind fun _ =>
      (tryHeap _).bind fun _ => evalEntries_alike calls env ref rest

theorem evalValues_alike (calls : pair.Calls call other) (env : EnvRef) :
    (values : Values) → pair.Alike (evalValues call env values) (evalValues other env values)
  | .each items => evalAll_alike calls env items
  | .call callee args _ =>
    (eval_alike calls env callee).bind fun _ => (evalValues_alike calls env args).bind fun _ =>
      (read (pair.threadOf env)).bind fun thread => calls thread _
  | .elements slice => (eval_alike calls env slice).bind fun _ => elements _
  | .mapLookup _ base key => by
    refine (eval_alike calls env key).bind fun _ => (eval_alike calls env base).bind fun _ =>
      (mapEntry _ _).bind fun found => ?_
    cases found <;> exact .pure _
  | .receiveOk channel =>
    (eval_alike calls env channel).bind fun _ => (recvFrom _).bind fun _ => .pure _
  | .typeAssertOk target operand => by
    refine (eval_alike calls env operand).bind fun value => ?_
    split <;> exact .pure _

end

theorem evalCall_alike (calls : pair.Calls call other) (env : EnvRef) (node : Call) :
    pair.Alike (evalCall call env node) (evalCall other env node) :=
  (eval_alike calls env node.callee).bind fun _ =>
    (evalValues_alike calls env node.args).bind fun _ => .pure _

theorem evalComms_alike (calls : pair.Calls call other) (env : EnvRef) (comms : List Comm) :
    pair.Alike (evalComms call env comms) (evalComms other env comms) := by
  induction comms with
  | nil => exact .pure _
  | cons comm rest ih =>
    refine Comparison.Alike.bind ?_ fun _ => ih.bind fun _ => .pure _
    cases comm with
    | send channel value =>
      exact (eval_alike calls env channel).bind fun _ =>
        (eval_alike calls env value).bind fun _ => .pure _
    | recv channel => exact (eval_alike calls env channel).bind fun _ => .pure _

theorem ofPlace_alike (calls : pair.Calls call other) (env : EnvRef) (place : Place) :
    pair.Alike (Location.ofPlace call env place) (Location.ofPlace other env place) := by
  cases place with
  | slot hops target => exact .read ((pair.up env hops).comp fun ref => Location.slot ref target)
  | element container base index =>
    exact (eval_alike calls env base).bind fun _ =>
      (eval_alike calls env index).bind fun _ => .ofExcept _
  | blank => exact .pure _

theorem ofPlaces_alike (calls : pair.Calls call other) (env : EnvRef) (places : List Place) :
    pair.Alike (Location.ofPlaces call env places) (Location.ofPlaces other env places) := by
  induction places with
  | nil => exact .pure _
  | cons place rest ih =>
    exact (ofPlace_alike calls env place).bind fun _ => ih.bind fun _ => .pure _

theorem loadLocation (location : Location) : pair.Alike location.load location.load := by
  cases location with
  | slot env target => exact loading env 0 target
  | item ref index => exact .tryRead (pair.heap.comp fun heap => heap.item ref index)
  | entry elem ref key =>
    exact (tryRead (pair.heap.comp fun heap => heap.entry? ref key)).bind fun _ => .pure _
  | nilMap elem => exact .pure _
  | nilSlice index => exact .fail _
  | blank => exact .fail _

theorem storeLocation (location : Location) (value : Value) :
    pair.Alike (location.store value) (location.store value) := by
  cases location with
  | slot env target => exact storing env target value
  | item ref index => exact tryHeap fun heap => heap.setItem ref index value
  | entry elem ref key => exact tryHeap fun heap => heap.insertEntry ref key value
  | nilMap elem => exact .fail _
  | nilSlice index => exact .fail _
  | blank => exact .pure _

theorem storeAll (locations : List Location) (values : List Value) :
    pair.Alike (Location.storeAll locations values) (Location.storeAll locations values) := by
  induction locations generalizing values with
  | nil => exact .pure _
  | cons location rest ih =>
    cases values with
    | nil => exact .pure _
    | cons value values => exact (storeLocation location value).bind fun _ => ih values

theorem loadInt (env : EnvRef) (slot : Slot) :
    pair.Alike (RangeSlots.loadInt env slot) (RangeSlots.loadInt env slot) :=
  (loading _ _ _).bind fun _ => .ofExcept _

theorem rangeStart (slots : RangeSlots) (kind : RangeKind) (key : Ty) (env : EnvRef)
    (subject : Value) :
    pair.Alike (slots.start kind key env subject) (slots.start kind key env subject) := by
  have limit : pair.Alike (slots.limitOf kind key env subject)
      (slots.limitOf kind key env subject) := by
    unfold RangeSlots.limitOf
    split
    · exact .pure _
    · exact (read (pair.heap.comp fun heap => (heap.entries _).keys.map MapKey.toValue)).bind fun _ =>
        (newSlice _ _).bind fun _ => (storing _ _ _).bind fun _ => .pure _
    · exact .pure _
    · exact (length _).bind fun _ => .pure _
  exact limit.bind fun _ => (storing _ _ _).bind fun _ => (storing _ _ _).bind fun _ =>
    (storing _ _ _).bind fun _ => storing _ _ _

theorem rangeNext (slots : RangeSlots) (kind : RangeKind) (env : EnvRef) :
    pair.Alike (slots.next kind env) (slots.next kind env) := by
  refine (loadInt env _).bind fun index => (loadInt env _).bind fun limit =>
    (loading _ _ _).bind fun subject => ?_
  cases kind with
  | int => exact .pure _
  | slice =>
    dsimp only
    split
    · split
      · exact (tryRead (pair.heap.comp fun heap => heap.item _ index)).bind fun _ => .pure _
      · exact .pure _
    · exact .pure _
  | string =>
    refine (ofExcept _).bind fun text => ?_
    unfold RangeSlots.nextChar
    split
    · exact (storing _ _ _).bind fun _ => .pure _
    · exact .pure _
  | map =>
    refine (loading _ _ _).bind fun keys => ?_
    split
    · refine (read (pair.heap.comp fun heap =>
        (heap.items _).toList.drop index.toInt.toNat)).bind fun rest =>
          (read (pair.heap.comp fun heap => heap.entries _)).bind fun entries => ?_
      split <;> exact (storing _ _ _).bind fun _ => .pure _
    · exact .pure _
  | chan =>
    dsimp only
    split
    · exact (recv _ _).bind fun _ => .pure _
    · exact .fail _

theorem rangeAdvance (slots : RangeSlots) (env : EnvRef) :
    pair.Alike (slots.advance env) (slots.advance env) :=
  (loadInt env _).bind fun _ => (loadInt env _).bind fun _ => storing _ _ _

theorem storeTarget_alike (calls : pair.Calls call other) (env : EnvRef) (target : Option Place)
    (value : Value) :
    pair.Alike (storeTarget call env target value) (storeTarget other env target value) := by
  cases target with
  | none => exact .pure _
  | some place =>
    exact (ofPlace_alike calls env place).bind fun location => storeLocation location value

end Evaluation

end Lockstep

end MiniGo
