import MiniGo.Proofs.Locations
/-!
What the evaluation of operands does to a state. Of its own it makes slices, maps and channels, fills
the maps that it has made and takes values from channels. Whatever happens to variables and to contents
that were there is done by the functions that it calls, or by others while it waits.
-/

namespace MiniGo

variable {α β : Type} {others : World → World → Prop} {world later : World}

/-- A computation comes to its end. While it waits, others change the state. -/
inductive Outcome.Finishes (others : World → World → Prop) :
    Outcome α → Except RuntimeError α → World → Prop
  | done {value world} : Finishes others (.done value world) (.ok value) world
  | fail {error world} : Finishes others (.fail error world) (.error error) world
  | await {wait world resume later result final} :
    others world later →
    Finishes others (resume later) result final →
    Finishes others (.await wait world resume) result final

theorem Outcome.Finishes.of_bind {outcome : Outcome α} {next : α → World → Outcome β}
    {result : Except RuntimeError β} (finishes : (outcome.bind next).Finishes others result later) :
    (∃ error, result = .error error ∧ outcome.Finishes others (.error error) later) ∨
      ∃ value middle, outcome.Finishes others (.ok value) middle ∧
        (next value middle).Finishes others result later := by
  induction outcome with
  | done value world => exact .inr ⟨value, world, .done, finishes⟩
  | fail error world =>
    cases finishes
    exact .inl ⟨error, rfl, .fail⟩
  | await wait world resume ih =>
    obtain ⟨_, finishes⟩ | ⟨_, finishes⟩ | ⟨changes, finishes⟩ := finishes
    rcases ih _ finishes with ⟨error, same, failed⟩ | ⟨value, middle, first, rest⟩
    · exact .inl ⟨error, same, .await changes failed⟩
    · exact .inr ⟨value, middle, .await changes first, rest⟩
  | broken reason => cases finishes

theorem Run.finishes_bind {first : Run α} {next : α → Run β} {value : β}
    (finishes : ((first >>= next) world).Finishes others (.ok value) later) :
    ∃ found middle, (first world).Finishes others (.ok found) middle ∧
      (next found middle).Finishes others (.ok value) later := by
  change (Run.bind first next world).Finishes _ _ _ at finishes
  rw [Run.bind_apply] at finishes
  obtain ⟨_, ⟨⟩, -⟩ | found := finishes.of_bind
  exact found

/-- All variables, slices and maps that a state has are as they were. -/
structure World.Keeps (before after : World) : Prop where
  slots : ∀ ref slot, after.load ref slot = before.load ref slot
  slices : ∀ index < before.heap.slices.size, after.heap.slices[index]? = before.heap.slices[index]?
  maps : ∀ index < before.heap.maps.size, after.heap.maps[index]? = before.heap.maps[index]?

theorem World.load_updateEnv_of_slots (world : World) (ref : EnvRef) {change : Env → Env}
    (same : ∀ env, (change env).slots = env.slots) (other : EnvRef) (slot : Slot) :
    (world.updateEnv ref change).load other slot = world.load other slot := by
  simp only [World.load, World.env?_updateEnv]
  by_cases isRef : other = ref
  · rw [if_pos isRef]
    cases world.env? other with
    | none => rfl
    | some env => exact congrArg (Slots.load · slot) (same env)
  · rw [if_neg isRef]

theorem World.Keeps.refl (world : World) : world.Keeps world :=
  ⟨fun _ _ => rfl, fun _ _ => rfl, fun _ _ => rfl⟩

/-- The states that an evaluation goes through, with the maps that it has made. -/
inductive World.Evaluates (call : Caller) (others : World → World → Prop) (start : World) :
    List MapRef → World → Prop
  | start : Evaluates call others start [] start
  | keeps {made now later} :
    Evaluates call others start made now →
    now.Keeps later →
    Evaluates call others start made later
  | makes {made now} :
    Evaluates call others start made now →
    Evaluates call others start (now.heap.newMap.1 :: made) { now with heap := now.heap.newMap.2 }
  | fills {made now ref key value heap} :
    Evaluates call others start made now →
    ref ∈ made →
    now.heap.insertEntry ref key value = .ok heap →
    Evaluates call others start made { now with heap }
  | calls {made now thread invocation result later} :
    Evaluates call others start made now →
    (call thread invocation now).Finishes others result later →
    Evaluates call others start made later
  | others {made now later} :
    Evaluates call others start made now →
    others now later →
    Evaluates call others start made later

/-- All that a computation does is part of an evaluation that has made some maps. -/
def Run.Evaluates (call : Caller) (others : World → World → Prop) (made : List MapRef)
    (run : Run α) : Prop :=
  ∀ (start now later : World) (owned : List MapRef) (result : Except RuntimeError α),
    start.Evaluates call others owned now → made ⊆ owned → (run now).Finishes others result later →
      ∃ more, owned ⊆ more ∧ start.Evaluates call others more later

namespace Run

variable {call : Caller} {made : List MapRef} {run : Run α} {next : α → Run β}

theorem Evaluates.bind (first : run.Evaluates call others made)
    (rest : ∀ value, (next value).Evaluates call others made) :
    (run >>= next).Evaluates call others made := by
  intro start now later owned result evaluates subset finishes
  change (Run.bind run next now).Finishes others result later at finishes
  rw [Run.bind_apply] at finishes
  rcases finishes.of_bind with ⟨error, -, failed⟩ | ⟨value, middle, done, goes⟩
  · exact first _ _ _ _ _ evaluates subset failed
  · obtain ⟨more, grown, evaluates⟩ := first _ _ _ _ _ evaluates subset done
    obtain ⟨final, wider, evaluates⟩ := rest value _ _ _ _ _ evaluates
        (List.Subset.trans subset grown) goes
    exact ⟨final, List.Subset.trans grown wider, evaluates⟩

theorem evaluates_of_keeps
    (keeps : ∀ world, ∃ later, world.Keeps later ∧
      ((∃ value, run world = .done value later) ∨ ∃ error, run world = .fail error later)) :
    run.Evaluates call others made := by
  intro start now later owned result evaluates _ finishes
  obtain ⟨kept, keeps, ⟨value, ended⟩ | ⟨error, ended⟩⟩ := keeps now
  all_goals
    rw [ended] at finishes
    cases finishes
    exact ⟨owned, List.Subset.refl _, evaluates.keeps keeps⟩

theorem evaluates_pure (value : α) : (pure value : Run α).Evaluates call others made :=
  evaluates_of_keeps fun world => ⟨world, .refl world, .inl ⟨value, rfl⟩⟩

theorem evaluates_fail (error : RuntimeError) : (fail error : Run α).Evaluates call others made :=
  evaluates_of_keeps fun world => ⟨world, .refl world, .inr ⟨error, rfl⟩⟩

theorem evaluates_ofExcept (result : Except RuntimeError α) :
    (ofExcept result).Evaluates call others made := by
  cases result with
  | ok value => exact evaluates_pure value
  | error error => exact evaluates_fail error

theorem evaluates_read (view : World → α) : (read view).Evaluates call others made :=
  evaluates_of_keeps fun world => ⟨world, .refl world, .inl ⟨_, rfl⟩⟩

theorem evaluates_tryRead (view : World → Except RuntimeError α) :
    (tryRead view).Evaluates call others made := by
  refine evaluates_of_keeps fun world => ⟨world, .refl world, ?_⟩
  unfold tryRead
  split
  · exact .inl ⟨_, rfl⟩
  · exact .inr ⟨_, rfl⟩

theorem evaluates_updateExchange (change : Exchange → α × Exchange) :
    (updateExchange change).Evaluates call others made :=
  evaluates_of_keeps fun world => ⟨{ world with exchange := (change world.exchange).2 },
    ⟨fun _ _ => rfl, fun _ _ => rfl, fun _ _ => rfl⟩, .inl ⟨_, rfl⟩⟩

theorem evaluates_waitFor (wait : Wait) : (waitFor wait).Evaluates call others made := by
  intro start now later owned result evaluates _ finishes
  unfold waitFor at finishes
  split at finishes
  · cases finishes
    exact ⟨owned, List.Subset.refl _, evaluates⟩
  · obtain ⟨_, _⟩ | ⟨_, _⟩ | ⟨changes, finishes⟩ := finishes
    cases finishes
    exact ⟨owned, List.Subset.refl _, evaluates.others changes⟩

theorem evaluates_recv (elem : Ty) (ref : ChanRef) : (recv elem ref).Evaluates call others made := by
  have enters : (modify fun world =>
      { world with exchange := world.exchange.enterRecv ref }).Evaluates call others made :=
    evaluates_updateExchange fun exchange => ((), exchange.enterRecv ref)
  exact enters.bind fun _ => (evaluates_waitFor _).bind fun _ =>
    (evaluates_updateExchange _).bind fun _ => evaluates_pure _

theorem evaluates_recvFrom (channel : Value) : (recvFrom channel).Evaluates call others made := by
  unfold recvFrom
  split
  · exact evaluates_recv _ _
  · exact evaluates_fail _

theorem evaluates_sliceItem (base : Value) (index : Int64) :
    (sliceItem base index).Evaluates call others made := by
  unfold sliceItem
  split
  · exact evaluates_tryRead _
  · exact evaluates_fail _

theorem evaluates_mapEntry (base key : Value) : (mapEntry base key).Evaluates call others made := by
  unfold mapEntry
  split
  · exact evaluates_tryRead _
  · exact evaluates_pure _

theorem evaluates_newSlice (items : Heap → Array Value) :
    (updateHeap fun heap => heap.newSlice (items heap)).Evaluates call others made := by
  refine evaluates_of_keeps fun world =>
    ⟨{ world with heap := (world.heap.newSlice (items world.heap)).2 },
      ⟨fun _ _ => rfl, fun index inside => ?_, fun _ _ => rfl⟩, .inl ⟨_, rfl⟩⟩
  exact Array.getElem?_push_lt inside ▸ (Array.getElem?_eq_getElem inside).symm

theorem evaluates_newMap : (updateHeap Heap.newMap).Evaluates call others made := by
  intro start now later owned result evaluates _ finishes
  cases finishes
  exact ⟨_, List.subset_cons_self _ _, evaluates.makes⟩

theorem evaluates_elements (value : Value) : (elements value).Evaluates call others made := by
  unfold elements
  split
  · exact evaluates_read _
  · exact evaluates_pure _

theorem evaluates_appended (elem : Ty) (base : Value) (extra : List Value) :
    (appended elem base extra).Evaluates call others made := by
  unfold appended
  split
  · exact (evaluates_newSlice _).bind fun _ => evaluates_pure _
  · exact (evaluates_newSlice _).bind fun _ => evaluates_pure _

theorem evaluates_lengthOf (value : Value) : (lengthOf value).Evaluates call others made :=
  (evaluates_tryRead _).bind fun _ => evaluates_pure _

theorem evaluates_capacityOf (value : Value) : (capacityOf value).Evaluates call others made := by
  unfold capacityOf
  split
  · exact evaluates_read _
  · exact evaluates_lengthOf _

theorem evaluates_newChan (elem : Ty) (capacity : Nat) :
    (newChan elem capacity).Evaluates call others made :=
  (evaluates_updateExchange _).bind fun _ => evaluates_pure _

theorem evaluates_closure (template : Template) (env : EnvRef) :
    (closure template env).Evaluates call others made := by
  have retains : (modify (·.retain env)).Evaluates call others made := by
    refine evaluates_of_keeps fun world => ⟨world.retain env,
      ⟨fun ref slot => ?_, fun _ _ => rfl, fun _ _ => rfl⟩, .inl ⟨_, rfl⟩⟩
    exact World.load_updateEnv_of_slots world env (by simp) ref slot
  exact retains.bind fun _ => evaluates_pure _

theorem evaluates_called (thread : ThreadRef) (invocation : Invocation) :
    (call thread invocation).Evaluates call others made := by
  intro start now later owned result evaluates _ finishes
  exact ⟨owned, List.Subset.refl _, evaluates.calls finishes⟩

theorem evaluates_fill {ref : MapRef} (isMade : ref ∈ made) (key value : Value) :
    (tryHeap (·.insertEntry ref key value)).Evaluates call others made := by
  intro start now later owned result evaluates subset finishes
  unfold tryHeap at finishes
  split at finishes
  · rename_i heap inserted
    cases finishes
    exact ⟨owned, List.Subset.refl _, evaluates.fills (subset isMade) inserted⟩
  · cases finishes
    exact ⟨owned, List.Subset.refl _, evaluates⟩

end Run

section Evaluation

open Run

variable {call : Caller} {env : EnvRef}

theorem mapLit_evaluates {made : List MapRef} {key elem : Ty} {entries : MapRef → Run Unit}
    (filled : ∀ ref, (entries ref).Evaluates call others [ref]) :
    (do
      let ref ← updateHeap Heap.newMap
      entries ref
      pure (.map key elem ref) : Run Value).Evaluates call others made := by
  intro start now later owned result evaluates _ finishes
  have makes : updateHeap Heap.newMap now =
      .done now.heap.newMap.1 { now with heap := now.heap.newMap.2 } := rfl
  rw [Run.bind_done makes] at finishes
  have rest : (do
      entries now.heap.newMap.1
      pure (.map key elem now.heap.newMap.1) : Run Value).Evaluates call others
        [now.heap.newMap.1] :=
    (filled _).bind fun _ => evaluates_pure _
  obtain ⟨more, grown, evaluates⟩ := rest _ _ _ _ _ evaluates.makes (by simp) finishes
  exact ⟨more, List.Subset.trans (List.subset_cons_self _ _) grown, evaluates⟩

mutual

theorem eval_evaluates {made : List MapRef} (code : Code) :
    (eval call env code).Evaluates call others made := by
  cases code with
  | const value => exact evaluates_pure _
  | load hops slot => exact evaluates_read _
  | binary op left right =>
    unfold eval
    exact (eval_evaluates left).bind fun _ => (eval_evaluates right).bind fun _ =>
      evaluates_ofExcept _
  | logical stop left right =>
    unfold eval
    refine (eval_evaluates left).bind fun _ => (evaluates_ofExcept _).bind fun _ => ?_
    split
    · exact evaluates_pure _
    · exact eval_evaluates right
  | unary op operand =>
    unfold eval
    exact (eval_evaluates operand).bind fun _ => evaluates_ofExcept _
  | convert target operand =>
    unfold eval
    exact (eval_evaluates operand).bind fun _ => evaluates_pure _
  | receive channel =>
    unfold eval
    exact (eval_evaluates channel).bind fun _ => (evaluates_recvFrom _).bind fun _ =>
      evaluates_pure _
  | sliceIndex base index =>
    unfold eval
    exact (eval_evaluates index).bind fun _ => (evaluates_ofExcept _).bind fun _ =>
      (eval_evaluates base).bind fun _ => evaluates_sliceItem _ _
  | stringIndex base index =>
    unfold eval
    exact (eval_evaluates base).bind fun _ => (evaluates_ofExcept _).bind fun _ =>
      (eval_evaluates index).bind fun _ => (evaluates_ofExcept _).bind fun _ =>
        evaluates_ofExcept _
  | mapIndex elem base key =>
    unfold eval
    exact (eval_evaluates key).bind fun _ => (eval_evaluates base).bind fun _ =>
      (evaluates_mapEntry _ _).bind fun _ => evaluates_pure _
  | sliceLit elem items =>
    unfold eval
    exact (evalAll_evaluates items).bind fun _ => (evaluates_newSlice _).bind fun _ =>
      evaluates_pure _
  | mapLit key elem entries =>
    unfold eval
    exact mapLit_evaluates fun ref => evalEntries_evaluates ref entries
  | typeAssert target operand =>
    unfold eval
    refine (eval_evaluates operand).bind fun _ => ?_
    split
    · exact evaluates_pure _
    · exact evaluates_fail _
  | closure template => exact evaluates_closure template env
  | builtin builtin params => exact evaluates_pure _
  | length operand =>
    unfold eval
    exact (eval_evaluates operand).bind fun _ => evaluates_lengthOf _
  | capacity operand =>
    unfold eval
    exact (eval_evaluates operand).bind fun _ => evaluates_capacityOf _
  | append elem base extra =>
    unfold eval
    exact (eval_evaluates base).bind fun _ => (evalValues_evaluates extra).bind fun _ =>
      evaluates_appended _ _ _
  | makeSlice elem length =>
    unfold eval
    exact (eval_evaluates length).bind fun _ => (evaluates_ofExcept _).bind fun _ =>
      (evaluates_ofExcept _).bind fun _ => (evaluates_newSlice _).bind fun _ => evaluates_pure _
  | makeMap key elem => exact evaluates_newMap.bind fun _ => evaluates_pure _
  | makeChan elem size =>
    cases size with
    | none => exact evaluates_newChan elem 0
    | some size =>
      unfold eval
      exact (eval_evaluates size).bind fun _ => (evaluates_ofExcept _).bind fun _ =>
        (evaluates_ofExcept _).bind fun _ => evaluates_newChan _ _
  | first values =>
    unfold eval
    exact (evalValues_evaluates values).bind fun _ => evaluates_pure _

theorem evalAll_evaluates {made : List MapRef} (codes : List Code) :
    (evalAll call env codes).Evaluates call others made := by
  cases codes with
  | nil => exact evaluates_pure _
  | cons code rest =>
    unfold evalAll
    exact (eval_evaluates code).bind fun _ => (evalAll_evaluates rest).bind fun _ =>
      evaluates_pure _

theorem evalEntries_evaluates (ref : MapRef) (entries : List (Code × Code)) :
    (evalEntries call env ref entries).Evaluates call others [ref] := by
  cases entries with
  | nil => exact evaluates_pure _
  | cons entry rest =>
    unfold evalEntries
    exact (eval_evaluates entry.1).bind fun _ => (eval_evaluates entry.2).bind fun _ =>
      (evaluates_fill (.head _) _ _).bind fun _ => evalEntries_evaluates ref rest

theorem evalValues_evaluates {made : List MapRef} (values : Values) :
    (evalValues call env values).Evaluates call others made := by
  cases values with
  | each items =>
    unfold evalValues
    exact evalAll_evaluates items
  | call callee args spread =>
    unfold evalValues
    exact (eval_evaluates callee).bind fun _ => (evalValues_evaluates args).bind fun _ =>
      (evaluates_read _).bind fun _ => evaluates_called _ _
  | elements slice =>
    unfold evalValues
    exact (eval_evaluates slice).bind fun _ => evaluates_elements _
  | mapLookup elem base key =>
    unfold evalValues
    refine (eval_evaluates key).bind fun _ => (eval_evaluates base).bind fun _ =>
      (evaluates_mapEntry _ _).bind fun found => ?_
    split
    · exact evaluates_pure _
    · exact evaluates_pure _
  | receiveOk channel =>
    unfold evalValues
    exact (eval_evaluates channel).bind fun _ => (evaluates_recvFrom _).bind fun _ =>
      evaluates_pure _
  | typeAssertOk target operand =>
    unfold evalValues
    refine (eval_evaluates operand).bind fun _ => ?_
    split
    · exact evaluates_pure _
    · exact evaluates_pure _

end

theorem ofPlace_evaluates {made : List MapRef} (place : Place) :
    (Location.ofPlace call env place).Evaluates call others made := by
  cases place with
  | slot hops slot => exact evaluates_read _
  | element container base index =>
    exact (eval_evaluates base).bind fun _ => (eval_evaluates index).bind fun _ =>
      evaluates_ofExcept _
  | blank => exact evaluates_pure _

theorem ofPlaces_evaluates {made : List MapRef} (places : List Place) :
    (Location.ofPlaces call env places).Evaluates call others made := by
  induction places with
  | nil => exact evaluates_pure _
  | cons place places ih =>
    exact (ofPlace_evaluates place).bind fun _ => ih.bind fun _ => evaluates_pure _

end Evaluation

def Config.Others [Natives] (strict : Prop) (task : ThreadRef) (before after : World) : Prop :=
  ∃ now later : Config strict, now.world = before ∧ later.world = after ∧ now.Waits task later

theorem Outcome.Safe.finishes [Natives] {strict : Prop} {task : ThreadRef} {start : Config strict}
    {post : Config strict → Except RuntimeError α → Prop} {outcome : Outcome α}
    (safe : outcome.Safe task post start) :
    outcome.Safe task (fun now result =>
      outcome.Finishes (Config.Others strict task) result now.world ∧ post now result) start := by
  induction outcome generalizing start with
  | done value world =>
    obtain ⟨now, rfl, advances, ends⟩ := safe
    exact ⟨now, rfl, advances, .done, ends⟩
  | fail error world =>
    obtain ⟨now, rfl, advances, ends⟩ := safe
    exact ⟨now, rfl, advances, .fail, ends⟩
  | await wait world resume ih =>
    obtain ⟨now, rfl, advances, quiet, resumes⟩ := safe
    refine ⟨now, rfl, advances, quiet, fun later waits => ?_⟩
    exact (ih _ (resumes later waits)).mono fun _ _ ends =>
      ⟨.await ⟨now, later, rfl, rfl, waits⟩ ends.1, ends.2⟩
  | broken reason =>
    cases reason with
    | exhausted => exact trivial
    | watched env next world => exact safe

end MiniGo
