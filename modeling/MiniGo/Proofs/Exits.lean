import MiniGo.Proofs.Realization
/-!
Statements with exits. An exit of a loop or a switch that is taken inside it leads to a line of its own;
the exits of statements around it are passed on. A loop does round by round what its action does, and a
switch goes on at the clause that its action goes on with.
-/

namespace MiniGo

section Loops

variable {setting : Setting} {exits : Exits} {targets : Targets} {level breakTo continueTo : Nat}
  {labels : List String} {bound need depth narrow more next : Nat} {rest : Ending → Run Counter.Halt}

/-- In a statement that offers exits: an exit of its own leads to a target of its own, and another one is
passed on. -/
theorem Setting.Continues.offering {info : LoopInfo} {other : Ending → Run Counter.Halt}
    (outer : setting.Continues exits targets breakTo depth bound need rest) (below : exits.Below level)
    (bounds : narrow ≤ bound) (needs : need ≤ more)
    (normal : ∀ env fuel, setting.Spare narrow more fuel →
      setting.Same (setting.run fuel env depth next) (other ⟨.normal, env⟩))
    (own : ∀ kind label, (kind = .break ∨ info.continues = true) →
      label.all info.labels.contains = true → ∀ env fuel, setting.Spare narrow more (fuel + 1) →
      setting.Same (setting.run fuel env depth (targets.closing level breakTo continueTo level kind))
        (other ⟨.exit kind label, env⟩))
    (foreign : ∀ kind label, ¬((kind = .break ∨ info.continues = true) ∧
      label.all info.labels.contains = true) →
      ∀ env, other ⟨.exit kind label, env⟩ = rest ⟨.exit kind label, env⟩)
    (ends : ∀ env, other ⟨.ret, env⟩ = rest ⟨.ret, env⟩)
    (fails : ∀ env error, other ⟨.failed error, env⟩ = rest ⟨.failed error, env⟩) :
    setting.Continues (exits.offering info level) (targets.closing level breakTo continueTo) next depth
      narrow more other where
  normal := normal
  exit kind label hops found isExit env fuel spare := by
    simp only [Exits.offering, Bool.and_eq_true, Bool.or_eq_true, beq_iff_eq] at isExit
    split at isExit
    · rename_i offered
      obtain ⟨rfl, rfl⟩ : 0 = hops ∧ level = found := by simpa using isExit
      exact own kind label offered.1 offered.2 env fuel spare
    · rename_i passed
      have differs : found ≠ level := Nat.ne_of_lt (below kind label hops found isExit)
      rw [foreign kind label passed env, Targets.closing_of_ne differs]
      exact outer.exit kind label hops found isExit env fuel (spare.mono bounds needs)
  ret env := ends env ▸ outer.ret env
  failed env error := fails env error ▸ outer.failed env error

theorem Setting.Continues.inLoop {normal resume : Action}
    (outer : setting.Continues exits targets breakTo depth bound need rest) (below : exits.Below level)
    (bounds : narrow ≤ bound) (needs : need ≤ more)
    (normals : ∀ env fuel, setting.Spare narrow (more + 1) fuel →
      setting.Same (setting.run fuel env depth next) (setting.perform normal env >>= rest))
    (resumes : ∀ env fuel, setting.Spare (narrow - 1) more fuel →
      setting.Same (setting.run fuel env depth continueTo) (setting.perform resume env >>= rest)) :
    setting.Continues (exits.offering ⟨true, labels⟩ level) (targets.closing level breakTo continueTo)
      next depth narrow (more + 1) fun ending =>
        setting.perform (.inLoop labels normal resume ending.completion) ending.env >>= rest := by
  refine outer.offering below bounds (Nat.le_succ_of_le needs) normals
    (fun kind label _ names env fuel spare => ?_) (fun kind label passed env => ?_) (fun _ => rfl)
    fun _ _ => rfl
  · have spare := spare.pred
    simp only [Action.inLoop, names, if_true]
    cases kind with
    | «break» =>
      rw [Targets.closing_self]
      exact outer.normal env fuel (spare.mono (Nat.le_trans (Nat.sub_le _ _) bounds) needs)
    | «continue» =>
      rw [Targets.closing_self]
      exact resumes env fuel spare
  · have foreign : ¬label.all labels.contains = true := fun names => passed ⟨.inr rfl, names⟩
    simp only [Action.inLoop, foreign]
    rfl

/-- What a loop is compiled to: its test, if it has one, its body and its post statement, and a jump back
to the test. -/
structure Setting.Loops (setting : Setting) (exits : Exits) (targets : Targets) (here start : Nat)
    (continueTo breakTo : Nat) (cond : Cond) (body post : Action) (cost more : Nat) : Prop where
  test : (cond = .const true ∧ start = here) ∨
    ∃ code, cond = .code code ∧ start = here + 1 ∧ setting.program.Does here (.jumpUnless code breakTo)
  body : setting.Realizes exits targets start continueTo cost body
  post : ∃ last, breakTo = last + 1 ∧ setting.Realizes exits targets continueTo last more post ∧
    setting.program.Does last (.goto here)

theorem Setting.Loops.looping {cond : Cond} {body post : Action} {here start cost more : Nat}
    (loops : setting.Loops (exits.offering ⟨true, labels⟩ level)
      (targets.closing level breakTo continueTo) here start continueTo breakTo cond body post cost more)
    (outer : setting.Continues exits targets breakTo depth bound need rest) (below : exits.Below level)
    (bounds : bound ≤ setting.rounds) (rounds : Nat) :
    ∀ env fuel, setting.Spare (min bound rounds) (rounds * (cost + more + 3) + need) fuel →
      setting.Same (setting.run fuel env depth here)
        (setting.perform (.looping cond labels body post rounds false) env >>= rest) ∧
      setting.Same (setting.run fuel env depth continueTo)
        (setting.perform (.looping cond labels body post rounds true) env >>= rest) := by
  induction rounds with
  | zero =>
    intro env fuel spare
    rcases spare with ⟨may, few⟩ | ⟨may, -⟩
    · obtain rfl : fuel = 0 := by omega
      exact ⟨.refl _, .refl _⟩
    · exact ⟨fun _ => .late may, fun _ => .late may⟩
  | succ rounds ih =>
    have bounded : min bound (rounds + 1) ≤ bound := Nat.min_le_left _ _
    have enough : min bound (rounds + 1) ≤ setting.rounds := Nat.le_trans bounded bounds
    have total : (rounds + 1) * (cost + more + 3) = rounds * (cost + more + 3) + (cost + more + 3) :=
      Nat.succ_mul ..
    -- From the post statement on, the next round is reached by the jump back.
    have finish : ∀ env fuel,
        setting.Spare (min bound (rounds + 1)) (more + (rounds * (cost + more + 3) + need + 1)) fuel →
        setting.Same (setting.run fuel env depth continueTo)
          (setting.perform (.looping cond labels body post (rounds + 1) true) env >>= rest) := by
      obtain ⟨last, isLast, does, jumps⟩ := loops.post
      intro env fuel spare
      simp only [Action.looping, if_true]
      rw [perform_after]
      refine does depth _ _ _ enough ?_ env fuel spare
      refine outer.inLoop below bounded (Nat.le_add_left _ _) (fun env fuel spare => ?_)
        fun env fuel spare => (ih env fuel (spare.mono (by omega) (Nat.le_refl _))).2
      exact lead _ jumps rfl spare fun less spare =>
        (ih env less (spare.pred.mono (by omega) (Nat.le_refl _))).1
    have goes : ∀ env fuel,
        setting.Spare (min bound (rounds + 1)) (cost + (more +
          (rounds * (cost + more + 3) + need + 1) + 1))
          fuel →
        setting.Same (setting.run fuel env depth start)
          (setting.perform (body.after (.inLoop labels (.looping cond labels body post (rounds + 1) true)
            (.looping cond labels body post (rounds + 1) true))) env >>= rest) := by
      intro env fuel spare
      rw [perform_after]
      refine loops.body depth _ _ _ enough ?_ env fuel spare
      exact outer.inLoop below bounded (by omega)
        (fun env fuel spare => finish env fuel (spare.mono (Nat.le_refl _) (Nat.le_succ _)))
        fun env fuel spare => finish env fuel (spare.mono (Nat.sub_le _ _) (Nat.le_refl _))
    intro env fuel spare
    refine ⟨?_, finish env fuel (spare.mono (Nat.le_refl _) (by omega))⟩
    rcases loops.test with ⟨rfl, rfl⟩ | ⟨code, rfl, rfl, tests⟩
    · exact goes env fuel (spare.mono (Nat.le_refl _) (by omega))
    · show setting.Same _ (setting.perform (.doing _ _) env >>= rest)
      rw [perform_doing]
      refine step (cost + (more + (rounds * (cost + more + 3) + need + 1) + 1)) tests rfl
        (spare.mono (Nat.le_refl _) (by omega)) (fun less truth spare => ?_)
        fun error => outer.failed env error
      have spare := spare.pred
      cases truth with
      | true => exact goes env less (spare.mono (Nat.sub_le _ _) (Nat.le_refl _))
      | false =>
        exact outer.normal env less (spare.mono (Nat.le_trans (Nat.sub_le _ _) bounded) (by omega))

def Cond.test (cond : Cond) (breakTo : Nat) (span : Span) : List Line :=
  match cond with
  | .code test => [⟨.jumpUnless test breakTo, span⟩]
  | .const _ => []

theorem Means.loop {cond : Cond} {here start : Nat} {span : Span} {body post : List Line}
    {action after : Action} (runs : cond ≠ .const false) (below : exits.Below level)
    (isStart : start = here + (cond.test breakTo span).length)
    (isContinue : continueTo = start + body.length)
    (isBreak : breakTo = continueTo + post.length + 1)
    (bodyMeans : Means (exits.offering ⟨true, labels⟩ level) start body action)
    (postMeans : Means (exits.offering ⟨true, labels⟩ level) continueTo post after) :
    Means exits here (cond.test breakTo span ++
      (body ++ post).map (·.close level breakTo continueTo) ++ [⟨.goto here, span⟩])
      (.loop cond labels action after) where
  plain := by
    simp only [List.forall_mem_append, List.forall_mem_map, Line.close_isPlain,
      List.forall_mem_singleton]
    refine ⟨⟨?_, bodyMeans.plain, postMeans.plain⟩, rfl⟩
    cases cond <;> simp [Cond.test, InstrOf.isPlain]
  realizes setting targets holds := by
    have inner := holds.left.right.opened
    have jumps := holds.right.head
    rw [← isStart] at inner
    simp only [List.length_append, List.length_map, ← Nat.add_assoc, ← isStart, ← isContinue] at jumps
    have following := inner.right
    rw [← isContinue] at following
    obtain ⟨cost, does⟩ := bodyMeans.realizes setting _ inner.left
    obtain ⟨more, finishes⟩ := postMeans.realizes setting _ following
    rw [← isContinue] at does
    have loops : setting.Loops (exits.offering ⟨true, labels⟩ level)
        (targets.closing level breakTo continueTo) here start continueTo breakTo cond action after cost
        more := by
      refine ⟨?_, does, _, isBreak, finishes, jumps⟩
      cases cond with
      | const value =>
        cases value with
        | true => exact .inl ⟨rfl, isStart⟩
        | false => exact absurd rfl runs
      | code test => exact .inr ⟨test, rfl, isStart, holds.left.left.head⟩
    refine ⟨setting.rounds * (cost + more + 3), fun depth bound need rest bounds outer env fuel spare =>
      ?_⟩
    simp only [List.length_append, List.length_map, List.length_singleton, ← Nat.add_assoc, ← isStart,
      ← isContinue, ← isBreak] at outer
    exact (loops.looping outer below bounds setting.rounds env fuel
      (spare.mono (by omega) (Nat.le_refl _))).1

theorem Means.loop_never (exits : Exits) (here : Nat) (labels : List String) (body post : Action) :
    Means exits here [] (.loop (.const false) labels body post) where
  plain := by simp
  realizes setting targets _ := by
    refine ⟨0, fun depth bound need rest bounds continues env fuel spare => ?_⟩
    show setting.Same _ (setting.perform (.looping _ _ _ _ setting.rounds _) env >>= rest)
    cases isRounds : setting.rounds with
    | zero =>
      rcases spare with ⟨may, few⟩ | ⟨may, -⟩
      · obtain rfl : fuel = 0 := by omega
        exact .refl _
      · exact fun _ => .late may
    | succ rounds => exact continues.normal env fuel (spare.mono (Nat.le_refl _) (by omega))

end Loops

section Switches

open Step MiniGo.Action

theorem Step.findCase_clause (call : Caller) (env : EnvRef) (tag : Value) (fallback start : Nat)
    (codes : List Code) (more : List (Code × Nat)) :
    findCase call env tag fallback (codes.map (·, start) ++ more) =
      anyEquals call env tag codes >>= fun
        | true => pure start
        | false => findCase call env tag fallback more := by
  induction codes with
  | nil => rfl
  | cons code codes ih =>
    rw [anyEquals, Run.bind_assoc]
    refine Run.bind_congr fun value => ?_
    split
    · rfl
    · exact ih

theorem Step.findCase_tagged (call : Caller) (env : EnvRef) (tag : Value) (default : Option Nat)
    (starts : List Nat) (breakTo number : Nat) (cases : List (List Code)) (later : List Nat)
    (lengths : cases.length = later.length) (dropped : starts.drop number = later) :
    findCase call env tag (fallback default starts breakTo) (tagged cases later) =
      findClause call env tag default number cases >>= fun found =>
        pure (fallback found starts breakTo) := by
  induction cases generalizing number later with
  | nil => simp only [tagged]; rfl
  | cons codes cases ih =>
    cases later with
    | nil => simp at lengths
    | cons start later =>
      have found : starts[number]? = some start := by
        have first := congrArg (·[0]?) dropped
        simpa using first
      have following : starts.drop (number + 1) = later := by
        rw [← List.drop_drop, dropped]
        rfl
      rw [tagged, findCase_clause, findClause, Run.bind_assoc]
      refine Run.bind_congr fun truth => ?_
      cases truth with
      | true =>
        have isStart : fallback (some number) starts breakTo = start := by simp [fallback, found]
        exact congrArg pure isStart.symm
      | false => exact ih (number + 1) later (by simpa using lengths) following

/-- The clauses of a switch, one after the other from a position on. -/
inductive ClausesMean (exits : Exits) : Nat → List ClauseCode → List (Action × Bool) → Prop
  | nil {here : Nat} : ClausesMean exits here [] []
  | cons {clause : ClauseCode} {action : Action} {codes : List ClauseCode}
      {bodies : List (Action × Bool)} :
    Means exits clause.start clause.body.lines action → ClausesMean exits clause.next codes bodies →
    ClausesMean exits clause.start (clause :: codes) ((action, clause.fallsThrough) :: bodies)

variable {setting : Setting} {exits : Exits} {targets : Targets} {here level breakTo : Nat}
  {codes : List ClauseCode} {bodies : List (Action × Bool)}

theorem ClausesMean.first (means : ClausesMean exits here codes bodies) :
    ((codes.map (·.start))[0]?).getD (ClauseCode.finish here codes) = here := by
  cases means <;> rfl

theorem ClausesMean.finish (means : ClausesMean exits here codes bodies) (breakTo : Nat) :
    here + (ClauseCode.join breakTo codes).lines.length = ClauseCode.finish here codes := by
  induction means with
  | nil => rfl
  | @cons clause _ _ _ _ _ ih =>
    rw [ClauseCode.finish, ← ih]
    simp only [ClauseCode.join, Fragment.append_lines, Fragment.one_lines, List.length_append,
      List.length_singleton, ClauseCode.next, Fragment.length_lines]
    omega

theorem ClausesMean.plain (means : ClausesMean exits here codes bodies) (breakTo : Nat) :
    ∀ line ∈ (ClauseCode.join breakTo codes).lines, line.instr.isPlain = true := by
  induction means with
  | nil => simp [ClauseCode.join]
  | cons body _ ih =>
    simp only [ClauseCode.join, Fragment.append_lines, List.forall_mem_append]
    exact ⟨⟨body.plain, List.forall_mem_singleton.mpr rfl⟩, ih⟩

theorem ClausesMean.realizes (means : ClausesMean exits here codes bodies)
    (isBreak : ClauseCode.finish here codes = breakTo)
    (holds : setting.program.Holds targets here (ClauseCode.join breakTo codes).lines) :
    ∃ cost, ∀ number, setting.Realizes exits targets
      (((codes.map (·.start))[number]?).getD breakTo) breakTo cost (clauses (bodies.drop number)) := by
  induction means with
  | nil =>
    refine ⟨0, fun number depth bound need rest _ continues env fuel spare => ?_⟩
    rw [List.drop_nil]
    exact continues.normal env fuel (spare.mono (Nat.le_refl _) (by omega))
  | @cons clause action codes bodies body others ih =>
    simp only [ClauseCode.join, Fragment.append_lines] at holds
    obtain ⟨cost, does⟩ := body.realizes setting targets holds.left.left
    have jumps := holds.left.right.head
    have following := holds.right
    rw [List.length_append, ← Nat.add_assoc] at following
    obtain ⟨more, goesOn⟩ := ih isBreak following
    refine ⟨cost + 1 + more, fun number => ?_⟩
    cases number with
    | succ number => exact (goesOn number).mono (Nat.le_add_left _ _)
    | zero =>
      intro depth bound need rest bounds continues env fuel spare
      show setting.Same (setting.run fuel env depth clause.start)
        (setting.perform (if clause.fallsThrough then action.andThen (clauses bodies) else action) env
          >>= rest)
      cases falls : clause.fallsThrough with
      | true =>
        have next := isBreak ▸ others.first
        have from_ := goesOn 0
        rw [next] at from_
        rw [if_pos rfl, Action.andThen, Setting.perform_after]
        refine does depth bound (more + need + 1) _ bounds ?_ env fuel
          (spare.mono (Nat.le_refl _) (by omega))
        have later := continues.mono (Nat.le_refl bound) (show need ≤ more + need + 1 by omega)
        refine ⟨fun env fuel spare => ?_, later.exit, later.ret, later.failed⟩
        refine Setting.lead (more + need) jumps rfl spare fun less spare => ?_
        simp only [falls, if_true]
        exact from_ depth bound need rest bounds continues env less
          (spare.pred.mono (Nat.sub_le _ _) (Nat.le_refl _))
      | false =>
        rw [if_neg (by simp)]
        refine does depth bound (need + 1) _ bounds ?_ env fuel (spare.mono (Nat.le_refl _) (by omega))
        have later := continues.mono (Nat.le_refl bound) (Nat.le_succ need)
        refine ⟨fun env fuel spare => ?_, later.exit, later.ret, later.failed⟩
        refine Setting.lead need jumps rfl spare fun less spare => ?_
        simp only [falls]
        exact continues.normal env less (spare.pred.mono (Nat.sub_le _ _) (Nat.le_refl _))

theorem Means.switch {tag : Code} {cases : List (List Code)} {default : Option Nat}
    {labels : List String} {span : Span} (below : exits.Below level)
    (means : ClausesMean (exits.offering ⟨false, labels⟩ level) (here + 1) codes bodies)
    (lengths : cases.length = codes.length) :
    Means exits here (dispatched level here span codes fun starts breakTo =>
      .switch tag (tagged cases starts) (fallback default starts breakTo)).lines
      (.switch tag cases default labels bodies) where
  plain := by
    simp only [dispatched, Fragment.append_lines, Fragment.close, List.forall_mem_append,
      List.forall_mem_map, Line.close_isPlain]
    exact ⟨List.forall_mem_singleton.mpr rfl, means.plain _⟩
  realizes setting targets holds := by
    simp only [dispatched, Fragment.append_lines, Fragment.close] at holds
    generalize isStarts : codes.map (·.start) = starts at holds
    generalize isBreak : ClauseCode.finish (here + 1) codes = breakTo at holds
    obtain ⟨cost, does⟩ := means.realizes isBreak holds.right.opened
    refine ⟨cost + 2, fun depth bound need rest bounds outer env fuel spare => ?_⟩
    simp only [dispatched, Fragment.append_lines, Fragment.close, Fragment.one_lines,
      List.length_append, List.length_map, List.length_singleton, ← Nat.add_assoc, means.finish,
      isBreak] at outer
    have acts : act setting.call env (.switch tag (tagged cases starts)
        (fallback default starts breakTo)) = findBody tag cases default setting.call env >>=
          fun found => pure (.jump (fallback found starts breakTo)) := by
      rw [findBody, Run.bind_assoc]
      refine Run.bind_congr fun tag => ?_
      rw [Step.findCase_tagged setting.call env tag default starts breakTo 0 cases starts
        (by rw [lengths, ← isStarts, List.length_map]) (List.drop_zero), Run.bind_assoc]
      rfl
    have inner : setting.Continues (exits.offering ⟨false, labels⟩ level)
        (targets.closing level breakTo 0) breakTo depth bound (need + 1) fun ending =>
          setting.perform (.inSwitch labels ending.completion) ending.env >>= rest := by
      have later := outer.mono (Nat.le_refl bound) (Nat.le_succ need)
      refine outer.offering below (Nat.le_refl _) (Nat.le_succ _) later.normal
        (fun kind label isBreak names env fuel spare => ?_) (fun kind label passed env => ?_)
        (fun _ => rfl) fun _ _ => rfl
      · obtain rfl : kind = .break := by simpa using isBreak
        simp only [Action.inSwitch, names, if_true]
        rw [Targets.closing_self]
        exact outer.normal env fuel (spare.pred.mono (Nat.sub_le _ _) (Nat.le_refl _))
      · cases kind with
        | «continue» => rfl
        | «break» =>
          have foreign : ¬label.all labels.contains = true := fun names => passed ⟨.inl rfl, names⟩
          simp only [Action.inSwitch, foreign]
          rfl
    rw [Action.switch, Setting.perform_after, Setting.perform_doing]
    refine Setting.step (cost + (need + 1)) holds.left.head acts (spare.mono (Nat.le_refl _) (by omega))
      (fun less found spare => ?_) fun error => outer.failed env error
    have spare := spare.pred.mono (Nat.sub_le _ _) (Nat.le_refl _)
    cases found with
    | some number => exact isStarts ▸ does number depth bound (need + 1) _ bounds inner env less spare
    | none => exact outer.normal env less (spare.mono (Nat.le_refl _) (by omega))

end Switches

end MiniGo
