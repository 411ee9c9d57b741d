import MiniGo.Proofs.Flow
/-!
The instruction lists of whole statements are typed when those of their parts are.
-/

namespace MiniGo

variable {strict : Prop} {base : Nat} {out : Nat → ExitKind → List Layer → Prop} {here : Nat}
  {ctx : Ctx strict} {lines : List Line} {sites : List Site}

@[simp] theorem Fragment.length_lines (fragment : Fragment) :
    fragment.length = fragment.lines.length := rfl

@[simp] theorem Fragment.append_lines (first second : Fragment) :
    (first ++ second).lines = first.lines ++ second.lines := rfl

@[simp] theorem Fragment.one_lines (instr : Instr) (span : Span) :
    (Fragment.one instr span).lines = [⟨instr, span⟩] := rfl

@[simp] theorem Fragment.dead_lines (fragment : Fragment) : fragment.dead.lines = [] := rfl

@[simp] theorem Fragment.within_lines (fragment : Fragment) (frame : Frame) :
    (fragment.within frame).lines = fragment.lines := rfl

@[simp] theorem Fragment.within_frame (fragment : Fragment) (frame : Frame) :
    (fragment.within frame).frame = frame := rfl

@[simp] theorem Fragment.within_fragment (fragment : Fragment) (frame : Frame) :
    (fragment.within frame).toFragment = fragment := rfl

@[simp] theorem Piece.none_lines (frame : Frame) : (Piece.none frame).lines = [] := rfl

@[simp] theorem Piece.none_frame (frame : Frame) : (Piece.none frame).frame = frame := rfl

@[simp] theorem Piece.one_lines (frame : Frame) (instr : Instr) (span : Span) :
    (Piece.one frame instr span).lines = [⟨instr, span⟩] := rfl

@[simp] theorem Piece.one_frame (frame : Frame) (instr : Instr) (span : Span) :
    (Piece.one frame instr span).frame = frame := rfl

theorem Piece.append_none (piece : Piece) :
    (piece.toFragment ++ (Piece.none piece.frame).toFragment).within piece.frame = piece := by
  obtain ⟨⟨lines, defers⟩, frame⟩ := piece
  change Piece.mk ⟨lines ++ [], defers || false⟩ frame = _
  rw [List.append_nil, Bool.or_false]

theorem Runs.scoped {level : Level} {span : Span} (owned : level.frame.owned = true)
    (deep : base < ctx.layers.length)
    (runs : Runs strict base out (here + 1) lines sites ({ level } :: ctx.layers)
      ({ level } :: ctx.layers)) :
    Runs strict base out here
      ([⟨.push level.frame.objects level.frame.words, span⟩] ++ lines ++ [⟨.pop, span⟩])
      (Site.wrapped true ctx.site level.frame sites) ctx.layers ctx.layers := by
  let leaving : Ctx strict := ⟨{ owned := true } :: ctx.scope, { level } :: ctx.layers,
    .owned rfl ⟨owned.symm, List.nil_suffix, Nat.zero_le _, Nat.zero_le _⟩ (by simp) ctx.fits⟩
  have push : Runs strict base out here [⟨.push level.frame.objects level.frame.words, span⟩]
      [ctx.site] ctx.layers ({ level } :: ctx.layers) := .one ctx (.push ⟨rfl, .refl _⟩)
  have pop : Runs strict base out (here + (1 + lines.length)) [⟨.pop, span⟩] [leaving.site]
      leaving.layers ctx.layers := .one leaving (.pop rfl deep ⟨rfl, .refl _⟩)
  exact (push.append runs).append (by rw [List.length_append]; exact pop)

theorem Runs.unless {cond : Code} {span : Span} (fits : CodeFits strict ctx cond .bool)
    (runs : Runs strict base out (here + 1) lines sites ctx.layers ctx.layers) :
    Runs strict base out here (⟨.jumpUnless cond (here + 1 + lines.length), span⟩ :: lines)
      (ctx.site :: sites) ctx.layers ctx.layers := by
  obtain ⟨positions, same, flows, enter⟩ := runs
  have length := flows.length_eq
  have more : ∀ position layers,
      Lands (here + 1) (positions.map (·.layers)) ctx.layers position layers →
      Lands here ((ctx :: positions).map (·.layers)) ctx.layers position layers := by
    intro position layers landing
    exact @Lands.right _ _ [ctx.layers] _ _ _ landing
  refine ⟨ctx :: positions, by rw [List.map_cons, same],
    .cons (.jumpUnless fits (more _ _ enter) (more _ _ ?_)) (flows.mono more fun _ _ _ same => same),
    .inl ⟨0, ctx.layers, rfl, rfl, .refl _⟩⟩
  rw [← length, ← List.length_map (f := (·.layers))]
  exact Lands.finish (.refl _)

theorem Runs.either {cond : Code} {condSpan span : Span} {more : List Line}
    {otherSites : List Site} (fits : CodeFits strict ctx cond .bool)
    (first : Runs strict base out (here + 1) lines sites ctx.layers ctx.layers)
    (second : Runs strict base out (here + 1 + lines.length + 1) more otherSites ctx.layers
      ctx.layers) :
    Runs strict base out here
      (⟨.jumpUnless cond (here + 1 + lines.length + 1), condSpan⟩ :: lines ++
        ⟨.goto (here + 1 + lines.length + 1 + more.length), span⟩ :: more)
      (ctx.site :: sites ++ ctx.site :: otherSites) ctx.layers ctx.layers := by
  obtain ⟨positions, rfl, flows, enter⟩ := first
  obtain ⟨others, rfl, flows', enter'⟩ := second
  have length := flows.length_eq
  have length' := flows'.length_eq
  have stops : ((ctx :: positions ++ ctx :: others).map (·.layers)) =
      [ctx.layers] ++ positions.map (·.layers) ++ (ctx.layers :: others.map (·.layers)) := by simp
  have right : ∀ position layers,
      Lands (here + 1 + lines.length + 1) (others.map (·.layers)) ctx.layers position layers →
      Lands here ((ctx :: positions ++ ctx :: others).map (·.layers)) ctx.layers position
        layers := by
    intro position layers landing
    have whole := @Lands.right here _ ([ctx.layers] ++ positions.map (·.layers) ++ [ctx.layers]) _
      _ _ (by simpa [length, Nat.add_assoc, Nat.add_comm, Nat.add_left_comm] using landing)
    simpa using whole
  have left : ∀ position layers,
      Lands (here + 1) (positions.map (·.layers)) ctx.layers position layers →
      Lands here ((ctx :: positions ++ ctx :: others).map (·.layers)) ctx.layers position
        layers := by
    intro position layers landing
    rw [stops]
    refine @Lands.within _ _ [ctx.layers] _ _ _ _ _ landing (.inl ?_)
    refine ⟨1 + positions.length, ctx.layers, by simp [Nat.add_assoc], ?_, .refl _⟩
    simp [Nat.add_comm 1]
  refine ⟨ctx :: positions ++ ctx :: others, by simp, ?_,
    .inl ⟨0, ctx.layers, rfl, by simp, .refl _⟩⟩
  have test := @Flows.cons _ _ _ _ _ ⟨.jumpUnless cond (here + 1 + lines.length + 1), condSpan⟩ _
    _ _ (.jumpUnless fits (left _ _ enter) (right _ _ enter'))
    (flows.mono left fun _ _ _ same => same)
  refine test.append (.cons (.goto ?_) ?_)
  · refine .inr ⟨?_, .refl _⟩
    simp only [List.length_map, List.length_append, List.length_cons, length, length']
    omega
  · refine (by simpa [Nat.add_assoc, Nat.add_comm, Nat.add_left_comm] using
      flows'.mono right fun _ _ _ same => same)

theorem branches_runs {cond : Cond} {condSpan span : Span} {thenPart : Nat → Compiled Fragment}
    {elsePart : Option (Nat → Compiled Fragment)} {fragment : Fragment}
    {thenSites elseSites : List Site → Prop}
    (compiled : branches cond here condSpan span thenPart elsePart = .ok fragment)
    (fits : ∀ code, cond = .code code → CodeFits strict ctx code .bool)
    (thenRuns : ∀ here part, thenPart here = .ok part → ∃ sites, thenSites sites ∧
      Runs strict base out here part.lines sites ctx.layers ctx.layers)
    (elseRuns : ∀ other, elsePart = some other → ∀ here part, other here = .ok part →
      ∃ sites, elseSites sites ∧ Runs strict base out here part.lines sites ctx.layers ctx.layers)
    (noElse : elsePart = none → elseSites []) :
    ∃ first second, thenSites first ∧ elseSites second ∧
      Runs strict base out here fragment.lines
        (Site.branched cond elsePart.isSome ctx.site first second) ctx.layers ctx.layers := by
  cases cond with
  | const value =>
    simp only [branches, Compiled.bind_eq_ok] at compiled
    obtain ⟨first, compiledFirst, compiled⟩ := compiled
    obtain ⟨sites, isThen, runs⟩ := thenRuns here first compiledFirst
    cases elsePart with
    | none =>
      simp only [Compiled.pure_eq_ok] at compiled
      refine ⟨sites, [], isThen, noElse rfl, compiled ▸ ?_⟩
      cases value
      · exact .nil (.refl _)
      · exact runs
    | some other =>
      simp only [Compiled.bind_eq_ok, Compiled.pure_eq_ok] at compiled
      obtain ⟨second, compiledSecond, rfl⟩ := compiled
      obtain ⟨others, isElse, otherRuns⟩ := elseRuns other rfl _ second compiledSecond
      refine ⟨sites, others, isThen, isElse, ?_⟩
      cases value
      · exact otherRuns
      · exact List.append_nil sites ▸ runs.append (.nil (.refl _))
  | code cond =>
    simp only [branches, Compiled.bind_eq_ok] at compiled
    obtain ⟨first, compiledFirst, compiled⟩ := compiled
    have test := fits cond rfl
    obtain ⟨sites, isThen, runs⟩ := thenRuns (here + 1) first compiledFirst
    cases elsePart with
    | none =>
      simp only [Compiled.pure_eq_ok] at compiled
      subst compiled
      exact ⟨sites, [], isThen, noElse rfl, by simpa [Site.branched] using runs.unless test⟩
    | some other =>
      simp only [Compiled.bind_eq_ok, Compiled.pure_eq_ok] at compiled
      obtain ⟨second, compiledSecond, rfl⟩ := compiled
      obtain ⟨others, isElse, otherRuns⟩ := elseRuns other rfl _ second compiledSecond
      exact ⟨sites, others, isThen, isElse,
        by simpa [Site.branched] using Runs.either test runs otherRuns⟩

/-- The exits that the body of a loop may take: its own, which all hand over the same layers, and
those of the statements around it. -/
def looping (level : Nat) (layers : List Layer) (out : Nat → ExitKind → List Layer → Prop)
    (level' : Nat) (kind : ExitKind) (given : List Layer) : Prop :=
  if level' = level then Serves given layers else out level' kind given

theorem looping_other {level level' : Nat} {kind : ExitKind} {layers given : List Layer}
    (differs : level' ≠ level) (exit : looping level layers out level' kind given) :
    out level' kind given := by
  simpa [looping, differs] using exit

/-- A loop: its test, which is entered at `first`, its body, its post statement and the jump back. A
`continue` leads to the post statement, or to the test if there is none. -/
theorem Runs.cycle {level continueTo : Nat} {first : List (Ctx strict)} {given : List Layer}
    {test body post : List Line} {bodySites postSites : List Site} {span : Span}
    (testFlows : ∀ lands, (∀ layers, Serves layers given → lands (here + test.length) layers) →
      (∀ layers, Serves layers ctx.layers →
        lands (here + test.length + body.length + post.length + 1) layers) →
      Flows strict base lands out here test first)
    (start : ∀ context : Ctx strict, first[0]? = some context → context.layers = ctx.layers)
    (untested : first = [] → given = ctx.layers)
    (again : continueTo = here ∨ continueTo = here + test.length + body.length)
    (deep : base < ctx.layers.length)
    (bodyRuns : Runs strict base (looping level ctx.layers out) (here + test.length) body bodySites
      given ctx.layers)
    (postRuns : Runs strict base (looping level ctx.layers out)
      (here + test.length + body.length) post postSites ctx.layers ctx.layers) :
    Runs strict base out here
      (test ++ (body ++ post).map
          (·.close level (here + test.length + body.length + post.length + 1) continueTo) ++
        [⟨.goto here, span⟩])
      (first.map Ctx.site ++ (bodySites ++ postSites ++ [ctx.site])) ctx.layers ctx.layers := by
  obtain ⟨bodyStops, rfl, bodyFlows, bodyEnter⟩ := bodyRuns
  obtain ⟨postStops, rfl, postFlows, postEnter⟩ := postRuns
  have bodyLength := bodyFlows.length_eq
  have postLength := postFlows.length_eq
  have testLength : first.length = test.length :=
    (testFlows (fun _ _ => True) (fun _ _ => trivial) fun _ _ => trivial).length_eq
  let stops := first ++ bodyStops ++ postStops ++ [ctx]
  have stopsMap : stops.map (·.layers) = first.map (·.layers) ++ bodyStops.map (·.layers) ++
      postStops.map (·.layers) ++ [ctx.layers] := by simp [stops]
  have stopsLength : (stops.map (·.layers)).length =
      test.length + body.length + post.length + 1 := by
    simp [stops, testLength, bodyLength, postLength]
    omega
  have finish : ∀ layers, Serves layers ctx.layers →
      Lands here (stops.map (·.layers)) ctx.layers
        (here + test.length + body.length + post.length + 1) layers := by
    intro layers serves
    exact .inr ⟨by rw [stopsLength]; omega, serves⟩
  have back : ∀ layers, Serves layers ctx.layers →
      Lands here (stops.map (·.layers)) ctx.layers (here + test.length + body.length + post.length)
        layers := by
    intro layers serves
    refine .inl ⟨test.length + body.length + post.length, ctx.layers, by omega, ?_, serves⟩
    rw [stopsMap, List.getElem?_append_right (by simp [testLength, bodyLength, postLength]; omega)]
    simp [testLength, bodyLength, postLength, Nat.add_assoc]
  have postLands : ∀ position layers,
      Lands (here + test.length + body.length) (postStops.map (·.layers)) ctx.layers position
        layers → Lands here (stops.map (·.layers)) ctx.layers position layers := by
    intro position layers landing
    rw [stopsMap, List.append_assoc (first.map _ ++ bodyStops.map _)]
    have ending := back ctx.layers (.refl _)
    rw [stopsMap] at ending
    have whole := @Lands.within here _ (first.map (·.layers) ++ bodyStops.map (·.layers))
      [ctx.layers] _ _ _ _ (by simpa [testLength, bodyLength, Nat.add_assoc] using landing)
      (by simpa [testLength, bodyLength, postLength, Nat.add_assoc] using ending)
    simpa using whole
  have bodyLands : ∀ position layers,
      Lands (here + test.length) (bodyStops.map (·.layers)) ctx.layers position layers →
      Lands here (stops.map (·.layers)) ctx.layers position layers := by
    intro position layers landing
    have ending := postLands _ _ postEnter
    rw [stopsMap] at ending ⊢
    have whole := @Lands.within here _ (first.map (·.layers))
      (postStops.map (·.layers) ++ [ctx.layers]) _ _ _ _ (by simpa [testLength] using landing)
      (by simpa [testLength, bodyLength, Nat.add_assoc] using ending)
    simpa using whole
  have entered : ∀ layers, Serves layers given →
      Lands here (stops.map (·.layers)) ctx.layers (here + test.length) layers :=
    fun layers serves => bodyLands _ _ (bodyEnter.serves serves)
  have enter : Lands here (stops.map (·.layers)) ctx.layers here ctx.layers := by
    cases first with
    | nil =>
      simp only [List.length_nil] at testLength
      simpa [← testLength, untested rfl] using entered given (.refl _)
    | cons context rest =>
      refine .inl ⟨0, context.layers, rfl, by simp [stops], ?_⟩
      rw [start context rfl]
      exact .refl _
  have both := (bodyFlows.mono bodyLands fun _ _ _ same => same).append
    (postFlows.mono postLands fun _ _ _ same => same)
  have inner := @Flows.close _ _ _ _ out _ _ _ level
    (here + test.length + body.length + post.length + 1) continueTo both
    (fun layers exit => by
      have serves : Serves layers ctx.layers := by simpa [looping] using exit
      exact ⟨serves.length_eq ▸ deep, finish layers serves⟩)
    (fun layers exit => by
      have serves : Serves layers ctx.layers := by simpa [looping] using exit
      refine ⟨serves.length_eq ▸ deep, ?_⟩
      rcases again with rfl | rfl
      · exact enter.serves serves
      · exact postLands _ _ (postEnter.serves serves))
    (fun level' kind layers differs exit => looping_other differs exit)
  refine ⟨stops, by simp [stops], ?_, enter⟩
  have whole := ((testFlows _ entered finish).append inner).append
    (@Flows.cons _ _ _ _ _ ⟨.goto here, span⟩ _ ctx _ (.goto enter) .nil)
  simpa [stops] using whole

theorem loop_runs {cond : Cond} {level : Nat} {span : Span} {body : Nat → Compiled Fragment}
    {post : Nat → Compiled Piece} {piece : Piece} {bodySites postSites : List Site → Prop}
    (compiled : loop cond level here span body post = .ok piece)
    (fits : ∀ code, cond = .code code → CodeFits strict ctx code .bool)
    (deep : base < ctx.layers.length)
    (bodyRuns : ∀ here part, body here = .ok part → ∃ sites, bodySites sites ∧
      Runs strict base (looping level ctx.layers out) here part.lines sites ctx.layers ctx.layers)
    (postRuns : ∀ here part, post here = .ok part → part.frame = piece.frame →
      ∃ sites, postSites sites ∧
        Runs strict base (looping level ctx.layers out) here part.lines sites ctx.layers
          ctx.layers) :
    ∃ first second, bodySites first ∧ postSites second ∧
      Runs strict base out here piece.lines (Site.looped cond ctx.site first second) ctx.layers
        ctx.layers := by
  cases cond with
  | code cond =>
    simp only [loop, Compiled.bind_eq_ok, Compiled.pure_eq_ok] at compiled
    obtain ⟨first, compiledFirst, last, compiledLast, rfl⟩ := compiled
    obtain ⟨inner, isBody, innerRuns⟩ := bodyRuns _ first compiledFirst
    obtain ⟨after, isPost, afterRuns⟩ := postRuns _ last compiledLast rfl
    have cycle := @Runs.cycle _ _ _ _ _ _ _ [ctx] _
      [⟨.jumpUnless cond (here + 1 + first.length + last.length + 1), span⟩] _ _ _ _ span
      (fun lands next finish => .cons (.jumpUnless (fits cond rfl) (next _ (.refl _))
        (finish _ (.refl _))) .nil) (by simp) (by simp) (.inr rfl) deep innerRuns afterRuns
    exact ⟨inner, after, isBody, isPost, by simpa [Fragment.close, Site.looped] using cycle⟩
  | const value =>
    cases value with
    | false =>
      simp only [loop, Compiled.bind_eq_ok, Compiled.pure_eq_ok] at compiled
      obtain ⟨first, compiledFirst, last, compiledLast, rfl⟩ := compiled
      obtain ⟨inner, isBody, -⟩ := bodyRuns _ first compiledFirst
      obtain ⟨after, isPost, -⟩ := postRuns _ last compiledLast rfl
      exact ⟨inner, after, isBody, isPost, .nil (.refl _)⟩
    | true =>
      simp only [loop, Compiled.bind_eq_ok, Compiled.pure_eq_ok] at compiled
      obtain ⟨first, compiledFirst, last, compiledLast, rfl⟩ := compiled
      obtain ⟨inner, isBody, innerRuns⟩ := bodyRuns _ first compiledFirst
      obtain ⟨after, isPost, afterRuns⟩ := postRuns _ last compiledLast rfl
      have cycle := @Runs.cycle _ _ _ _ _ _ _ ([] : List (Ctx strict)) _ [] _ _ _ _ span
        (fun lands next finish => .nil) (by simp) (fun _ => rfl) (.inr rfl) deep innerRuns afterRuns
      exact ⟨inner, after, isBody, isPost, by simpa [Fragment.close, Site.looped] using cycle⟩

theorem rangeLoop_runs {kind : RangeKind} {key : Ty} {value : Option Ty} {state : RangeSlots}
    {subject : Code} {keyPlace valuePlace : Option Place} {body : Fragment} {level : Nat}
    {span : Span} {layer : Layer} {keyTargets valueTargets : List (Option Ty)} {again : Ctx strict}
    {bodySites : List Site} (found : ctx.layers[0]? = some layer)
    (started : again.layers = stored [state.subject] ctx.layers)
    (ranged : kind.Over state.subject.type key value)
    (inside : state.In layer.level state.subject.type key)
    (subjectFits : CodeFits strict ctx subject state.subject.type)
    (keyTyped : PlacesTyped strict again (Option.toList keyPlace) keyTargets)
    (keyStores : ∀ target ∈ keyTargets, key.StoresTo target)
    (valueTyped : PlacesTyped strict again (Option.toList valuePlace) valueTargets)
    (valueStores : ∀ target ∈ valueTargets, ∃ type, value = some type ∧ type.StoresTo target)
    (deep : base < again.layers.length)
    (bodyRuns : Runs strict base (looping level again.layers out) (here + 2) body.lines bodySites
      (stored ((keyPlace.toList ++ valuePlace.toList).filterMap PlaceOf.inner?) again.layers)
      again.layers) :
    Runs strict base out here
      (Compile.rangeLoop kind key state subject keyPlace valuePlace body level here span).lines
      ([ctx.site, again.site] ++ bodySites ++ .replicate (if kind == .chan then 1 else 2) again.site)
      ctx.layers again.layers := by
  have begin : Runs strict base out here [⟨.rangeStart kind key state subject, span⟩] [ctx.site]
      ctx.layers again.layers :=
    .one ctx (.rangeStart found ranged inside subjectFits ⟨rfl, started ▸ .refl _⟩)
  obtain ⟨layer', found', sameLevel, ready⟩ : ∃ layer', again.layers[0]? = some layer' ∧
      layer'.level = layer.level ∧ state.subject ∈ layer'.ready := by
    rw [started]
    cases layersIs : ctx.layers with
    | nil => simp [layersIs] at found
    | cons top rest =>
      obtain rfl : top = layer := by simpa [layersIs] using found
      exact ⟨_, rfl, rfl, by simp⟩
  have next : ∀ dest lands, (∀ layers, Serves layers
        (stored ((keyPlace.toList ++ valuePlace.toList).filterMap PlaceOf.inner?) again.layers) →
        lands (here + 1 + 1) layers) →
      (∀ layers, Serves layers again.layers → lands dest layers) →
      Flows strict base lands out (here + 1)
        [⟨.rangeNext kind state keyPlace valuePlace dest, span⟩] [again] := by
    intro dest lands next finish
    exact .cons (.rangeNext found' ranged (sameLevel ▸ inside) (fun _ _ => ready) keyTyped keyStores
      valueTyped valueStores (next _ (.refl _)) (finish _ (.refl _))) .nil
  by_cases channel : kind = .chan
  · have cycle := @Runs.cycle _ _ _ (here + 1) _ level (here + 1) [again] _
      [⟨.rangeNext kind state keyPlace valuePlace (here + 2 + body.length + 1), span⟩] _ [] _ _ span
      (fun lands enter finish => next _ lands enter (by
        simpa [Nat.add_assoc, Nat.add_comm, Nat.add_left_comm] using finish))
      (by simp) (by simp) (.inl rfl) deep bodyRuns (.nil (.refl _))
    have whole := begin.append cycle
    simpa [Compile.rangeLoop, channel, Fragment.close, Nat.add_assoc, Nat.add_comm,
      Nat.add_left_comm] using whole
  · have step : Runs strict base (looping level again.layers out) (here + 2 + body.lines.length)
        [⟨.rangeStep state, span⟩] [again.site] again.layers again.layers :=
      .one again (.rangeStep found' (sameLevel ▸ inside) ⟨rfl, .refl _⟩)
    have cycle := @Runs.cycle _ _ _ (here + 1) _ level (here + 2 + body.length) [again] _
      [⟨.rangeNext kind state keyPlace valuePlace (here + 2 + body.length + 1 + 1), span⟩] _
      [⟨.rangeStep state, span⟩] _ _ span (fun lands enter finish => next _ lands enter (by
        simpa [Nat.add_assoc, Nat.add_comm, Nat.add_left_comm] using finish)) (by simp) (by simp)
      (.inr (by simp)) deep bodyRuns step
    have whole := begin.append cycle
    simpa [Compile.rangeLoop, channel, Fragment.close, Line.close, List.replicate_succ,
      Nat.add_assoc, Nat.add_comm, Nat.add_left_comm] using whole

/-- Clauses in a row from a position on, each entered with layers of its own and left with those of
the statement. Only a clause with another one after it falls through. -/
inductive ClausesRun (strict : Prop) (base : Nat) (out : Nat → ExitKind → List Layer → Prop)
    (layers : List Layer) :
    Nat → List ClauseCode → List (List Site) → List (List Layer) → Prop
  | nil {here : Nat} : ClausesRun strict base out layers here [] [] []
  | cons {here : Nat} {clause : ClauseCode} {clauses : List ClauseCode} {sites : List Site}
      {others : List (List Site)} {entry : List Layer} {entries : List (List Layer)} :
    clause.start = here →
    Runs strict base out here clause.body.lines sites entry layers →
    (clause.fallsThrough = true → ∃ next, entries[0]? = some next ∧ Serves layers next) →
    ClausesRun strict base out layers clause.next clauses others entries →
    ClausesRun strict base out layers here (clause :: clauses) (sites :: others) (entry :: entries)

theorem ClausesRun.length_eq {clauses : List ClauseCode} {sites : List (List Site)}
    {entries : List (List Layer)} {layers : List Layer}
    (runs : ClausesRun strict base out layers here clauses sites entries) :
    clauses.length = entries.length := by
  induction runs with
  | nil => rfl
  | cons _ _ _ _ ih => simp [ih]

theorem ClausesRun.join {clauses : List ClauseCode} {sites : List (List Site)}
    {entries : List (List Layer)}
    (runs : ClausesRun strict base out ctx.layers here clauses sites entries) :
    ∃ positions : List (Ctx strict),
      positions.map Ctx.site = sites.flatMap (· ++ [ctx.site]) ∧
      ClauseCode.finish here clauses = here + positions.length ∧
      Flows strict base (Lands here (positions.map (·.layers)) ctx.layers) out here
        (ClauseCode.join (here + positions.length) clauses).lines positions ∧
      ∀ (index : Nat) clause entry, clauses[index]? = some clause → entries[index]? = some entry →
        Lands here (positions.map (·.layers)) ctx.layers clause.start entry := by
  induction runs with
  | nil => exact ⟨[], rfl, by simp [ClauseCode.finish], .nil, by simp⟩
  | @cons here clause clauses _ _ entry entries same body falls rest ih =>
    subst same
    obtain ⟨others, otherSites, finish, flows, enters⟩ := ih
    obtain ⟨positions, rfl, bodyFlows, enter⟩ := body
    have length := bodyFlows.length_eq
    let stops := positions ++ ctx :: others
    have stopsMap : stops.map (·.layers) =
        positions.map (·.layers) ++ ctx.layers :: others.map (·.layers) := by simp [stops]
    have ending : clause.start + stops.length = clause.next + others.length := by
      simp [stops, ClauseCode.next, length]
      omega
    have right : ∀ position layers,
        Lands clause.next (others.map (·.layers)) ctx.layers position layers →
        Lands clause.start (stops.map (·.layers)) ctx.layers position layers := by
      intro position layers landing
      have whole := @Lands.right clause.start _ (positions.map (·.layers) ++ [ctx.layers]) _ _ _
        (by simpa [ClauseCode.next, length, Nat.add_assoc] using landing)
      simpa [stopsMap] using whole
    have left : ∀ position layers,
        Lands clause.start (positions.map (·.layers)) ctx.layers position layers →
        Lands clause.start (stops.map (·.layers)) ctx.layers position layers := by
      intro position layers landing
      rw [stopsMap]
      exact landing.left (.inl ⟨0, ctx.layers, rfl, rfl, .refl _⟩)
    have jump : Lands clause.start (stops.map (·.layers)) ctx.layers
        (if clause.fallsThrough then clause.next else clause.start + stops.length) ctx.layers := by
      split
      · rename_i falling
        obtain ⟨next, known, serves⟩ := falls falling
        cases rest with
        | nil => simp at known
        | cons start =>
          simp only [List.getElem?_cons_zero, Option.some.injEq] at known
          subst known
          have entered := right _ _ (enters 0 _ _ rfl rfl)
          rw [start] at entered
          exact entered.serves serves
      · exact .inr ⟨by simp [stops], .refl _⟩
    refine ⟨stops, by simp [stops, otherSites], ?_, ?_, ?_⟩
    · rw [ClauseCode.finish, finish, ending]
    · rw [← ending] at flows
      have whole := (bodyFlows.mono left fun _ _ _ same => same).append
        (@Flows.cons _ _ _ _ _ ⟨.goto (if clause.fallsThrough then clause.next
          else clause.start + stops.length), clause.span⟩ _ ctx _ (.goto jump)
          (flows.mono right fun _ _ _ same => same))
      simpa only [ClauseCode.join, Fragment.append_lines, Fragment.one_lines, List.append_assoc,
        List.singleton_append] using whole
    · intro index target given found known
      cases index with
      | zero =>
        simp only [List.getElem?_cons_zero, Option.some.injEq] at found known
        subst found known
        exact left _ _ enter
      | succ index => exact right _ _ (enters index target given (by simpa using found)
          (by simpa using known))

def switching (level : Nat) (layers : List Layer) (out : Nat → ExitKind → List Layer → Prop)
    (level' : Nat) (kind : ExitKind) (given : List Layer) : Prop :=
  if level' = level then kind = .break ∧ Serves given layers else out level' kind given

theorem dispatched_runs {level : Nat} {span : Span} {clauses : List ClauseCode}
    {sites : List (List Site)} {entries : List (List Layer)} {dispatch : List Nat → Nat → Instr}
    (runs : ClausesRun strict base (switching level ctx.layers out) ctx.layers (here + 1) clauses
      sites entries)
    (typed : ∀ lands, (∀ (index : Nat) start entry, (clauses.map (·.start))[index]? = some start →
        entries[index]? = some entry → lands start entry) →
      (∀ layers, Serves layers ctx.layers →
        lands (ClauseCode.finish (here + 1) clauses) layers) →
      InstrTyped strict base lands out here ctx
        (dispatch (clauses.map (·.start)) (ClauseCode.finish (here + 1) clauses)))
    (deep : base < ctx.layers.length) :
    Runs strict base out here (dispatched level here span clauses dispatch).lines
      (Site.dispatched ctx.site sites) ctx.layers ctx.layers := by
  obtain ⟨positions, known, finish, flows, enters⟩ := runs.join
  have right : ∀ position layers,
      Lands (here + 1) (positions.map (·.layers)) ctx.layers position layers →
      Lands here ((ctx :: positions).map (·.layers)) ctx.layers position layers := by
    intro position layers landing
    exact @Lands.right _ _ [ctx.layers] _ _ _ landing
  have ending : ∀ layers, Serves layers ctx.layers →
      Lands here ((ctx :: positions).map (·.layers)) ctx.layers
        (ClauseCode.finish (here + 1) clauses) layers := by
    intro layers serves
    refine .inr ⟨?_, serves⟩
    simp only [finish, List.length_map, List.length_cons]
    omega
  refine ⟨ctx :: positions, by rw [List.map_cons, known]; rfl, ?_,
    .inl ⟨0, ctx.layers, rfl, rfl, .refl _⟩⟩
  refine .cons (typed _ ?_ ending) ?_
  · intro index start entry found known
    rw [List.getElem?_map, Option.map_eq_some_iff] at found
    obtain ⟨clause, found, rfl⟩ := found
    exact right _ _ (enters index clause entry found known)
  · rw [← finish] at flows
    refine (flows.mono right fun _ _ _ same => same).close ?_ ?_ ?_
    · intro layers exit
      simp only [switching, if_true] at exit
      exact ⟨exit.2.length_eq ▸ deep, ending layers exit.2⟩
    · intro layers exit
      simp [switching] at exit
    · intro level' kind layers differs exit
      simpa [switching, differs] using exit

end MiniGo
