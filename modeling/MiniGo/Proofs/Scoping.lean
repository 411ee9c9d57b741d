import MiniGo.Proofs.Assignments
import MiniGo.Proofs.Statements
/-!
Scopes of statements. A statement is compiled in a scope that offers exits to it and belongs to a
function; entering an inner scope keeps these, and a loop or switch adds its own.
-/

namespace MiniGo

variable {strict : Prop} {base : Nat} {out : Nat → ExitKind → List Layer → Prop} {here : Nat}

/-- What a scope offers to its statements at some layers: exits that hand over the layers of the
statement they leave, and the result slots of the function. -/
structure Around (base : Nat) (out : Nat → ExitKind → List Layer → Prop) (scope : Scope)
    (layers : List Layer) : Prop where
  deep : base < layers.length
  exits : ∀ kind label hops level, scope.exit? kind label = some (hops, level) →
    level < scope.length ∧ ∀ given, Serves given (layers.drop hops) → out level kind given
  returns : ∀ hops info, scope.function? = some (hops, info) →
    ∃ layer, layers[hops]? = some layer ∧ ∀ slot ∈ info.results, layer.level.Shared slot

namespace Around

variable {scope : Scope} {frame : Frame} {layers inner : List Layer}

theorem serves_get {hops : Nat} {layer : Layer} (serves : Serves inner layers)
    (found : layers[hops]? = some layer) :
    ∃ layer', inner[hops]? = some layer' ∧ layer'.level = layer.level := by
  induction serves generalizing hops with
  | nil => simp at found
  | @cons source target _ _ head _ ih =>
    cases hops with
    | zero =>
      simp only [List.getElem?_cons_zero, Option.some.injEq] at found
      exact ⟨source, rfl, found ▸ head.level⟩
    | succ hops =>
      simp only [List.getElem?_cons_succ] at found ⊢
      exact ih found

theorem returns_inner (around : Around base out scope layers) (func : frame.func = none)
    (serves : Serves (inner.drop frame.cost) layers) {hops : Nat} {info : FuncInfo}
    (found : Scope.function? (frame :: scope) = some (hops, info)) :
    ∃ layer, inner[hops]? = some layer ∧ ∀ slot ∈ info.results, layer.level.Shared slot := by
  simp only [Scope.function?, func, Option.map_eq_some_iff, Prod.exists, Prod.mk.injEq] at found
  obtain ⟨more, info, found, rfl, rfl⟩ := found
  obtain ⟨layer, known, shared⟩ := around.returns more info found
  obtain ⟨layer', known', same⟩ := serves_get serves known
  rw [List.getElem?_drop] at known'
  exact ⟨layer', known', fun slot member => same ▸ shared slot member⟩

theorem exits_inner (around : Around base out scope layers)
    (serves : Serves (inner.drop frame.cost) layers) {kind : ExitKind} {label : Option String}
    {hops level : Nat} (found : scope.exit? kind label = some (hops, level)) :
    level < scope.length ∧
      ∀ given, Serves given (inner.drop (frame.cost + hops)) → out level kind given := by
  obtain ⟨inside, exit⟩ := around.exits kind label hops level found
  have dropped := serves.drop hops
  rw [List.drop_drop] at dropped
  exact ⟨inside, fun given served => exit given (served.trans dropped)⟩

theorem deep_inner (around : Around base out scope layers)
    (serves : Serves (inner.drop frame.cost) layers) : base < inner.length := by
  have length := serves.length_eq
  rw [List.length_drop] at length
  have := around.deep
  omega

theorem rebase {least : Nat} (around : Around base out scope layers) (deep : least < layers.length) :
    Around least out scope layers := ⟨deep, around.exits, around.returns⟩

theorem enter (around : Around base out scope layers) (loop : frame.loop = none)
    (func : frame.func = none) (serves : Serves (inner.drop frame.cost) layers) :
    Around base out (frame :: scope) inner := by
  refine ⟨around.deep_inner serves, ?_, fun hops info => around.returns_inner func serves⟩
  intro kind label hops level found
  simp only [Scope.exit?, loop, Option.any_none, Bool.false_eq_true, if_false, func,
    Option.isSome_none, Option.map_eq_some_iff, Prod.exists, Prod.mk.injEq] at found
  obtain ⟨more, level, found, rfl, rfl⟩ := found
  obtain ⟨inside, exit⟩ := around.exits_inner serves found
  exact ⟨Nat.lt_succ_of_lt inside, exit⟩

theorem enter_loop (around : Around base out scope layers) (func : frame.func = none)
    {target : List Layer}
    (serves : Serves (inner.drop frame.cost) layers) (same : Serves inner target) :
    Around base (looping scope.length target out) (frame :: scope) inner := by
  refine ⟨around.deep_inner serves, ?_, fun hops info => around.returns_inner func serves⟩
  intro kind label hops level found
  simp only [Scope.exit?] at found
  split at found
  · simp only [Option.some.injEq, Prod.mk.injEq] at found
    obtain ⟨rfl, rfl⟩ := found
    refine ⟨Nat.lt_succ_self _, fun given served => ?_⟩
    simpa [looping] using served.trans same
  · simp only [func, Option.isSome_none, Bool.false_eq_true, if_false, Option.map_eq_some_iff,
      Prod.exists, Prod.mk.injEq] at found
    obtain ⟨more, level, found, rfl, rfl⟩ := found
    obtain ⟨inside, exit⟩ := around.exits_inner serves found
    refine ⟨Nat.lt_succ_of_lt inside, fun given served => ?_⟩
    simpa [looping, Nat.ne_of_lt inside] using exit given served

theorem enter_switch (around : Around base out scope layers) {labels : List String}
    (loop : frame.loop = some ⟨false, labels⟩) (func : frame.func = none) {target : List Layer}
    (serves : Serves (inner.drop frame.cost) layers) (same : Serves inner target) :
    Around base (switching scope.length target out) (frame :: scope) inner := by
  refine ⟨around.deep_inner serves, ?_, fun hops info => around.returns_inner func serves⟩
  intro kind label hops level found
  simp only [Scope.exit?] at found
  split at found
  · rename_i offered
    simp only [Option.some.injEq, Prod.mk.injEq] at found
    obtain ⟨rfl, rfl⟩ := found
    refine ⟨Nat.lt_succ_self _, fun given served => ?_⟩
    have broken : kind = .break := by
      simp only [loop, Option.any_some, Bool.or_false, Bool.and_eq_true, beq_iff_eq] at offered
      exact offered.1
    simpa [switching, broken] using served.trans same
  · simp only [func, Option.isSome_none, Bool.false_eq_true, if_false, Option.map_eq_some_iff,
      Prod.exists, Prod.mk.injEq] at found
    obtain ⟨more, level, found, rfl, rfl⟩ := found
    obtain ⟨inside, exit⟩ := around.exits_inner serves found
    refine ⟨Nat.lt_succ_of_lt inside, fun given served => ?_⟩
    simpa [switching, Nat.ne_of_lt inside] using exit given served

theorem serve (around : Around base out scope layers) (serves : Serves inner layers) :
    Around base out scope inner := by
  refine ⟨serves.length_eq ▸ around.deep, fun kind label hops level found => ?_,
    fun hops info found => ?_⟩
  · obtain ⟨inside, exit⟩ := around.exits kind label hops level found
    have dropped := serves.drop hops
    exact ⟨inside, fun given served => exit given (served.trans dropped)⟩
  · obtain ⟨layer, known, shared⟩ := around.returns hops info found
    obtain ⟨layer', known', same⟩ := serves_get serves known
    exact ⟨layer', known', fun slot member => same ▸ shared slot member⟩

theorem grow {after : Frame} {slots : List Slot} (around : Around base out (frame :: scope) layers)
    (declares : Declares frame after slots) (serves : Serves inner layers) :
    Around base out (after :: scope) inner := by
  have cost : after.cost = frame.cost := by simp [Frame.cost, declares.owned]
  have served := around.serve serves
  refine ⟨served.deep, ?_, ?_⟩
  · intro kind label hops level found
    refine served.exits kind label hops level ?_
    simpa only [Scope.exit?, declares.loop, declares.func, cost] using found
  · intro hops info found
    refine served.returns hops info ?_
    simpa only [Scope.function?, declares.func, cost] using found

end Around

/-- A piece that may declare names, typed in any environments that its scope fits. `kind` tells where
its lines are, given the final frames of the environments. -/
def Declaring (strict : Prop) (outer : Scope) (frame : Frame) (here : Nat) (piece : Piece)
    (kind : List Frame → List Site → Prop) : Prop :=
  ∃ slots, Declares frame piece.frame slots ∧
    ∀ (ctx : Ctx strict) base out, ctx.scope = frame :: outer →
      Around base out ctx.scope ctx.layers → Top ctx.layers piece.frame →
      ∃ sites, kind (finals ctx.layers) sites ∧
        Runs strict base out here piece.lines sites ctx.layers (stored slots ctx.layers)

def entering (level : Level) (layers : List Layer) : List Layer :=
  if level.frame.owned then { level } :: layers else layers

@[simp] theorem finals_entering (level : Level) (layers : List Layer) :
    finals (entering level layers) = level.frame.opening (finals layers) := by
  unfold entering Frame.opening
  split <;> rfl

def Inside (ctx : Ctx strict) (base : Nat) (out : Nat → ExitKind → List Layer → Prop) (owned : Bool)
    (here : Nat) (piece : Piece) (kind : List Site → Prop) : Prop :=
  ∃ level : Level, level.frame = piece.frame ∧ level.frame.owned = owned ∧
    ((owned = false → piece.frame.objects = 0 ∧ piece.frame.words = 0) →
      ∃ sites, kind sites ∧ Runs strict base out here piece.lines sites (entering level ctx.layers)
        (entering level ctx.layers))

theorem inScope_runs {ctx : Ctx strict} {owned : Bool} {span : Span}
    {compile : Frame → Nat → Compiled Piece} {fragment : Fragment} {kind : List Site → Prop}
    (compiled : inScope owned span here compile = .ok fragment)
    (inside : ∀ here piece, compile { owned } here = .ok piece →
      Inside ctx base out owned here piece fun sites =>
        kind (Site.wrapped owned ctx.site piece.frame sites))
    (around : Around base out ctx.scope ctx.layers) :
    ∃ sites, kind sites ∧ Runs strict base out here fragment.lines sites ctx.layers ctx.layers := by
  simp only [inScope, Compiled.bind_eq_ok] at compiled
  obtain ⟨piece, content, compiled⟩ := compiled
  obtain ⟨level, same, levelOwned, runs⟩ := inside _ piece content
  cases owned with
  | true =>
    simp only [if_true] at compiled runs
    split at compiled
    · simp at compiled
    simp only [Compiled.pure_eq_ok] at compiled
    subst compiled
    obtain ⟨sites, isKind, runs⟩ := runs (by simp)
    simp only [entering, levelOwned, if_true] at runs
    exact ⟨_, isKind, by simpa [same] using Runs.scoped levelOwned around.deep runs⟩
  | false =>
    simp only [Bool.false_eq_true, if_false] at compiled runs
    split at compiled
    · simp at compiled
    rename_i empty
    simp only [Compiled.pure_eq_ok] at compiled
    subst compiled
    have none : piece.frame.objects = 0 ∧ piece.frame.words = 0 := by
      have total : piece.frame.objects + piece.frame.words = 0 := by simpa using empty
      omega
    obtain ⟨sites, isKind, runs⟩ := runs (fun _ => none)
    simp only [entering, levelOwned, Bool.false_eq_true, if_false] at runs
    exact ⟨sites, isKind, runs⟩

theorem exists_entered (ctx : Ctx strict) {frame : Frame} {level : Level}
    (symbols : frame.symbols = []) (covers : level.Covers frame) :
    ∃ inner : Ctx strict, inner.scope = frame :: ctx.scope ∧
      inner.layers = entering level ctx.layers := by
  by_cases owned : frame.owned = true
  · have levelOwned : level.frame.owned = true := covers.owned ▸ owned
    refine ⟨⟨frame :: ctx.scope, { level } :: ctx.layers, .owned owned covers ?_ ctx.fits⟩, rfl,
      by simp [entering, levelOwned]⟩
    simp [symbols]
  · have bare : frame.owned = false := by simpa using owned
    have levelBare : level.frame.owned = false := covers.owned ▸ bare
    exact ⟨⟨frame :: ctx.scope, ctx.layers, .bare bare (by simp [symbols]) (by simp [symbols])
      ctx.fits⟩, rfl, by simp [entering, levelBare]⟩

theorem entering_serves (level : Level) (layers : List Layer) :
    Serves ((entering level layers).drop level.frame.cost) layers := by
  by_cases owned : level.frame.owned = true <;> simp [entering, owned, Frame.cost] <;>
    exact Serves.refl _

theorem entering_top {level : Level} {layers : List Layer} {frame : Frame}
    (covers : level.Covers frame)
    (bare : frame.owned = false → frame.objects = 0 ∧ frame.words = 0) :
    Top (entering level layers) frame := by
  refine ⟨fun owned => ?_, bare⟩
  have levelOwned : level.frame.owned = true := covers.owned ▸ owned
  exact ⟨{ level }, by simp [entering, levelOwned], covers⟩

/-- A scope begins with a statement that may declare names. `good` tells what is known of the slots of
the scope in their final form. -/
theorem Declaring.entered {ctx : Ctx strict} {owned : Bool} {first : Piece} {last : Frame}
    {kind : List Frame → List Site → Prop} (good : Level → Prop)
    (declaring : Declaring strict ctx.scope { owned } here first kind)
    (around : Around base out ctx.scope ctx.layers)
    (grown : ∀ level : Level, level.frame = first.frame →
      ∃ final : Level, final.frame = last ∧ level.Grows final ∧ good final) :
    ∃ level : Level, level.frame = last ∧ level.frame.owned = owned ∧ good level ∧
      ((owned = false → last.objects = 0 ∧ last.words = 0) →
        ∃ (slots : List Slot) (inner : Ctx strict), inner.scope = first.frame :: ctx.scope ∧
          inner.layers = stored slots (entering level ctx.layers) ∧
          first.frame.cost = level.frame.cost ∧
          Serves (inner.layers.drop first.frame.cost) ctx.layers ∧ Top inner.layers last ∧
          ∀ least < (entering level ctx.layers).length,
            ∃ sites, kind (last.opening (finals ctx.layers)) sites ∧
              Runs strict least out here first.lines sites (entering level ctx.layers)
                inner.layers) := by
  obtain ⟨slots, declares, firstRuns⟩ := declaring
  obtain ⟨early, sameEarly, earlyGrows⟩ := declares.level (.empty { owned } rfl rfl rfl) rfl
  obtain ⟨level, same, grows, isGood⟩ := grown early sameEarly
  refine ⟨level, same, grows.owned.trans earlyGrows.owned, isGood, fun bare => ?_⟩
  have covers : level.Covers first.frame := sameEarly ▸ grows.covers
  have cost : first.frame.cost = level.frame.cost := by simp [Frame.cost, covers.owned]
  have top : Top (entering level ctx.layers) last := by
    refine entering_top (same ▸ (Level.Grows.refl level).covers) fun notOwned => bare ?_
    have levelBare : level.frame.owned = false := same ▸ notOwned
    exact (grows.owned.trans earlyGrows.owned).symm.trans levelBare
  have firstTop : Top (entering level ctx.layers) first.frame := by
    refine entering_top covers fun notOwned => ?_
    obtain ⟨noObjects, noWords⟩ := top.bare (by rwa [← same, ← covers.owned])
    rw [← same] at noObjects noWords
    exact ⟨Nat.le_zero.mp (noObjects ▸ covers.objects), Nat.le_zero.mp (noWords ▸ covers.words)⟩
  obtain ⟨start, startScope, startLayers⟩ :=
    @exists_entered _ ctx { owned } _ rfl (declares.covers covers)
  have fits := start.fits
  rw [startScope, startLayers] at fits
  have serves := entering_serves level ctx.layers
  have startAround : Around base out start.scope start.layers := by
    rw [startScope, startLayers]
    refine around.enter rfl rfl ?_
    have ownedIs : owned = level.frame.owned := (declares.covers covers).owned
    rwa [show Frame.cost { owned } = level.frame.cost by simp [Frame.cost, ownedIs]]
  let inner : Ctx strict := ⟨first.frame :: ctx.scope, stored slots (entering level ctx.layers),
    fits.declared declares firstTop⟩
  have innerServes : Serves (inner.layers.drop first.frame.cost) ctx.layers := by
    rw [cost]
    exact ((serves_stored slots _).drop _).trans serves
  refine ⟨slots, inner, rfl, rfl, cost, innerServes, top.stored slots, fun least deep => ?_⟩
  have running := firstRuns start least out startScope (startAround.rebase (startLayers ▸ deep))
    (startLayers ▸ firstTop)
  rwa [startLayers, finals_entering, same] at running

theorem Declaring.opens {ctx : Ctx strict} {owned : Bool} {first piece : Piece} {more : List Line}
    {firstKind : List Frame → List Site → Prop} {kind : List Site → Prop} (good : Level → Prop)
    (declaring : Declaring strict ctx.scope { owned } here first firstKind)
    (around : Around base out ctx.scope ctx.layers)
    (grown : ∀ level : Level, level.frame = first.frame →
      ∃ final : Level, final.frame = piece.frame ∧ level.Grows final ∧ good final)
    (lines : piece.lines = first.lines ++ more)
    (runs : ∀ (level : Level) (slots : List Slot) (inner : Ctx strict),
      level.frame = piece.frame → good level → inner.scope = first.frame :: ctx.scope →
      inner.layers = stored slots (entering level ctx.layers) →
      finals inner.layers = piece.frame.opening (finals ctx.layers) →
      Serves (inner.layers.drop first.frame.cost) ctx.layers →
      Top inner.layers piece.frame →
      ∃ sites, (∀ opening, firstKind (piece.frame.opening (finals ctx.layers)) opening →
          kind (opening ++ sites)) ∧
        Runs strict base out (here + first.length) more sites inner.layers inner.layers) :
    Inside ctx base out owned here piece kind := by
  obtain ⟨level, same, owned, isGood, enters⟩ := declaring.entered good around grown
  refine ⟨level, same, owned, fun bare => ?_⟩
  obtain ⟨slots, inner, scope, layers, cost, serves, top, running⟩ := enters bare
  have deep : base < (entering level ctx.layers).length := by
    have length := (entering_serves level ctx.layers).length_eq
    rw [List.length_drop] at length
    have := around.deep
    omega
  obtain ⟨opening, isOpening, opens⟩ := running base deep
  obtain ⟨sites, join, follows⟩ := runs level slots inner same isGood scope layers
    (by rw [layers, finals_stored, finals_entering, same]) serves top
  refine ⟨opening ++ sites, join opening isOpening, ?_⟩
  rw [lines]
  exact opens.append (follows.finish (layers ▸ serves_stored slots _))

theorem Declaring.silent {outer : Scope} {frame grown : Frame}
    {kind : List Frame → List Site → Prop} (declares : Declares frame grown [])
    (empty : ∀ finals, kind finals []) : Declaring strict outer frame here (.none grown) kind := by
  refine ⟨[], declares, fun ctx base out _ _ _ => ⟨[], empty _, ?_⟩⟩
  rw [stored_nil]
  exact .nil (.refl _)

theorem Declaring.nothing (outer : Scope) (frame : Frame) {kind : List Frame → List Site → Prop}
    (empty : ∀ finals, kind finals []) : Declaring strict outer frame here (.none frame) kind :=
  .silent (.refl frame) empty

theorem Declaring.empty (outer : Scope) (frame : Frame) :
    Declaring strict outer frame here (.none frame) fun _ sites => sites = [] :=
  .nothing outer frame fun _ => rfl

theorem Declaring.inside {ctx : Ctx strict} {owned : Bool} {piece : Piece}
    {inner : List Frame → List Site → Prop} {kind : List Site → Prop}
    (declaring : Declaring strict ctx.scope { owned } here piece inner)
    (around : Around base out ctx.scope ctx.layers)
    (imp : ∀ sites, inner (piece.frame.opening (finals ctx.layers)) sites → kind sites) :
    Inside ctx base out owned here piece kind :=
  @Declaring.opens _ _ _ _ _ _ _ _ [] _ _ (fun _ => True) declaring around
    (fun level same => ⟨level, same, .refl level, trivial⟩) (by simp)
    (fun _ _ _ _ _ _ _ _ _ _ =>
      ⟨[], fun opening isOpening => by simpa using imp opening isOpening, .nil (.refl _)⟩)

def Contained (strict : Prop) (outer : Scope) (frame : Frame) (here : Nat) (piece : Piece)
    (kind : List Frame → List Site → Prop) : Prop :=
  piece.frame = frame ∧ ∀ (ctx : Ctx strict) base out, ctx.scope = frame :: outer →
    Around base out ctx.scope ctx.layers →
    ∃ sites, kind (finals ctx.layers) sites ∧
      Runs strict base out here piece.lines sites ctx.layers ctx.layers

theorem Contained.declaring {outer : Scope} {frame : Frame} {piece : Piece}
    {kind : List Frame → List Site → Prop}
    (contained : Contained strict outer frame here piece kind) :
    Declaring strict outer frame here piece kind := by
  refine ⟨[], contained.1 ▸ .refl frame, fun ctx base out scope around _ => ?_⟩
  rw [stored_nil]
  exact contained.2 ctx base out scope around

theorem Declaring.imp {outer : Scope} {frame : Frame} {piece : Piece}
    {kind wider : List Frame → List Site → Prop}
    (declaring : Declaring strict outer frame here piece kind)
    (implies : ∀ finals sites, kind finals sites → wider finals sites) :
    Declaring strict outer frame here piece wider := by
  obtain ⟨slots, declares, runs⟩ := declaring
  refine ⟨slots, declares, fun ctx base out scope around top => ?_⟩
  obtain ⟨sites, isKind, runs⟩ := runs ctx base out scope around top
  exact ⟨sites, implies _ _ isKind, runs⟩

/-- The lines of a piece that are all compiled where it begins. -/
def Flat (outer : Scope) (frame : Frame) (piece : Piece) (finals : List Frame)
    (sites : List Site) : Prop :=
  sites = .replicate piece.lines.length ⟨frame :: outer, finals⟩

theorem Declaring.flat {outer : Scope} {frame : Frame} {piece : Piece} {slots : List Slot}
    (declares : Declares frame piece.frame slots)
    (runs : ∀ (ctx : Ctx strict) base out, ctx.scope = frame :: outer →
      Around base out ctx.scope ctx.layers → Top ctx.layers piece.frame →
      Runs strict base out here piece.lines (.replicate piece.lines.length ctx.site) ctx.layers
        (stored slots ctx.layers)) :
    Declaring strict outer frame here piece (Flat outer frame piece) :=
  ⟨slots, declares, fun ctx base out scope around top =>
    ⟨_, by rw [Flat, Ctx.site, scope], runs ctx base out scope around top⟩⟩

theorem Contained.flat {outer : Scope} {frame : Frame} {piece : Piece} (same : piece.frame = frame)
    (runs : ∀ (ctx : Ctx strict) base out, ctx.scope = frame :: outer →
      Around base out ctx.scope ctx.layers →
      Runs strict base out here piece.lines (.replicate piece.lines.length ctx.site) ctx.layers
        ctx.layers) :
    Contained strict outer frame here piece (Flat outer frame piece) :=
  ⟨same, fun ctx base out scope around =>
    ⟨_, by rw [Flat, Ctx.site, scope], runs ctx base out scope around⟩⟩

theorem Declaring.flat_nothing (outer : Scope) (frame : Frame) :
    Declaring strict outer frame here (.none frame) (Flat outer frame (.none frame)) :=
  .nothing outer frame fun _ => rfl

theorem Declaring.append {outer : Scope} {frame : Frame} {first others : Piece}
    {firstKind otherKind kind : List Frame → List Site → Prop}
    (left : Declaring strict outer frame here first firstKind)
    (right : Declaring strict outer first.frame (here + first.length) others otherKind)
    (join : ∀ finals sites more, firstKind finals sites → otherKind finals more →
      kind finals (sites ++ more)) :
    Declaring strict outer frame here
      ((first.toFragment ++ others.toFragment).within others.frame) kind := by
  obtain ⟨slots, declares, runs⟩ := left
  obtain ⟨slots', declares', runs'⟩ := right
  refine ⟨slots' ++ slots, declares.trans declares', fun ctx base out scope around top => ?_⟩
  have firstTop : Top ctx.layers first.frame := top.before declares'
  have fits := ctx.fits
  rw [scope] at fits around
  let mid : Ctx strict := ⟨first.frame :: outer, stored slots ctx.layers,
    fits.declared declares firstTop⟩
  obtain ⟨more, isOther, second⟩ := runs' mid base out rfl
    (around.grow declares (serves_stored slots ctx.layers)) (top.stored slots)
  rw [show mid.layers = stored slots ctx.layers from rfl, finals_stored] at isOther
  rw [show mid.layers = stored slots ctx.layers from rfl, stored_stored] at second
  obtain ⟨sites, isFirst, begins⟩ := runs ctx base out scope (scope ▸ around) firstTop
  exact ⟨_, join _ _ _ isFirst isOther, begins.append second⟩

def Ctx.reframe (ctx : Ctx strict) {frame : Frame} {outer : Scope}
    (scope : ctx.scope = frame :: outer) (after : Frame) (owned : after.owned = frame.owned)
    (symbols : after.symbols = frame.symbols) (objects : after.objects = frame.objects)
    (words : after.words = frame.words) : Ctx strict where
  scope := after :: outer
  layers := ctx.layers
  fits := by
    have fits := ctx.fits
    rw [scope] at fits
    generalize ctx.layers = layers at fits
    cases fits with
    | owned isOwned covers ready rest =>
      refine .owned (owned.trans isOwned) ⟨owned.trans covers.owned, symbols ▸ covers.symbols,
        objects ▸ covers.objects, words ▸ covers.words⟩ (by simpa [symbols] using ready) rest
    | bare bare none sound rest =>
      exact .bare (owned.trans bare) (by simpa [symbols] using none)
        (by simpa [symbols] using sound) rest

theorem adopting_inside {ctx : Ctx strict} {owned : Bool} {grown : Frame} {slots : List Slot}
    {copy : List Line} {body piece : Piece} {bodyKind : List Frame → List Site → Prop}
    {kind : List Site → Prop} (pairs : List (Slot × Slot)) (span : Span)
    (around : Around base out ctx.scope ctx.layers) (declares : Declares { owned } grown slots)
    (copies : (copy = [] ∧ slots = []) ∨
      (owned = true ∧ copy = [⟨.adopt pairs, span⟩] ∧ slots ⊆ pairs.map (·.2)))
    (sources : ∀ pair ∈ pairs, pair.2 ∈ slots ∧ ∃ layer, ctx.layers[0]? = some layer ∧
      ((layer.level.Has pair.1 ∧ pair.1.slotClass = .word ∧
          pair.1.type.assignableTo pair.2.type = true) ∨
        (layer.level.Parks pair.1 ∧
          ∃ known, (pair.1, known) ∈ layer.parked ∧ known.assignableTo pair.2.type = true)))
    (declaring : Declaring strict ctx.scope grown (here + copy.length) body bodyKind)
    (frame : piece.frame = body.frame) (lines : piece.lines = copy ++ body.lines)
    (join : ∀ sites, bodyKind (piece.frame.opening (finals ctx.layers)) sites →
      kind (.replicate copy.length
        ⟨{ owned } :: ctx.scope, piece.frame.opening (finals ctx.layers)⟩ ++ sites)) :
    Inside ctx base out owned here piece kind := by
  obtain ⟨others, bodyDeclares, bodyRuns⟩ := declaring
  have whole := declares.trans bodyDeclares
  refine (Declaring.empty ctx.scope { owned }).opens (fun _ => True) around (fun level same => ?_)
    lines ?_
  · obtain ⟨final, finalFrame, grows⟩ := whole.level level same
    exact ⟨final, finalFrame.trans frame.symm, grows, trivial⟩
  · intro level known inner same _ innerScope innerLayers innerFinals serves top
    rw [frame] at top
    have midTop : Top inner.layers grown := top.before bodyDeclares
    have fits := inner.fits
    rw [innerScope] at fits
    let mid : Ctx strict := ⟨grown :: ctx.scope, stored slots inner.layers,
      fits.declared declares midTop⟩
    have cost : grown.cost = Frame.cost { owned } := by simp [Frame.cost, declares.owned]
    have midAround : Around base out mid.scope mid.layers :=
      around.enter declares.loop declares.func
        (((serves_stored slots inner.layers).drop _).trans (cost ▸ serves))
    have copyRuns : Runs strict base out here copy (.replicate copy.length inner.site) inner.layers
        mid.layers := by
      rcases copies with ⟨rfl, rfl⟩ | ⟨rfl, rfl, subset⟩
      · exact .nil (by simpa [mid, stored_nil] using Serves.refl inner.layers)
      · obtain ⟨layer, found, covers⟩ := midTop.owned declares.owned
        cases innerIs : inner.layers with
        | nil => simp [innerIs] at found
        | cons first rest =>
          obtain rfl : first = layer := by simpa [innerIs] using found
          have served : Serves rest ctx.layers := by simpa [innerIs, Frame.cost] using serves
          have deep := around.deep
          generalize ctx.layers = targets at served deep sources
          cases served with
          | nil => simp at deep
          | @cons second target rest targets serves served =>
            refine innerIs ▸ .one inner (.adopt innerIs ?_
              ⟨rfl, stored_serves inner.layers subset⟩)
            intro pair member
            obtain ⟨inside, layer, isLayer, source⟩ := sources pair member
            obtain ⟨name, isNamed⟩ := declares.named pair.2 inside
            refine ⟨covers.shared isNamed, ?_⟩
            obtain rfl : target = layer := by simpa using isLayer
            rcases source with ⟨has, word, assignable⟩ | ⟨parks, kept, isKept, assignable⟩
            · exact .inl ⟨serves.level ▸ has, word, assignable⟩
            · exact .inr ⟨serves.level ▸ parks, kept, serves.parked isKept, assignable⟩
    obtain ⟨sites, isBody, bodyRun⟩ := bodyRuns mid base out rfl midAround (top.stored slots)
    rw [show mid.layers = stored slots inner.layers from rfl, finals_stored, innerFinals] at isBody
    have ended := bodyRun.finish
      ((serves_stored others mid.layers).trans (serves_stored slots inner.layers))
    refine ⟨_, ?_, copyRuns.append ended⟩
    rintro _ rfl
    rw [Ctx.site, innerScope, innerFinals]
    exact join sites isBody

theorem exitStmt_runs {ctx : Ctx strict} {kind : ExitKind} {label : Option Ident} {span : Span}
    {fragment : Fragment} (around : Around base out ctx.scope ctx.layers)
    (compiled : exitStmt ctx.scope kind label span = .ok fragment) :
    Runs strict base out here fragment.lines (.replicate fragment.lines.length ctx.site) ctx.layers
      ctx.layers := by
  unfold exitStmt at compiled
  dsimp only at compiled
  split at compiled <;> simp at compiled
  rename_i hops level found
  subst compiled
  obtain ⟨-, exit⟩ := around.exits kind _ hops level found
  exact .one ctx (.exit (exit _ (.refl _)))

theorem branchStmt_runs {ctx : Ctx strict} {kind : BranchKind} {label : Option Ident} {span : Span}
    {fragment : Fragment} (around : Around base out ctx.scope ctx.layers)
    (compiled : branchStmt ctx.scope kind label span = .ok fragment) :
    Runs strict base out here fragment.lines (.replicate fragment.lines.length ctx.site) ctx.layers
      ctx.layers := by
  cases kind with
  | «break» => exact exitStmt_runs around compiled
  | «continue» => exact exitStmt_runs around compiled
  | «fallthrough» => simp [branchStmt] at compiled
  | goto => simp [branchStmt] at compiled

end MiniGo
