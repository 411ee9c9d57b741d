import MiniGo.Proofs.Positions
/-!
Where variables are found. The environments from the one of an instruction outward are those of the
frames that the instruction was compiled in, so that a number of hops and a slot lead to the variable
that the compiler has looked up.
-/

namespace MiniGo

/-- The innermost declaration of a name: no frame further in has one. Of the frames further in, each
that owns an environment counts as a hop. -/
def Scope.Innermost (scope : Scope) (name : String) (hops : Nat) (symbol : Symbol) : Prop :=
  ∃ inner frame outer, scope = inner ++ frame :: outer ∧
    (∀ other ∈ inner, ∀ found, (name, found) ∉ other.symbols) ∧
    frame.symbols.lookup name = some symbol ∧ hops = inner.countP (·.owned)

/-- What a frame has become when everything in it has been declared. -/
structure Frame.Becomes (frame last : Frame) : Prop where
  owned : frame.owned = last.owned
  symbols : frame.symbols <:+ last.symbols
  objects : frame.objects ≤ last.objects
  words : frame.words ≤ last.words

namespace Site

/-- Where the operands of an instruction are evaluated. Those of a `go` have an environment of their
own. -/
def operands (site : Site) : Instr → Site
  | .go _ => ⟨{ owned := true } :: site.scope, { owned := true } :: site.finals⟩
  | _ => site

/-- A variable is the innermost one of its name, and a function is compiled in the frames that it is
mentioned in. -/
def Mentions (site : Site) : Leaf Template → Prop
  | .load hops slot => ∃ name, site.scope.Innermost name hops (.var slot)
  | .function template => ∃ head span body sites,
      Compile.function site.scope head span body = .ok template ∧
        Compile.FunctionSites site.scope site.finals head span body sites

/-- A place is the innermost variable of its name, or one that is only declared by the instruction. -/
def Targets (site : Site) (hops : Nat) (slot : Slot) : Prop :=
  (∃ name, site.scope.Innermost name hops (.var slot)) ∨
    (hops = 0 ∧ ∃ last name, site.finals[0]? = some last ∧ (name, .var slot) ∈ last.symbols)

end Site

def PlaceOf.slots {τ : Type} : PlaceOf τ → List (Nat × Slot)
  | .slot hops named => [(hops, named)]
  | _ => []

def RangeSlots.all (state : RangeSlots) : List (Nat × Slot) :=
  [(0, state.subject), (0, state.keys), (0, state.index), (0, state.limit), (0, state.step)]

namespace InstrOf

variable {τ : Type}

def places : InstrOf τ → List (PlaceOf τ)
  | .assign places _ => places
  | .update _ place _ => [place]
  | .unpark _ value flag => value :: flag.toList
  | .rangeNext _ _ key value _ => key.toList ++ value.toList
  | _ => []

/-- The slots that an instruction loads or stores besides those of its operands and places. -/
def slots : InstrOf τ → List (Nat × Slot)
  | .ret hops results _ => results.map (hops, ·)
  | .init slots _ => (slots.filterMap id).map (0, ·)
  | .bind slot _ => [(0, slot)]
  | .typeSwitch _ _ _ parked => parked.toList.map (0, ·)
  | .select _ _ parked => parked.toList.flatMap fun parked => [(0, parked.1), (0, parked.2)]
  | .adopt pairs => pairs.flatMap fun pair => [(1, pair.1), (0, pair.2)]
  | .unpark parked _ _ => [(0, parked.1), (0, parked.2)]
  | .rangeStart _ _ state _ | .rangeNext _ state _ _ _ | .rangeStep state => state.all
  | _ => []

end InstrOf

variable {strict : Prop}

section Lookup

variable {scope : Scope} {name : String} {hops : Nat}

theorem Scope.declared_iff_innermost {symbol : Symbol} :
    scope.declared? name = some (hops, symbol) ↔ scope.Innermost name hops symbol := by
  induction scope generalizing hops with
  | nil => simp [Scope.declared?, Scope.Innermost]
  | cons frame scope ih =>
    cases isSymbol : frame.symbol? name with
    | some found =>
      simp only [Scope.declared?, isSymbol, Option.some.injEq, Prod.mk.injEq]
      constructor
      · rintro ⟨rfl, rfl⟩
        exact ⟨[], frame, scope, rfl, by simp, isSymbol, rfl⟩
      · rintro ⟨inner, other, outer, same, fresh, isFound, rfl⟩
        cases inner with
        | nil =>
          obtain ⟨rfl, rfl⟩ := List.cons.inj same
          exact ⟨rfl, Option.some.inj (isSymbol.symm.trans isFound)⟩
        | cons first inner =>
          obtain ⟨rfl, rfl⟩ := List.cons.inj same
          exact absurd (Frame.symbol_mem isSymbol) (fresh frame (by simp) found)
    | none =>
      simp only [Scope.declared?, isSymbol, Option.map_eq_some_iff, Prod.exists, Prod.mk.injEq]
      have fresh : ∀ found, (name, found) ∉ frame.symbols :=
        fun found member => by simpa using List.lookup_eq_none_iff.mp isSymbol _ member
      constructor
      · rintro ⟨more, symbol, declared, rfl, rfl⟩
        obtain ⟨inner, other, outer, rfl, freshInner, isFound, rfl⟩ := ih.mp declared
        exact ⟨frame :: inner, other, outer, rfl, List.forall_mem_cons.mpr ⟨fresh, freshInner⟩,
          isFound, by simp [List.countP_cons, Frame.cost, Nat.add_comm]⟩
      · rintro ⟨inner, other, outer, same, freshInner, isFound, rfl⟩
        cases inner with
        | nil =>
          obtain ⟨rfl, rfl⟩ := List.cons.inj same
          exact absurd (isSymbol.symm.trans isFound) (by simp)
        | cons first inner =>
          obtain ⟨rfl, rfl⟩ := List.cons.inj same
          exact ⟨_, _, ih.mpr ⟨inner, other, outer, rfl,
            (List.forall_mem_cons.mp freshInner).2, isFound, rfl⟩,
            by simp [List.countP_cons, Frame.cost, Nat.add_comm], rfl⟩

theorem Scope.lookup_var_iff {slot : Slot} :
    scope.lookup name = some (hops, .var slot) ↔ scope.Innermost name hops (.var slot) := by
  rw [← Scope.declared_iff_innermost, Scope.lookup, Option.or_eq_some_iff]
  constructor
  · rintro (declared | ⟨-, predeclared⟩)
    · exact declared
    · obtain ⟨symbol, isSymbol, same⟩ := Option.map_eq_some_iff.mp predeclared
      cases same
      exact absurd rfl ((universe_sound isSymbol).2 slot)
  · exact .inl

end Lookup

theorem Fits.becomes {scope : Scope} {layers : List Layer} (fits : Fits strict scope layers) :
    List.Forall₂ Frame.Becomes (scope.filter (·.owned)) (finals layers) := by
  induction fits with
  | nil => exact .nil
  | owned owned covers _ _ ih =>
    rw [List.filter_cons_of_pos owned]
    exact .cons ⟨covers.owned, covers.symbols, covers.objects, covers.words⟩ ih
  | bare bare _ _ _ ih =>
    rw [List.filter_cons_of_neg (by simp [bare])]
    exact ih

section Slots

variable {ctx : Ctx strict}

def Ctx.Holds (ctx : Ctx strict) (hops : Nat) (slot : Slot) : Prop :=
  ∃ layer, ctx.layers[hops]? = some layer ∧ layer.level.Has slot

theorem Ctx.holds_of_lookup {name : String} {hops : Nat} {slot : Slot}
    (found : ctx.scope.lookup name = some (hops, .var slot)) : ctx.Holds hops slot := by
  obtain ⟨layer, isLayer, shared, -⟩ := ctx.fits.lookup_var found
  exact ⟨layer, isLayer, shared.1⟩

theorem PlaceTyped.holds {place : Place} {target : Option Ty}
    (typed : PlaceTyped strict ctx place target) :
    ∀ entry ∈ place.slots, ctx.Holds entry.1 entry.2 ∧ ctx.site.Targets entry.1 entry.2 := by
  cases typed with
  | known found =>
    simp only [PlaceOf.slots, List.mem_singleton, forall_eq]
    exact ⟨Ctx.holds_of_lookup found, .inl ⟨_, Scope.lookup_var_iff.mp found⟩⟩
  | item | entry | blank => simp [PlaceOf.slots]

theorem PlacesTyped.holds {places : List Place} {targets : List (Option Ty)}
    (typed : PlacesTyped strict ctx places targets) :
    ∀ entry ∈ places.flatMap PlaceOf.slots,
      ctx.Holds entry.1 entry.2 ∧ ctx.site.Targets entry.1 entry.2 := by
  induction places generalizing targets with
  | nil => simp
  | cons place places ih =>
    rw [List.flatMap_cons]
    cases typed with
    | cons first rest => exact List.forall_mem_append.mpr ⟨first.holds, ih rest⟩
    | fresh found named rest =>
      refine List.forall_mem_append.mpr ⟨?_, ih rest⟩
      simp only [PlaceOf.slots, List.mem_singleton, forall_eq]
      exact ⟨⟨_, found, (Level.named _ _ _ named).1⟩,
        .inr ⟨rfl, _, _, by simp [Ctx.site, finals, found], named⟩⟩

theorem RangeSlots.In.holds {state : RangeSlots} {layer : Layer} {subject key : Ty}
    (inside : state.In layer.level subject key) (found : ctx.layers[0]? = some layer) :
    ∀ entry ∈ state.all, ctx.Holds entry.1 entry.2 := by
  simp only [RangeSlots.all, List.forall_mem_cons]
  exact ⟨⟨layer, found, inside.subject.1⟩, ⟨layer, found, inside.keys.1⟩,
    ⟨layer, found, inside.index.1⟩, ⟨layer, found, inside.limit.1⟩, ⟨layer, found, inside.step.1⟩,
    by simp⟩

variable {base here : Nat} {lands : Nat → List Layer → Prop} {out : Nat → ExitKind → List Layer → Prop}
  {instr : Instr}

theorem InstrTyped.places (typed : InstrTyped strict base lands out here ctx instr) :
    ∀ entry ∈ instr.places.flatMap PlaceOf.slots,
      ctx.Holds entry.1 entry.2 ∧ ctx.site.Targets entry.1 entry.2 := by
  cases typed with
  | assign places => exact places.holds
  | update place => simpa [InstrOf.places] using place.holds
  | unpark _ _ _ _ place _ flags =>
    rw [InstrOf.places, List.flatMap_cons]
    exact List.forall_mem_append.mpr ⟨place.holds, flags.holds⟩
  | rangeNext _ _ _ _ key _ value =>
    rw [InstrOf.places, List.flatMap_append]
    exact List.forall_mem_append.mpr ⟨key.holds, value.holds⟩
  | _ => simp [InstrOf.places]

theorem InstrTyped.slots (typed : InstrTyped strict base lands out here ctx instr) :
    ∀ entry ∈ instr.slots, ctx.Holds entry.1 entry.2 := by
  cases typed with
  | ret found inside =>
    simp only [InstrOf.slots, List.forall_mem_map]
    exact fun slot member => ⟨_, found, (inside slot member).1⟩
  | init found inside =>
    simp only [InstrOf.slots, List.forall_mem_map]
    exact fun slot member => ⟨_, found, (inside slot (by simpa using member)).1⟩
  | bind found inside =>
    simp only [InstrOf.slots, List.mem_singleton, forall_eq]
    exact ⟨_, found, inside.1⟩
  | typeSwitchParked _ found parks =>
    simp only [InstrOf.slots, Option.toList_some, List.map_cons, List.map_nil, List.mem_singleton,
      forall_eq]
    exact ⟨_, found, parks.1⟩
  | selectParked _ found parks flag =>
    simp only [InstrOf.slots, Option.toList_some, List.flatMap_singleton, List.forall_mem_cons]
    exact ⟨⟨_, found, parks.1⟩, ⟨_, found, flag.1⟩, by simp⟩
  | @adopt _ _ _ _ _ inner outer layers pairs same inside =>
    intro entry member
    obtain ⟨pair, isPair, isEntry⟩ := List.mem_flatMap.mp member
    obtain ⟨shared, first⟩ := inside pair isPair
    have has : outer.level.Has pair.1 := first.elim (·.1) (·.1.1)
    simp only [List.mem_cons, List.not_mem_nil, or_false] at isEntry
    rcases isEntry with rfl | rfl
    · exact ⟨outer, by simp [same], has⟩
    · exact ⟨inner, by simp [same], shared.1⟩
  | unpark found parks _ flag =>
    simp only [InstrOf.slots, List.forall_mem_cons]
    exact ⟨⟨_, found, parks.1⟩, ⟨_, found, flag.1⟩, by simp⟩
  | rangeStart found _ inside | rangeNext found _ inside | rangeStep found inside =>
    exact inside.holds found
  | _ => simp [InstrOf.slots]

theorem Ctx.operands_site (ctx : Ctx strict) (instr : Instr) :
    (ctx.operands instr).site = ctx.site.operands instr := by
  cases instr <;> rfl

theorem InstrTyped.mentions (typed : InstrTyped strict base lands out here ctx instr) :
    ∀ leaf ∈ instr.leaves, (ctx.site.operands instr).Mentions leaf := by
  intro leaf member
  have isTyped := typed.leaves leaf member
  rw [← Ctx.operands_site]
  cases leaf with
  | load hops slot =>
    obtain ⟨name, found⟩ := isTyped
    exact ⟨name, Scope.lookup_var_iff.mp found⟩
  | function template =>
    obtain ⟨compiled, laid, -⟩ := (isTyped : TemplateTyped strict _ template)
    simp only [Ctx.lasting, finals_lasting] at laid
    exact ⟨_, _, _, _, compiled, laid⟩

end Slots

namespace World

/-- The environments from one outward, all of them, each with as many slots as its frame has taken. -/
inductive Chain (world : World) : Option EnvRef → List Frame → Prop
  | nil : Chain world none []
  | cons {ref : EnvRef} {env : Env} {last : Frame} {finals : List Frame} :
    world.env? ref = some env → env.slots.objects.size = last.objects →
    env.slots.words.size = last.words → Chain world env.outer finals →
    Chain world (some ref) (last :: finals)

def outward? (world : World) (ref : EnvRef) : Nat → Option EnvRef
  | 0 => some ref
  | hops + 1 => (world.outer? ref).bind (world.outward? · hops)

/-- The way outward does not end early, and the environment it leads to has the slot. -/
def HasSlot (world : World) (ref : EnvRef) (hops : Nat) (slot : Slot) : Prop :=
  world.outward? ref hops = some (world.up ref hops) ∧
    ∃ env, world.env? (world.up ref hops) = some env ∧
      match slot.slotClass with
      | .object => slot.index < env.slots.objects.size
      | .word => slot.index < env.slots.words.size

/-- The environment that the operands of an instruction are evaluated in. For a `go` it is a new one,
without slots, inside of that of the instruction. -/
def OperandsIn (world : World) {τ : Type} (instr : InstrOf τ) (env inner : EnvRef) : Prop :=
  match instr with
  | .go _ => ∃ fresh, world.env? inner = some fresh ∧ fresh.outer = some env ∧
      fresh.slots.objects.size = 0 ∧ fresh.slots.words.size = 0
  | _ => inner = env

theorem Chain.operands {world : World} {site : Site} {instr : Instr} {env inner : EnvRef}
    (chain : world.Chain (some env) site.finals) (inside : world.OperandsIn instr env inner) :
    world.Chain (some inner) (site.operands instr).finals := by
  unfold OperandsIn at inside
  split at inside
  · obtain ⟨fresh, present, outer, objects, words⟩ := inside
    exact .cons present objects words (outer ▸ chain)
  · next notGo =>
    obtain rfl := inside
    cases instr <;> first | exact chain | exact absurd rfl (notGo _)

theorem Chain.hasSlot {world : World} {ref : EnvRef} {finals : List Frame} {hops : Nat}
    {level : Level} {slot : Slot} (chain : world.Chain (some ref) finals)
    (found : finals[hops]? = some level.frame) (has : level.Has slot) :
    world.HasSlot ref hops slot := by
  induction hops generalizing ref finals with
  | zero =>
    cases chain with
    | @cons _ env last _ present objects words _ =>
      obtain rfl : last = level.frame := by simpa using found
      refine ⟨rfl, env, present, ?_⟩
      cases isClass : slot.slotClass with
      | object => exact objects ▸ has.object_lt isClass
      | word => exact words ▸ has.word_lt isClass
  | succ hops ih =>
    cases chain with
    | @cons _ env _ finals present _ _ rest =>
      have found : finals[hops]? = some level.frame := by simpa using found
      cases isOuter : env.outer with
      | none =>
        rw [isOuter] at rest
        cases rest
        simp at found
      | some outer =>
        rw [isOuter] at rest
        have same : world.outer? ref = some outer := by simp [World.outer?, present, isOuter]
        simpa only [HasSlot, outward?, World.up, same, Option.bind_some] using ih rest found

theorem Chain.length_eq {world : World} {ref last : EnvRef} {finals : List Frame} {hops : Nat}
    (chain : world.Chain (some ref) finals) (way : world.outward? ref hops = some last)
    (outermost : world.outer? last = none) : finals.length = hops + 1 := by
  induction hops generalizing ref finals with
  | zero =>
    obtain rfl : ref = last := Option.some.inj way
    cases chain with
    | cons present _ _ rest =>
      rw [World.outer?, present, Option.bind_some] at outermost
      rw [outermost] at rest
      cases rest
      rfl
  | succ hops ih =>
    obtain ⟨outer, isOuter, further⟩ := Option.bind_eq_some_iff.mp way
    cases chain with
    | cons present _ _ rest =>
      rw [World.outer?, present, Option.bind_some] at isOuter
      rw [isOuter] at rest
      simpa using ih rest further

end World

theorem World.Chain.holds {world : World} {ctx : Ctx strict} {ref : EnvRef} {hops : Nat} {slot : Slot}
    (chain : world.Chain (some ref) ctx.site.finals) (holds : ctx.Holds hops slot) :
    world.HasSlot ref hops slot := by
  obtain ⟨layer, isLayer, has⟩ := holds
  exact chain.hasSlot (by simp [Ctx.site, finals, isLayer]) has

section Chains

variable [Natives]

theorem Spans.chain {now : Config strict} {ref : Option EnvRef} {layers : List Layer}
    (spans : Spans now.shape ref layers) : now.world.Chain ref (finals layers) := by
  induction spans with
  | nil => exact .nil
  | @cons _ known layer _ found level _ _ ih =>
    obtain ⟨-, env, present, sound⟩ := now.sound.envs _ _ found
    have same : layer.level.frame = known.level.frame := congrArg _ level.symm
    exact .cons present (sound.objects.trans (congrArg _ same.symm))
      (sound.words.trans (congrArg _ same.symm)) (sound.outer ▸ ih)

end Chains

/-- Wherever running code is about to run an instruction, the program of the environment has been
compiled, and its line at the instruction was compiled in some frames. The environments from the
innermost one outward are those of these frames, one to one, each with the slots of its frame in its
final form. What the instruction loads, and what it stores to by name, are the innermost declarations
of their names in these frames. As long as the state only grows, which is all that running code does to
it, what the compiler looks up there is where it says, and so are all slots that the instruction reads
and writes. -/
theorem variables_found [Natives] {env : EnvRef} {instr : Instr} {world : World}
    (reached : Interpreter.Reached env (some instr) world) :
    ∃ (now : Config False) (found : Env) (sites : List Site) (site : Site),
      now.world = world ∧ world.env? env = some found ∧
      found.program.instr? found.ip = some instr ∧ Compile.Lays found.program sites ∧
      sites[found.ip]? = some site ∧
      List.Forall₂ Frame.Becomes (site.scope.filter (·.owned)) site.finals ∧
      (∀ leaf ∈ instr.leaves, (site.operands instr).Mentions leaf) ∧
      (∀ entry ∈ instr.places.flatMap PlaceOf.slots, site.Targets entry.1 entry.2) ∧
      ∀ later : Config False, now.shape.Grows later.shape →
        later.world.Chain (some env) site.finals ∧
        (∀ entry ∈ instr.places.flatMap PlaceOf.slots ++ instr.slots,
          later.world.HasSlot env entry.1 entry.2) ∧
        ∀ inner, later.world.OperandsIn instr env inner →
          later.world.Chain (some inner) (site.operands instr).finals ∧
          ∀ name hops slot, (site.operands instr).scope.lookup name = some (hops, .var slot) →
            (site.operands instr).scope.Innermost name hops (.var slot) ∧
            later.world.HasSlot inner hops slot := by
  obtain ⟨now, rfl, activation, blocks, layers, within, place⟩ := reached.at
  rcases place with ⟨none, -⟩ | ⟨-, isNext, lands⟩
  · simp at none
  obtain ⟨known, isKnown, program, -⟩ := within.known
  obtain ⟨-, found, present, sound⟩ := now.sound.envs env known isKnown
  have sameProgram : found.program = activation.program := sound.program.trans program
  have ip : now.world.ip env = found.ip := by simp [World.ip, present]
  rw [within.instr?] at isNext
  obtain ⟨ctx, isHere, serves, typed⟩ := activation.instr_typed lands isNext.symm
  rw [ip] at isNext isHere
  refine ⟨now, found, _, ctx.site, rfl, present, sameProgram ▸ isNext.symm,
    sameProgram ▸ activation.laid, by rw [List.getElem?_map, isHere]; rfl, ctx.fits.becomes,
    typed.mentions, fun entry member => (typed.places entry member).2, fun later grows => ?_⟩
  have chain : later.world.Chain (some env) ctx.site.finals :=
    ((within.spans.serves serves).grows grows).chain
  refine ⟨chain, List.forall_mem_append.mpr
    ⟨fun entry member => chain.holds (typed.places entry member).1,
      fun entry member => chain.holds (typed.slots entry member)⟩, fun inner inside => ?_⟩
  have chain := chain.operands inside
  refine ⟨chain, fun name hops slot isFound => ⟨Scope.lookup_var_iff.mp isFound, ?_⟩⟩
  rw [← Ctx.operands_site] at chain isFound
  exact chain.holds (Ctx.holds_of_lookup isFound)

theorem variables_found_looped_task :
    ∃ (_ : Natives) (env : EnvRef) (call : Call) (world : World) (found : Env) (sites : List Site)
      (site : Site), Interpreter.Reached env (some (.go call)) world ∧ world.env? env = some found ∧
        Compile.Lays found.program sites ∧ sites[found.ip]? = some site ∧
        world.Chain (some env) site.finals ∧ site.finals.length = 3 := by
  let natives : Natives := ⟨fun _ => none⟩
  obtain ⟨env, call, world, middle, last, reached, first, second, outermost⟩ := loopedTask_reached
  obtain ⟨now, found, sites, site, rfl, present, -, laid, isSite, -, -, -, later⟩ :=
    variables_found reached
  obtain ⟨chain, -⟩ := later now (.refl _)
  have way : now.world.outward? env 2 = some last := by simp [World.outward?, first, second]
  exact ⟨natives, env, call, now.world, found, sites, site, reached, present, laid, isSite, chain,
    chain.length_eq way outermost⟩

end MiniGo
