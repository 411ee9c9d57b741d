import MiniGo.Proofs.Sessions
/-!
Type soundness. Expressions give values of their types and calls give results of theirs, from any
state in which everything has the type it is kept under; a failure on the way is never one that types
are there to rule out. What is asked of the state is that the string variables of the file hold
strings: an environment starts with nil in their slots, which is not a string.
-/

namespace MiniGo

def InstrOf.function? : Instr → Option Template
  | .bind _ template | .callInit template => some template
  | _ => none

namespace CompiledFile

def functions (file : CompiledFile) : List Template :=
  file.program.lines.toList.filterMap (·.instr.function?)

def strings (file : CompiledFile) : List Slot :=
  (file.symbols.map (·.2)).filter (·.type == .string)

end CompiledFile

namespace Compile

variable {strict : Prop}

theorem varSpecs_functions {outer : Scope} {frame : Frame} {here : Nat} {specs : List ValueSpec}
    {piece : Piece} (compiled : varSpecs outer frame here specs = .ok piece) :
    ∀ line ∈ piece.lines, line.instr.function? = none := by
  induction specs generalizing frame here piece with
  | nil =>
    simp only [varSpecs, Compiled.pure_eq_ok] at compiled
    simp [← compiled]
  | cons spec specs ih =>
    obtain ⟨names, written, values, span⟩ := spec
    simp only [varSpecs, declareInit, Compiled.bind_eq_ok, Prod.exists, Compiled.pure_eq_ok]
      at compiled
    obtain ⟨-, -, -, -, types, values, -, first, ⟨slots, declared, -, rfl⟩, others, rest, rfl⟩ :=
      compiled
    intro line member
    simp only [Fragment.within_lines, Fragment.append_lines, List.mem_append] at member
    rcases member with isFirst | isOther
    · obtain rfl := List.mem_singleton.mp isFirst
      rfl
    · exact ih rest line isOther

theorem fileVars_functions {source : SourceFile} {frame : Frame} {piece : Piece}
    (compiled : fileVars frame source = .ok piece) :
    ∀ line ∈ piece.lines, line.instr.function? = none := by
  induction source generalizing frame piece with
  | nil =>
    simp only [fileVars, Compiled.pure_eq_ok] at compiled
    simp [← compiled]
  | cons declaration source ih =>
    cases declaration with
    | var specs _ =>
      simp only [fileVars, Compiled.bind_eq_ok, Compiled.pure_eq_ok] at compiled
      obtain ⟨first, compiledFirst, others, compiledOthers, rfl⟩ := compiled
      intro line member
      simp only [Fragment.within_lines, Fragment.append_lines, List.mem_append] at member
      rcases member with isFirst | isOther
      · exact varSpecs_functions compiledFirst line isFirst
      · exact ih compiledOthers line isOther
    | const | type | func => exact ih (by simpa only [fileVars] using compiled)

theorem fileFuncs_functions {ctx : Ctx strict} {instr : Option Slot → Template → Option Instr}
    {funcs : List FileFunc} {fragment : Fragment}
    (same : ∀ slot template found, instr slot template = some found →
      found.function? = some template)
    (proper : ∀ func ∈ funcs, ProperIf strict (func.head :: func.body.heads))
    (compiled : fileFuncs ctx.scope instr funcs = .ok fragment) :
    ∀ line ∈ fragment.lines, ∀ template, line.instr.function? = some template →
      TemplateTyped strict ctx.lasting template := by
  induction funcs generalizing fragment with
  | nil =>
    simp only [fileFuncs, Compiled.pure_eq_ok] at compiled
    simp [← compiled]
  | cons func funcs ih =>
    simp only [fileFuncs, Compiled.bind_eq_ok, Compiled.pure_eq_ok] at compiled
    obtain ⟨template, compiledFunc, others, compiledOthers, rfl⟩ := compiled
    have properFunc := properIf_cons.mp (proper func (by simp))
    have typed := function_typed func.body properFunc.1 properFunc.2 ctx.lasting compiledFunc
    have rest := ih (fun func member => proper func (by simp [member])) compiledOthers
    intro line member found isFound
    rw [Fragment.append_lines, List.mem_append] at member
    rcases member with isFirst | isOther
    · cases isInstr : instr func.slot template with
      | none => simp [isInstr] at isFirst
      | some first =>
        rw [isInstr] at isFirst
        obtain rfl := List.mem_singleton.mp isFirst
        obtain rfl := Option.some.inj ((same _ _ _ isInstr).symm.trans isFound)
        exact typed
    · exact rest line isOther found isFound

theorem functions_typed {source : SourceFile} {natives : List (String × Signature)}
    {file : CompiledFile} (proper : ProperIf strict source.heads)
    (compiled : Compile.file source natives = .ok file) :
    ∃ level : Level, file.Typed level ∧ ∃ ctx : Ctx strict,
      ctx.layers = [{ level, ready := file.strings }] ∧
      ∀ template ∈ file.functions, TemplateTyped strict ctx.lasting template := by
  obtain ⟨scope, vars, binds, inits, sound, compiledVars, compiledBinds, compiledInits, lines,
    objects, words, symbols, laid⟩ := Compile.file_parts proper compiled
  obtain ⟨level, levelFrame, covers, owned⟩ := file_layout sound compiledVars
  have typed : file.Typed level :=
    ⟨levelFrame ▸ owned, levelFrame ▸ objects.symm, levelFrame ▸ words.symm,
      levelFrame ▸ symbols.symm,
      program_typed sound.loosen (by simp [ProperIf]) False.elim False.elim compiledVars compiledBinds
        compiledInits lines laid levelFrame⟩
  have ready : ∀ name slot, (name, Symbol.var slot) ∈ vars.frame.symbols → slot.type = .string →
      slot ∈ file.strings := by
    intro name slot named isString
    simp only [CompiledFile.strings, symbols, Frame.vars, List.mem_filter, List.mem_map,
      List.mem_filterMap, isString, beq_self_eq_true, and_true]
    exact ⟨(name, slot), ⟨_, named, rfl⟩, rfl⟩
  let ctx : Ctx strict := ⟨[vars.frame], [{ level, ready := file.strings }],
    .owned owned covers (fun _ => ready) .nil⟩
  refine ⟨level, typed, ctx, rfl, fun template member => ?_⟩
  simp only [CompiledFile.functions, lines, List.mem_filterMap, List.mem_append] at member
  obtain ⟨line, (isBind | isVar) | isInit, isTemplate⟩ := member
  · refine @fileFuncs_functions strict ctx _ _ _ ?_ (fun func member =>
      sound.proper func (by simp [member]))
      compiledBinds line isBind template isTemplate
    rintro slot template found isFound
    obtain ⟨_, -, rfl⟩ := Option.map_eq_some_iff.mp isFound
    rfl
  · simp [fileVars_functions compiledVars line isVar] at isTemplate
  · refine @fileFuncs_functions strict ctx _ _ _ ?_ (fun func member =>
      sound.proper func (by simp [member]))
      compiledInits line isInit template isTemplate
    rintro slot template _ ⟨⟩
    rfl

end Compile

section Noting

variable [Natives] {strict : Prop}

/-- A slot is found to hold a value of its type, and so will hold one for good. -/
def Config.note (config : Config strict) {ref : EnvRef} {known : EnvShape} {slot : Slot}
    (found : config.shape.env ref = some known) (has : known.level.Has slot)
    (is : strict → (config.world.load ref slot).Is slot.type) : Config strict where
  shape := config.shape.withReady ref slot
  world := config.world
  sound := by
    have grown := config.shape.grows_withReady ref slot
    refine config.sound.carry grown rfl rfl rfl ⟨rfl, rfl⟩ rfl (fun _ => rfl)
      ⟨rfl, rfl, rfl, rfl, rfl, rfl⟩ ?_ ?_
    · intro other otherKnown otherFound
      obtain ⟨inside, env, present, sound⟩ := config.sound.envs other otherKnown otherFound
      refine ⟨inside, env, present, { sound with
        values := fun index type found unsealed =>
          (sound.values index type found unsealed).grows grown
        ready := ?_ }⟩
      rintro target (⟨rfl, rfl⟩ | isReady)
      · obtain rfl : otherKnown = known := Option.some.inj (otherFound.symm.trans found)
        simp only [World.load, present] at is
        exact ⟨has, is⟩
      · exact sound.ready target isReady
    · rintro other target (⟨rfl, rfl⟩ | isReady)
      · simp [Shape.withReady, found]
      · exact config.sound.ready other target isReady

theorem Config.calm_note {config : Config strict} {ref : EnvRef} {known : EnvShape} {slot : Slot}
    (found : config.shape.env ref = some known) (has : known.level.Has slot)
    (is : strict → (config.world.load ref slot).Is slot.type) :
    config.Calm (config.note found has is) where
  grows := config.shape.grows_withReady ref slot
  envs := Nat.le_refl _
  owner := rfl
  isTask := rfl
  kept _ _ _ := .refl _ _ _
  left _ := rfl
  blocks := ⟨rfl, rfl⟩
  pending := rfl

theorem Config.exists_noted {config : Config strict} {ref : EnvRef} {known : EnvShape}
    {slots : List Slot} (found : config.shape.env ref = some known)
    (has : ∀ slot ∈ slots, known.level.Has slot)
    (are : strict → ∀ slot ∈ slots, (config.world.load ref slot).Is slot.type) :
    ∃ later : Config strict, later.world = config.world ∧ config.Calm later ∧
      ∀ slot ∈ slots, later.shape.ready ref slot := by
  induction slots generalizing config with
  | nil => exact ⟨config, rfl, .refl _, by simp⟩
  | cons slot slots ih =>
    obtain ⟨hasFirst, hasRest⟩ := List.forall_mem_cons.mp has
    have isFirst (isStrict : strict) := (List.forall_mem_cons.mp (are isStrict)).1
    have calm := Config.calm_note found hasFirst isFirst
    obtain ⟨later, same, more, ready⟩ := ih (calm.grows.env _ _ found) hasRest
      fun isStrict => (List.forall_mem_cons.mp (are isStrict)).2
    refine ⟨later, same, calm.trans more, List.forall_mem_cons.mpr ⟨?_, ready⟩⟩
    exact more.grows.ready _ _ (.inl ⟨rfl, rfl⟩)

theorem Run.Meets.noted {α : Type} {run : Run α} {start later : Config strict} {task : ThreadRef}
    {floor : Nat} {post : Config strict → α → Prop} (meets : run.Meets later task floor post)
    (same : later.world = start.world) (calm : start.Calm later) :
    run.Meets start task floor post := by
  have safe : (run start.world).Safe task (later.Ends task floor post) later := same ▸ meets
  refine (safe.sooner calm.advances).mono ?_
  rintro now result ⟨since, quiet, ends⟩
  exact ⟨calm.since.trans since, quiet, ends⟩

end Noting

section Calls

variable [Natives]

/-- The environment of a file has the slots of the file, and its string variables hold strings. -/
structure CompiledFile.Holds (file : CompiledFile) (level : Level) (now : Config True)
    (env : EnvRef) : Prop where
  known : ∃ known, now.shape.env env = some known ∧ known.level = level ∧ known.outer = none
  strings : ∀ slot ∈ file.strings, (now.world.load env slot).Is .string

/-- A function that can be called in a state: one that the file declares, or any function value. -/
inductive CompiledFile.Calls (file : CompiledFile) (now : Config True) (env : EnvRef) : Func → Prop
  | declared {template : Template} : template ∈ file.functions →
    file.Calls now env ⟨template.signature, .closure template env⟩
  | value {function : Func} : (Value.func function).Known now.shape → file.Calls now env function

theorem CompiledFile.Calls.known {file : CompiledFile} {level : Level} {ctx : Ctx True}
    {now : Config True} {env : EnvRef} {function : Func} (typed : file.Typed level)
    (layers : ctx.layers = [{ level, ready := file.strings }])
    (functions : ∀ template ∈ file.functions, TemplateTyped True ctx.lasting template)
    (holds : file.Holds level now env) (calls : file.Calls now env function) :
    ∃ later : Config True, later.world = now.world ∧ now.Calm later ∧
      (Value.func function).Known later.shape := by
  obtain ⟨known, found, rfl, outermost⟩ := holds.known
  have has : ∀ slot ∈ file.strings, known.level.Has slot := by
    intro slot member
    simp only [strings, List.mem_filter, List.mem_map] at member
    obtain ⟨⟨entry, isEntry, rfl⟩, -⟩ := member
    exact (Interpreter.shared_of_vars (typed.symbols ▸ isEntry)).1
  have are : ∀ slot ∈ file.strings, (now.world.load env slot).Is slot.type := by
    intro slot member
    have isString := (List.mem_filter.mp member).2
    exact (beq_iff_eq.mp isString) ▸ holds.strings slot member
  obtain ⟨later, same, calm, ready⟩ := Config.exists_noted found has fun _ => are
  refine ⟨later, same, calm, ?_⟩
  cases calls with
  | value known => exact known.grows calm.grows
  | declared member =>
    refine ⟨rfl, ctx, functions _ member, ?_⟩
    rw [layers]
    exact .cons (calm.grows.env _ _ found) rfl (fun _ => ready) (outermost ▸ .nil)

/-- Compiled code keeps to its types. An expression gives values of the types that it is compiled
with, in any environments that are as its scope says. From any state in which everything has the type
it is kept under, and the string variables of the file hold strings, a function that is called with
arguments it takes gives results of its types: wherever it is stopped on the way, the state is one in
which everything has its type, what has been known of it included, and where it fails, it is not for a
mismatch of types or of the number of arguments, a key that is none or a fault of the interpreter. The
same holds when a host calls it and all tasks run on meanwhile. -/
theorem calls_typed {source : SourceFile} {natives : List (String × Signature)} {file : CompiledFile}
    (proper : ∀ head ∈ source.heads, head.Proper)
    (compiled : Compile.file source natives = .ok file) :
    (∀ {host : Host} {watch : Watch} {fuel floor : Nat} {node : Expr} {ctx : Ctx True}
        {operand : Operand} {start : Config True} {task : ThreadRef} {env : EnvRef},
      host.Safe True → (∀ head ∈ node.heads, head.Proper) →
      Compile.expr ctx.scope node = .ok operand → start.Hosts task floor env ctx.layers →
      (evalValues (Machine.watchedCall watch host fuel) env operand.toValues).Meets start task floor
        fun now values => Inhabit now.shape values operand.types) ∧
    ∃ level : Level, file.Typed level ∧
      ∀ {start : Config True} {env : EnvRef} {function : Func} {args : List Value} {spread : Bool}
          {targets : List Ty},
        file.Holds level start env → file.Calls start env function →
        Inhabit start.shape args targets → function.signature.Accepts spread targets →
        (∀ {host : Host} {watch : Watch} {fuel : Nat} {task thread : ThreadRef}, host.Safe True →
          start.Quiet task → start.shape.Owns task thread →
          (Machine.watchedCall watch host fuel thread ⟨.func function, args, spread⟩).Meets start
            task 0 fun now results => Inhabit now.shape results function.signature.results) ∧
        ∀ {interpreter : Interpreter} {refs : List ThreadRef} {fuel : Nat},
          interpreter.Sound start refs →
          Interpreter.Answers start
            (fun now _ results => Inhabit now.shape results function.signature.results)
            (interpreter.perform fuel (Machine.watchedCall interpreter.watch interpreter.host fuel
              interpreter.thread ⟨.func function, args, spread⟩)) := by
  constructor
  · intro host watch fuel floor node ctx operand start task env hostSafe proper compiled hosts
    have typed := Compile.expr_sound node (fun _ => proper) ctx operand compiled
    obtain ⟨sources, valuesTyped, assignable⟩ := typed.toValues
    have safe := (Machine.watchedCall_safe watch hostSafe fuel).1
    refine (evalValues_meets safe _ valuesTyped hosts).mono fun now values _ _ inhabit => ?_
    exact ⟨inhabit.1, fun isStrict => forall₂_assign (inhabit.2 isStrict) assignable⟩
  · obtain ⟨level, typed, ctx, layers, functions⟩ :=
      @Compile.functions_typed True _ _ _ (fun _ => proper) compiled
    refine ⟨level, typed, fun {start env function args spread targets} holds calls inhabit accepts =>
      ?_⟩
    obtain ⟨later, same, calm, known⟩ := calls.known typed layers functions holds
    have invocation : Invocation.Sound later.shape ⟨.func function, args, spread⟩ :=
      ⟨known, fun value member => (inhabit.1 value member).grows calm.grows, fun isStrict =>
        ⟨function.signature, targets, Value.is_self _, inhabit.2 isStrict, accepts⟩⟩
    have meets {host : Host} {watch : Watch} {fuel : Nat} {task thread : ThreadRef}
        (hostSafe : host.Safe True) (quiet : start.Quiet task)
        (own : start.shape.Owns task thread) :
        (Machine.watchedCall watch host fuel thread ⟨.func function, args, spread⟩).Meets start
          task 0 fun now results => Inhabit now.shape results function.signature.results := by
      have ownLater : later.shape.Owns task thread := ((calm.moves env).owns thread).mpr own
      have called := (Machine.watchedCall_safe watch hostSafe fuel).1 later task thread _ 0
        (calm.quiet quiet) ownLater invocation (Nat.zero_le _)
      refine (called.noted same calm).mono fun now results _ _ ends => ?_
      exact ⟨ends.1, fun isStrict => ends.2 isStrict _ (Value.is_self _)⟩
    refine ⟨meets, fun {interpreter refs fuel} sound => ?_⟩
    exact Interpreter.perform_answers sound fuel (meets sound.host sound.quiet (.inl rfl))

theorem Config.exists_stored {config : Config True} {ref : EnvRef} {known : EnvShape}
    {slots : List Slot} (found : config.shape.env ref = some known)
    (shared : ∀ slot ∈ slots, known.level.Shared slot ∧ slot.type = .string) :
    ∃ later : Config True, config.Calm later ∧ ∀ slot ∈ slots, later.shape.ready ref slot := by
  induction slots generalizing config with
  | nil => exact ⟨config, .refl _, by simp⟩
  | cons slot slots ih =>
    obtain ⟨⟨first, isString⟩, rest⟩ := List.forall_mem_cons.mp shared
    have empty : (Value.str "").Inhabits config.shape slot.type :=
      ⟨trivial, fun _ => isString ▸ Value.is_self _⟩
    have calm := @Config.calm_store _ _ config ref known slot _ found empty first
    obtain ⟨later, more, ready⟩ := ih (calm.grows.env _ _ found) rest
    refine ⟨later, calm.trans more, List.forall_mem_cons.mpr ⟨?_, ready⟩⟩
    exact more.grows.ready _ _ (.inl ⟨rfl, rfl⟩)

theorem CompiledFile.Typed.exists_holds {file : CompiledFile} {level : Level}
    (typed : file.Typed level) (proper : ∀ index signature,
      Natives.signature? index = some signature → signature.Proper) :
    ∃ (interpreter : Interpreter) (start : Config True) (env : EnvRef),
      interpreter.Sound start [] ∧ file.Holds level start env := by
  obtain ⟨now, sound⟩ := @Interpreter.new_sound _ True {} fun _ => proper
  obtain ⟨first, -, calm, isEnv, -, -⟩ := @Config.acquire _ _ now
    (Interpreter.new {}).thread none file.program 0 level
    (now.owner_isSome sound.quiet.isTask (.inl rfl)) (by simp)
  have shared : ∀ slot ∈ file.strings, level.Shared slot ∧ slot.type = .string := by
    intro slot member
    simp only [strings, List.mem_filter, List.mem_map, beq_iff_eq] at member
    obtain ⟨⟨entry, isEntry, rfl⟩, isString⟩ := member
    exact ⟨Interpreter.shared_of_vars (typed.symbols ▸ isEntry), isString⟩
  obtain ⟨start, more, ready⟩ := Config.exists_stored isEnv shared
  have both := calm.trans more
  have since : now.Since (Interpreter.new {}).thread 0 start := both.since
  refine ⟨{ Interpreter.new {} with world := start.world }, start, _,
    ⟨sound.host, rfl, sound.tasks.advances both.advances (both.quiet sound.quiet),
      since.closed sound.closed, by simp [Interpreter.new]⟩,
    ⟨_, more.grows.env _ _ isEnv, rfl, rfl⟩, fun slot member => ?_⟩
  obtain ⟨-, there, present, holds⟩ := start.sound.envs _ _ (more.grows.env _ _ isEnv)
  simp only [World.load, present]
  exact (shared slot member).2 ▸ (holds.ready slot (ready slot member)).2 trivial

end Calls

def greeting : SourceFile :=
  let ident (name : String) : Expr := .ident ⟨name, {}⟩
  [.var [.mk [⟨"hello", {}⟩] none [.string "hello " {}] {}] {},
    .func ⟨"greet", {}⟩
      ⟨[⟨some ⟨"name", {}⟩, .named "string"⟩], [⟨none, .named "string"⟩], false⟩
      (.mk [.ret [.binary .add (ident "hello") (ident "name") {}] {}] {}) {}]

theorem calls_typed_greeting :
    ∃ (_ : Natives) (file : CompiledFile) (interpreter : Interpreter) (start : Config True)
      (env : EnvRef) (template : Template),
      Compile.file greeting [] = .ok file ∧ template ∈ file.functions ∧
      template.signature.results = [.string] ∧ interpreter.Sound start [] ∧
      (∃ level, file.Holds level start env) ∧
      let call : Invocation := ⟨.func ⟨template.signature, .closure template env⟩, [.str "you"], false⟩
      (Machine.watchedCall .never [] 50 interpreter.thread call).Meets start interpreter.thread 0
        (fun now results => Inhabit now.shape results [.string]) ∧
      Interpreter.Answers start (fun now _ results => Inhabit now.shape results [.string])
        (interpreter.perform 50 (Machine.watchedCall interpreter.watch interpreter.host 50
          interpreter.thread call)) := by
  let natives : Natives := ⟨fun _ => none⟩
  have signatures : (Compile.file greeting []).toOption.map (·.functions.map (·.signature)) =
      some [⟨[.string], [.string], false⟩] := by decide +kernel
  cases compiled : Compile.file greeting [] with
  | error error => simp [compiled, Except.toOption] at signatures
  | ok file =>
    obtain ⟨template, isFunction, signature⟩ : ∃ template ∈ file.functions,
        template.signature = ⟨[.string], [.string], false⟩ := by
      simp only [compiled, Except.toOption, Option.map_some, Option.some.injEq] at signatures
      exact List.mem_map.mp (signatures ▸ List.mem_singleton_self _)
    have proper : ∀ head ∈ greeting.heads, head.Proper := by
      have heads : greeting.heads.all (!·.variadic) = true := by decide +kernel
      intro head member variadic
      simpa [variadic] using List.all_eq_true.mp heads head member
    obtain ⟨-, level, typed, calls⟩ := calls_typed proper compiled
    obtain ⟨interpreter, start, env, sound, holds⟩ :=
      typed.exists_holds (by simp [Natives.signature?, natives])
    have inhabit : Inhabit start.shape [.str "you"] [.string] :=
      .cons ⟨trivial, fun _ => Value.is_self _⟩ .nil
    have accepts : template.signature.Accepts false [.string] := by
      simp [signature, Signature.Accepts, Signature.fixed, Invoke.argumentTypes]
    have hostSafe : Host.Safe True [] := ⟨by simp [Natives.signature?, natives], by simp⟩
    have called := calls holds (.declared isFunction) inhabit accepts
    have results : template.signature.results = [.string] := by rw [signature]
    dsimp only at called
    rw [results] at called
    exact ⟨natives, file, interpreter, start, env, template, rfl, isFunction, results, sound,
      ⟨level, holds⟩, called.1 hostSafe sound.quiet (.inl rfl), called.2 sound⟩

/-- A file whose first variable is given its value by a function that reads the second. -/
def earlyRead : SourceFile :=
  let ident (name : String) : Expr := .ident ⟨name, {}⟩
  [.var [.mk [⟨"size", {}⟩] (some (.named "int")) [.call (ident "measure") [] false {}] {}] {},
    .var [.mk [⟨"text", {}⟩] (some (.named "string")) [.string "x" {}] {}] {},
    .func ⟨"measure", {}⟩ { results := [⟨none, .named "int"⟩] }
      (.mk [.ret [.call (ident "len") [.binary .add (ident "text") (.string "y" {}) {}] false {}] {}]
        {}) {}]

/-- A string variable that is read before its turn is nil, which no string can be added to. -/
theorem calls_typed_early_read :
    ((Interpreter.new {}).load 60 earlyRead).1 =
        .error (.runtime (.typeMismatch "invalid operation: nil + string")) ∧
      (RuntimeError.typeMismatch "invalid operation: nil + string").IsFault :=
  ⟨by cbv, .typeMismatch⟩

end MiniGo
