import MiniGo.Proofs.Compilation
/-!
Compiled files. The program of a file is typed as a whole when nothing is asked of string variables;
its functions are typed also when all string variables of the file have been initialised.
-/

namespace MiniGo

variable {strict : Prop}

def SourceFile.heads (source : SourceFile) : List FuncHead := source.flatMap Decl.heads

structure FileScope.Sound (strict : Prop) (scope : FileScope) : Prop where
  declares : ∃ slots, Declares { owned := true } scope.frame slots
  funcs : ∀ func ∈ scope.funcs, ∀ slot, func.slot = some slot →
    ∃ name, (name, Symbol.var slot) ∈ scope.frame.symbols
  inits : ∀ func ∈ scope.inits, func.head.params = []
  proper : ∀ func ∈ scope.funcs ++ scope.inits, ProperIf strict (func.head :: func.body.heads)

namespace FileScope.Sound

variable {scope after : FileScope}

theorem grow {frame : Frame} {slots : List Slot} (sound : scope.Sound strict)
    (declares : Declares scope.frame frame slots) : FileScope.Sound strict { scope with frame } := by
  obtain ⟨before, earlier⟩ := sound.declares
  refine ⟨⟨_, earlier.trans declares⟩, fun func member slot same => ?_, sound.inits, sound.proper⟩
  obtain ⟨name, found⟩ := sound.funcs func member slot same
  exact ⟨name, declares.symbols.subset found⟩

theorem declarable (sound : scope.Sound strict) : Declarable [] scope.frame := by
  obtain ⟨slots, declares⟩ := sound.declares
  exact (Declarable.empty (by simp [Scope.Sound]) true).after declares

theorem loosen (sound : scope.Sound strict) : scope.Sound False :=
  ⟨sound.declares, sound.funcs, sound.inits, fun _ _ => False.elim⟩

theorem declareNatives {natives : List (String × Signature)} (sound : scope.Sound strict)
    (compiled : scope.declareNatives natives = .ok after) : after.Sound strict := by
  induction natives generalizing scope with
  | nil =>
    simp only [FileScope.declareNatives, Compiled.pure_eq_ok] at compiled
    exact compiled ▸ sound
  | cons native natives ih =>
    simp only [FileScope.declareNatives, Compiled.bind_eq_ok, Prod.exists] at compiled
    obtain ⟨slot, frame, declared, compiled⟩ := compiled
    exact ih (sound.grow (Frame.declareVar_declares declared).1) compiled

theorem addFunc {name : Ident} {head : FuncHead} {body : Block} {span : Span}
    (sound : scope.Sound strict) (proper : ProperIf strict (head :: body.heads))
    (compiled : scope.addFunc name head body span = .ok after) : after.Sound strict := by
  unfold FileScope.addFunc at compiled
  split at compiled
  · split at compiled
    · rename_i empty
      simp only [Compiled.pure_eq_ok] at compiled
      subst compiled
      refine ⟨sound.declares, sound.funcs, ?_, ?_⟩
      · intro func member
        rcases List.mem_append.mp member with before | new
        · exact sound.inits func before
        · obtain rfl := List.mem_singleton.mp new
          simp only [Bool.and_eq_true, List.isEmpty_iff] at empty
          exact empty.1
      · intro func member
        simp only [List.mem_append, List.mem_singleton] at member
        rcases member with before | before | rfl
        · exact sound.proper func (by simp [before])
        · exact sound.proper func (by simp [before])
        · exact proper
    · simp at compiled
  · simp only [Compiled.bind_eq_ok, Prod.exists, Compiled.pure_eq_ok] at compiled
    obtain ⟨signature, -, slot, frame, declared, rfl⟩ := compiled
    have declares := (Frame.declareVar_declares declared).1
    have grown := sound.grow declares
    refine ⟨grown.declares, ?_, grown.inits, ?_⟩
    · intro func member found same
      rcases List.mem_append.mp member with before | new
      · exact grown.funcs func before found same
      · obtain rfl := List.mem_singleton.mp new
        have same : slot = some found := same
        exact declares.named found (by simp [same])
    · intro func member
      simp only [List.mem_append, List.mem_singleton] at member
      rcases member with (before | rfl) | before
      · exact sound.proper func (by simp [before])
      · exact proper
      · exact sound.proper func (by simp [before])

theorem declareAll {source : SourceFile} (sound : scope.Sound strict)
    (proper : ProperIf strict source.heads) (compiled : scope.declareAll source = .ok after) :
    after.Sound strict := by
  induction source generalizing scope with
  | nil =>
    simp only [FileScope.declareAll, Compiled.pure_eq_ok] at compiled
    exact compiled ▸ sound
  | cons declaration source ih =>
    simp only [SourceFile.heads, List.flatMap_cons, properIf_append] at proper
    cases declaration with
    | type specs _ =>
      simp only [FileScope.declareAll, pure_bind, Compiled.bind_eq_ok] at compiled
      obtain ⟨frame, declared, compiled⟩ := compiled
      exact ih (sound.grow (Compile.typeSpecs_declares specs sound.declarable declared)) proper.2
        compiled
    | const specs _ =>
      simp only [FileScope.declareAll, pure_bind, Compiled.bind_eq_ok] at compiled
      obtain ⟨frame, declared, compiled⟩ := compiled
      exact ih (sound.grow (Compile.constSpecs_declares specs sound.declarable declared)) proper.2
        compiled
    | func name head body span =>
      simp only [FileScope.declareAll, Compiled.bind_eq_ok] at compiled
      obtain ⟨next, added, compiled⟩ := compiled
      exact ih (sound.addFunc proper.1 added) proper.2 compiled
    | var specs _ =>
      simp only [FileScope.declareAll, pure_bind] at compiled
      exact ih sound proper.2 compiled

end FileScope.Sound

namespace Compile

/-- Declarations of variables have no jumps, so their instructions do not depend on their
position. -/
theorem varSpecs_here {outer : Scope} {frame : Frame} (here there : Nat) (specs : List ValueSpec) :
    varSpecs outer frame here specs = varSpecs outer frame there specs := by
  induction specs generalizing frame here there with
  | nil => simp only [varSpecs]
  | cons spec specs ih =>
    obtain ⟨names, written, values, span⟩ := spec
    simp only [varSpecs]
    refine bind_congr fun declared => bind_congr fun given => bind_congr fun values => ?_
    refine bind_congr fun first => ?_
    rw [ih (here + first.length) (there + first.length)]

theorem fileVars_declaring {frame : Frame} {piece : Piece} {source : SourceFile} (here : Nat)
    (proper : ProperIf strict source.heads) (declarable : Declarable [] frame)
    (compiled : fileVars frame source = .ok piece) :
    Declaring strict [] frame here piece fun finals => FileVarsSites finals frame source := by
  induction source generalizing frame piece here with
  | nil =>
    simp only [fileVars, Compiled.pure_eq_ok] at compiled
    exact compiled ▸ .nothing [] frame fun _ => .nil
  | cons declaration source ih =>
    simp only [SourceFile.heads, List.flatMap_cons, properIf_append] at proper
    cases declaration with
    | var specs _ =>
      simp only [Decl.heads] at proper
      simp only [fileVars, Compiled.bind_eq_ok, Compiled.pure_eq_ok] at compiled
      obtain ⟨first, compiledFirst, others, compiledOthers, rfl⟩ := compiled
      have left := varSpecs_extends specs proper.1 _ _ here first declarable
        ((varSpecs_here here 0 specs).trans compiledFirst)
      obtain ⟨slots, declares, -⟩ := id left
      exact left.append (ih _ proper.2 (declarable.after declares) compiledOthers)
        fun _ _ _ => .var compiledFirst
    | const specs _ | type specs _ | func name head body _ =>
      exact (ih here proper.2 declarable (by simpa only [fileVars] using compiled)).imp
        fun _ _ => .other (by simp)

theorem fileFuncs_runs {ctx : Ctx strict} {base here : Nat}
    {out : Nat → ExitKind → List Layer → Prop} {instr : Option Slot → Template → Option Instr}
    {funcs : List FileFunc} {fragment : Fragment}
    (typed : ∀ func ∈ funcs, ∀ template here, TemplateTyped strict ctx.lasting template →
      function ctx.scope func.head func.span func.body = .ok template →
      ∀ found, instr func.slot template = some found →
        InstrTyped strict base (fun position layers => position = here + 1 ∧
          Serves layers ctx.layers) out here ctx found)
    (proper : ∀ func ∈ funcs, ProperIf strict (func.head :: func.body.heads))
    (compiled : fileFuncs ctx.scope instr funcs = .ok fragment) :
    Runs strict base out here fragment.lines (.replicate fragment.lines.length ctx.site) ctx.layers
      ctx.layers := by
  induction funcs generalizing here fragment with
  | nil =>
    simp only [fileFuncs, Compiled.pure_eq_ok] at compiled
    exact compiled ▸ .nil (.refl _)
  | cons func funcs ih =>
    simp only [fileFuncs, Compiled.bind_eq_ok, Compiled.pure_eq_ok] at compiled
    obtain ⟨template, compiledFunc, others, compiledOthers, rfl⟩ := compiled
    have properFunc := properIf_cons.mp (proper func (by simp))
    have templateTyped := function_typed func.body properFunc.1 properFunc.2 ctx.lasting compiledFunc
    have rest (here : Nat) : Runs strict base out here others.lines
        (.replicate others.lines.length ctx.site) ctx.layers ctx.layers :=
      ih (fun func member => typed func (by simp [member]))
        (fun func member => proper func (by simp [member])) compiledOthers
    rw [Fragment.append_lines, List.length_append, List.replicate_add]
    split
    · rename_i found isFound
      exact (Runs.one ctx (typed func (by simp) template here templateTyped compiledFunc found
        isFound)).append (rest _)
    · exact (Runs.nil (.refl _)).append (rest _)

theorem file_parts {source : SourceFile} {natives : List (String × Signature)} {file : CompiledFile}
    (proper : ProperIf strict source.heads) (compiled : Compile.file source natives = .ok file) :
    ∃ (scope : FileScope) (vars : Piece) (binds inits : Fragment), scope.Sound strict ∧
      fileVars scope.frame source = .ok vars ∧
      fileFuncs [vars.frame] (fun slot template => slot.map (.bind · template)) scope.funcs =
        .ok binds ∧
      fileFuncs [vars.frame] (fun _ template => some (.callInit template)) scope.inits =
        .ok inits ∧
      file.program.lines = (binds.lines ++ vars.lines ++ inits.lines).toArray ∧
      file.objects = vars.frame.objects ∧ file.words = vars.frame.words ∧
      file.symbols = vars.frame.vars ∧
      ∀ sites, FileVarsSites [vars.frame] scope.frame source sites → Lays file.program
        (.replicate binds.lines.length ⟨[vars.frame], [vars.frame]⟩ ++ sites ++
          .replicate inits.lines.length ⟨[vars.frame], [vars.frame]⟩) := by
  have whole := compiled
  simp only [Compile.file, Compiled.bind_eq_ok, Compiled.pure_eq_ok] at compiled
  obtain ⟨start, declaredNatives, scope, declared, vars, compiledVars, binds, compiledBinds, inits,
    compiledInits, rfl⟩ := compiled
  have empty : FileScope.Sound strict {} := ⟨⟨[], .refl _⟩, by simp, by simp, by simp⟩
  have sound := (empty.declareNatives declaredNatives).declareAll proper declared
  exact ⟨scope, vars, binds, inits, sound, compiledVars, compiledBinds, compiledInits, rfl, rfl, rfl,
    rfl, fun sites isVars => .file whole
      (.mk declaredNatives declared compiledVars compiledBinds compiledInits isVars)⟩

end Compile

def ProgramTyped (strict : Prop) (base : Nat) (program : Program) (entry : List Layer) : Prop :=
  ∃ (positions : List (Ctx strict)) (exit : List Layer),
    Compile.Lays program (positions.map Ctx.site) ∧ positions.length = program.lines.size ∧
    Lands 0 (positions.map (·.layers)) exit 0 entry ∧
    ∀ (index : Nat) line here, program.lines[index]? = some line → positions[index]? = some here →
      InstrTyped strict base (Lands 0 (positions.map (·.layers)) exit) (fun _ _ _ => False) index
        here line.instr

theorem Runs.program {base : Nat} {program : Program} {lines : List Line} {sites : List Site}
    {entry exit : List Layer} (runs : Runs strict base (fun _ _ _ => False) 0 lines sites entry exit)
    (same : program.lines = lines.toArray) (laid : Compile.Lays program sites) :
    ProgramTyped strict base program entry := by
  obtain ⟨positions, rfl, flows, enter⟩ := runs
  refine ⟨positions, exit, laid, by simpa [same] using flows.length_eq, enter, ?_⟩
  intro index line here found known
  have typed := flows.get (by simpa [same] using found) known
  rwa [Nat.zero_add] at typed

/-- The slots of a compiled file, and its program. -/
structure CompiledFile.Typed (file : CompiledFile) (level : Level) : Prop where
  owned : level.frame.owned = true
  objects : level.frame.objects = file.objects
  words : level.frame.words = file.words
  symbols : level.frame.vars = file.symbols
  program : ProgramTyped False 0 file.program [{ level }]

namespace Compile

theorem file_layout {source : SourceFile} {scope : FileScope} {vars : Piece}
    (sound : scope.Sound strict) (compiled : fileVars scope.frame source = .ok vars) :
    ∃ level : Level, level.frame = vars.frame ∧ level.Covers vars.frame ∧
      vars.frame.owned = true := by
  obtain ⟨slots, declares⟩ := sound.declares
  obtain ⟨more, varsDeclare, -⟩ := @fileVars_declaring False _ _ source 0 (by simp [ProperIf])
    sound.declarable compiled
  have whole := declares.trans varsDeclare
  obtain ⟨level, levelFrame, -⟩ := whole.level (.empty { owned := true } rfl rfl rfl) rfl
  exact ⟨level, levelFrame, levelFrame ▸ (Level.Grows.refl level).covers, whole.owned⟩

/-- The program of a file is typed in an environment with its slots. When `strict` holds, the file
has no string variables, and each function is of the type that it is declared with. -/
theorem program_typed {source : SourceFile} {scope : FileScope} {vars : Piece}
    {binds inits : Fragment} {program : Program} {level : Level} (sound : scope.Sound strict)
    (proper : ProperIf strict source.heads)
    (strings : strict → ∀ name slot, (name, Symbol.var slot) ∈ vars.frame.symbols →
      slot.type ≠ .string)
    (agrees : strict → ∀ func ∈ scope.funcs, ∀ slot template, func.slot = some slot →
      function [vars.frame] func.head func.span func.body = .ok template →
      template.signature.toTy = slot.type)
    (compiledVars : fileVars scope.frame source = .ok vars)
    (compiledBinds : fileFuncs [vars.frame] (fun slot template => slot.map (.bind · template))
      scope.funcs = .ok binds)
    (compiledInits : fileFuncs [vars.frame] (fun _ template => some (.callInit template))
      scope.inits = .ok inits)
    (lines : program.lines = (binds.lines ++ vars.lines ++ inits.lines).toArray)
    (laid : ∀ sites, FileVarsSites [vars.frame] scope.frame source sites → Lays program
      (.replicate binds.lines.length ⟨[vars.frame], [vars.frame]⟩ ++ sites ++
        .replicate inits.lines.length ⟨[vars.frame], [vars.frame]⟩))
    (same : level.frame = vars.frame) : ProgramTyped strict 0 program [{ level }] := by
  have covers : level.Covers vars.frame := same ▸ (Level.Grows.refl level).covers
  obtain ⟨slots, declares⟩ := sound.declares
  obtain ⟨more, varsDeclare, varsRun⟩ := fileVars_declaring binds.lines.length proper
    sound.declarable compiledVars
  have whole := declares.trans varsDeclare
  let start : Ctx strict := ⟨[scope.frame], [{ level }], .owned declares.owned
    (varsDeclare.covers covers) (fun isStrict name slot named isString =>
      absurd isString (strings isStrict name slot (varsDeclare.symbols.subset named))) .nil⟩
  let final : Ctx strict := ⟨[vars.frame], [{ level }], .owned whole.owned covers
    (fun isStrict name slot named isString => absurd isString (strings isStrict name slot named)) .nil⟩
  have top : Top start.layers vars.frame :=
    ⟨fun _ => ⟨_, rfl, covers⟩, fun bare => by simp [whole.owned] at bare⟩
  have around : Around 0 (fun _ _ _ => False) start.scope start.layers := by
    refine ⟨Nat.one_pos, ?_, ?_⟩
    · intro kind label hops level found
      simp [start, Scope.exit?, declares.loop, declares.func] at found
    · intro hops info found
      simp [start, Scope.function?, declares.func] at found
  have bindsRun : Runs strict 0 (fun _ _ _ => False) 0 binds.lines
      (.replicate binds.lines.length final.site) final.layers final.layers := by
    refine fileFuncs_runs ?_ (fun func member => sound.proper func (by simp [member])) compiledBinds
    intro func member template here typed compiledFunc found isFound
    obtain ⟨slot, isSlot, rfl⟩ := Option.map_eq_some_iff.mp isFound
    obtain ⟨name, named⟩ := sound.funcs func member slot isSlot
    exact .bind rfl (covers.shared (varsDeclare.symbols.subset named)) typed
      (fun isStrict => agrees isStrict func member slot template isSlot compiledFunc)
      ⟨rfl, serves_stored _ _⟩
  have initsRun : ∀ here, Runs strict 0 (fun _ _ _ => False) here inits.lines
      (.replicate inits.lines.length final.site) final.layers final.layers := by
    intro here
    refine fileFuncs_runs ?_ (fun func member => sound.proper func (by simp [member])) compiledInits
    intro func member template here typed compiledFunc found isFound
    obtain rfl : _ = found := by simpa using isFound
    refine .callInit typed ?_ ⟨rfl, .refl _⟩
    simpa [sound.inits func member] using function_params compiledFunc
  obtain ⟨sites, isVars, middle⟩ := varsRun start 0 (fun _ _ _ => False) rfl around top
  have all := (bindsRun.append (Nat.zero_add binds.lines.length ▸
    middle.finish (serves_stored more _))).append (initsRun _)
  rw [show finals start.layers = [vars.frame] by simp [start, finals, same]] at isVars
  refine all.program lines ?_
  rw [show final.site = ⟨[vars.frame], [vars.frame]⟩ by simp [final, Ctx.site, finals, same]]
  exact laid sites isVars

theorem file_typed {source : SourceFile} {natives : List (String × Signature)} {file : CompiledFile}
    (compiled : Compile.file source natives = .ok file) : ∃ level : Level, file.Typed level := by
  obtain ⟨scope, vars, binds, inits, sound, compiledVars, compiledBinds, compiledInits, lines,
    objects, words, symbols, laid⟩ := @Compile.file_parts False _ _ _ (by simp [ProperIf]) compiled
  obtain ⟨level, levelFrame, -, owned⟩ := file_layout sound compiledVars
  exact ⟨level, levelFrame ▸ owned, levelFrame ▸ objects.symm, levelFrame ▸ words.symm,
    levelFrame ▸ symbols.symm,
    program_typed sound (by simp [ProperIf]) False.elim False.elim compiledVars compiledBinds
      compiledInits lines laid levelFrame⟩

end Compile

end MiniGo
