import MiniGo.Proofs.Sessions
/-!
Where running code stands. Every jump of a compiled program leads into it or to its end; wherever a run
is stopped, the instruction about to run is the one at the position of its environment.
-/

namespace MiniGo

/-- What code mentions: the variables it loads and the functions it makes closures of. -/
inductive Leaf (τ : Type)
  | load (hops : Nat) (slot : Slot)
  | function (function : τ)

mutual

def CodeOf.leaves {τ : Type} : CodeOf τ → List (Leaf τ)
  | .const _ => []
  | .load hops slot => [.load hops slot]
  | .binary _ left right => left.leaves ++ right.leaves
  | .logical _ left right => left.leaves ++ right.leaves
  | .unary _ operand => operand.leaves
  | .convert _ operand => operand.leaves
  | .receive channel => channel.leaves
  | .sliceIndex base index => base.leaves ++ index.leaves
  | .stringIndex base index => base.leaves ++ index.leaves
  | .mapIndex _ base key => base.leaves ++ key.leaves
  | .sliceLit _ items => CodeOf.leavesAll items
  | .mapLit _ _ entries => CodeOf.leavesEntries entries
  | .typeAssert _ operand => operand.leaves
  | .closure function => [.function function]
  | .builtin _ _ => []
  | .length operand => operand.leaves
  | .capacity operand => operand.leaves
  | .append _ base extra => base.leaves ++ extra.leaves
  | .makeSlice _ length => length.leaves
  | .makeMap _ _ => []
  | .makeChan _ none => []
  | .makeChan _ (some size) => size.leaves
  | .first values => values.leaves

def ValuesOf.leaves {τ : Type} : ValuesOf τ → List (Leaf τ)
  | .each items => CodeOf.leavesAll items
  | .call callee args _ => callee.leaves ++ args.leaves
  | .elements slice => slice.leaves
  | .mapLookup _ base key => base.leaves ++ key.leaves
  | .receiveOk channel => channel.leaves
  | .typeAssertOk _ operand => operand.leaves

def CodeOf.leavesAll {τ : Type} : List (CodeOf τ) → List (Leaf τ)
  | [] => []
  | code :: codes => code.leaves ++ CodeOf.leavesAll codes

def CodeOf.leavesEntries {τ : Type} : List (CodeOf τ × CodeOf τ) → List (Leaf τ)
  | [] => []
  | (key, value) :: entries => key.leaves ++ value.leaves ++ CodeOf.leavesEntries entries

end

namespace PlaceOf

variable {τ : Type}

def leaves : PlaceOf τ → List (Leaf τ)
  | .slot _ _ => []
  | .element _ base index => base.leaves ++ index.leaves
  | .blank => []

end PlaceOf

def CommOf.leaves {τ : Type} : CommOf τ → List (Leaf τ)
  | .send channel value => channel.leaves ++ value.leaves
  | .recv channel => channel.leaves

namespace InstrOf

variable {τ : Type}

def leaves : InstrOf τ → List (Leaf τ)
  | .eval values | .ret _ _ values | .init _ values => values.leaves
  | .jumpUnless cond _ => cond.leaves
  | .defer call | .go call => call.callee.leaves ++ call.args.leaves
  | .send channel value => channel.leaves ++ value.leaves
  | .assign places values => places.flatMap PlaceOf.leaves ++ values.leaves
  | .update _ place operand => place.leaves ++ operand.leaves
  | .bind _ function | .callInit function => [.function function]
  | .switch tag cases _ => tag.leaves ++ CodeOf.leavesAll (cases.map (·.1))
  | .typeSwitch subject _ _ _ => subject.leaves
  | .select comms _ _ => (comms.map (·.1)).flatMap CommOf.leaves
  | .unpark _ value flag => value.leaves ++ flag.toList.flatMap PlaceOf.leaves
  | .rangeStart _ _ _ subject => subject.leaves
  | .rangeNext _ _ key value _ => (key.toList ++ value.toList).flatMap PlaceOf.leaves
  | _ => []

def dests : InstrOf τ → List Dest
  | .goto dest | .jumpUnless _ dest | .rangeNext _ _ _ _ dest => [.line dest]
  | .leave _ dest => [dest]
  | .switch _ cases fallback => (fallback :: cases.map (·.2)).map .line
  | .typeSwitch _ cases fallback _ => (fallback :: cases.map (·.2)).map .line
  | .select comms fallback _ => (fallback.toList ++ comms.map (·.2)).map .line
  | _ => []

end InstrOf

variable {strict : Prop}

/-- A variable is found by its name, and a function is typed where it is created. -/
def Leaf.Typed (ctx : Ctx strict) : Leaf Template → Prop
  | .load hops slot => ∃ name, ctx.scope.lookup name = some (hops, .var slot)
  | .function template => TemplateTyped strict ctx.lasting template

section Leaves

variable {ctx : Ctx strict}

mutual

theorem CodeTyped.leaves : (code : Code) → {type : Ty} → CodeTyped strict ctx code type →
    ∀ leaf ∈ code.leaves, leaf.Typed ctx
  | .const _, _, _ => by simp [CodeOf.leaves]
  | .load hops slot, _, .load found => by
    simp only [CodeOf.leaves, List.mem_singleton, forall_eq]
    exact ⟨_, found⟩
  | .binary _ left right, _, .binary first second _ =>
    List.forall_mem_append.mpr ⟨CodeFits.leaves left first, CodeFits.leaves right second⟩
  | .logical _ left right, _, .logical first second =>
    List.forall_mem_append.mpr ⟨CodeFits.leaves left first, CodeFits.leaves right second⟩
  | .unary _ operand, _, .unary fits _ => CodeFits.leaves operand fits
  | .convert _ operand, _, .convert fits _ => CodeFits.leaves operand fits
  | .receive channel, _, .receive fits => CodeFits.leaves channel fits
  | .sliceIndex base index, _, .sliceIndex first second =>
    List.forall_mem_append.mpr ⟨CodeFits.leaves base first, CodeFits.leaves index second⟩
  | .stringIndex base index, _, .stringIndex first second =>
    List.forall_mem_append.mpr ⟨CodeFits.leaves base first, CodeFits.leaves index second⟩
  | .mapIndex _ base key, _, .mapIndex first second =>
    List.forall_mem_append.mpr ⟨CodeFits.leaves base first, CodeFits.leaves key second⟩
  | .sliceLit _ items, _, .sliceLit fit => CodesFit.leaves items fit
  | .mapLit _ _ entries, _, .mapLit _ fit => EntriesFit.leaves entries fit
  | .typeAssert _ operand, _, .typeAssert fits => CodeFits.leaves operand fits
  | .closure _, _, .closure typed => by
    simp only [CodeOf.leaves, List.mem_singleton, forall_eq]
    exact typed
  | .builtin _ _, _, _ => by simp [CodeOf.leaves]
  | .length operand, _, .length fits _ => CodeFits.leaves operand fits
  | .capacity operand, _, .capacity fits _ => CodeFits.leaves operand fits
  | .append _ base extra, _, .append first second =>
    List.forall_mem_append.mpr ⟨CodeFits.leaves base first, ValuesEach.leaves extra second⟩
  | .makeSlice _ length, _, .makeSlice fits => CodeFits.leaves length fits
  | .makeMap _ _, _, _ => by simp [CodeOf.leaves]
  | .makeChan _ none, _, _ => by simp [CodeOf.leaves]
  | .makeChan _ (some size), _, .makeChanSized fits => CodeFits.leaves size fits
  | .first values, _, .first typed => ValuesTyped.leaves values typed

theorem CodeFits.leaves : (code : Code) → {type : Ty} → CodeFits strict ctx code type →
    ∀ leaf ∈ code.leaves, leaf.Typed ctx
  | code, _, .of typed _ => CodeTyped.leaves code typed

theorem CodesFit.leaves : (codes : List Code) → {types : List Ty} → CodesFit strict ctx codes types →
    ∀ leaf ∈ CodeOf.leavesAll codes, leaf.Typed ctx
  | [], _, _ => by simp [CodeOf.leavesAll]
  | code :: codes, _, .cons first rest =>
    List.forall_mem_append.mpr ⟨CodeFits.leaves code first, CodesFit.leaves codes rest⟩

theorem EntriesFit.leaves : (entries : List (Code × Code)) → {key value : Ty} →
    EntriesFit strict ctx entries key value →
    ∀ leaf ∈ CodeOf.leavesEntries entries, leaf.Typed ctx
  | [], _, _, _ => by simp [CodeOf.leavesEntries]
  | (key, value) :: entries, _, _, .cons first second rest =>
    List.forall_mem_append.mpr ⟨List.forall_mem_append.mpr
      ⟨CodeFits.leaves key first, CodeFits.leaves value second⟩, EntriesFit.leaves entries rest⟩

theorem ValuesTyped.leaves : (values : Values) → {types : List Ty} →
    ValuesTyped strict ctx values types → ∀ leaf ∈ values.leaves, leaf.Typed ctx
  | .each items, _, .each fit => CodesFit.leaves items fit
  | .call callee args _, _, .call (.mk first second _ _) =>
    List.forall_mem_append.mpr ⟨CodeFits.leaves callee first, ValuesTyped.leaves args second⟩
  | .mapLookup _ base key, _, .mapLookup first second =>
    List.forall_mem_append.mpr ⟨CodeFits.leaves base first, CodeFits.leaves key second⟩
  | .receiveOk channel, _, .receiveOk fits => CodeFits.leaves channel fits
  | .typeAssertOk _ operand, _, .typeAssertOk fits => CodeFits.leaves operand fits

theorem ValuesEach.leaves : (values : Values) → {elem : Ty} → ValuesEach strict ctx values elem →
    ∀ leaf ∈ values.leaves, leaf.Typed ctx
  | .each items, _, .each fit => CodesFit.leaves items fit
  | .elements slice, _, .elements fits => CodeFits.leaves slice fits

end

theorem PlaceTyped.leaves {place : Place} {target : Option Ty}
    (typed : PlaceTyped strict ctx place target) : ∀ leaf ∈ place.leaves, leaf.Typed ctx := by
  cases typed with
  | known | blank => simp [PlaceOf.leaves]
  | item first second | entry first second =>
    exact List.forall_mem_append.mpr ⟨CodeFits.leaves _ first, CodeFits.leaves _ second⟩

theorem PlacesTyped.leaves {places : List Place} {targets : List (Option Ty)}
    (typed : PlacesTyped strict ctx places targets) :
    ∀ leaf ∈ places.flatMap PlaceOf.leaves, leaf.Typed ctx := by
  induction places generalizing targets with
  | nil => simp
  | cons place places ih =>
    rw [List.flatMap_cons]
    cases typed with
    | cons first rest => exact List.forall_mem_append.mpr ⟨first.leaves, ih rest⟩
    | fresh _ _ rest => exact ih rest

theorem CommsTyped.leaves {comms : List Comm} {received : List (Option Ty)}
    (typed : CommsTyped strict ctx comms received) :
    ∀ leaf ∈ comms.flatMap CommOf.leaves, leaf.Typed ctx := by
  induction comms generalizing received with
  | nil => simp
  | cons comm comms ih =>
    rw [List.flatMap_cons]
    cases typed with
    | send first second rest =>
      exact List.forall_mem_append.mpr
        ⟨List.forall_mem_append.mpr ⟨CodeFits.leaves _ first, CodeFits.leaves _ second⟩, ih rest⟩
    | recv first rest => exact List.forall_mem_append.mpr ⟨CodeFits.leaves _ first, ih rest⟩

theorem CallTyped.leaves {call : Call} {results : List Ty} (typed : CallTyped strict ctx call results) :
    ∀ leaf ∈ call.callee.leaves ++ call.args.leaves, leaf.Typed ctx := by
  cases typed with
  | mk first second _ _ =>
    exact List.forall_mem_append.mpr ⟨CodeFits.leaves _ first, ValuesTyped.leaves _ second⟩

variable {base here : Nat} {lands : Nat → List Layer → Prop} {out : Nat → ExitKind → List Layer → Prop}
  {instr : Instr}

def Ctx.operands (ctx : Ctx strict) : Instr → Ctx strict
  | .go _ => ctx.inner
  | _ => ctx

theorem InstrTyped.leaves (typed : InstrTyped strict base lands out here ctx instr) :
    ∀ leaf ∈ instr.leaves, leaf.Typed (ctx.operands instr) := by
  cases typed with
  | skip | interrupt | goto | push | pop | leave | exit | adopt | rangeStep => simp [InstrOf.leaves]
  | eval values => exact ValuesTyped.leaves _ values
  | jumpUnless cond => exact CodeFits.leaves _ cond
  | ret _ _ values => exact ValuesTyped.leaves _ values
  | defer call => exact call.leaves
  | go call => exact call.leaves
  | send channel value =>
    exact List.forall_mem_append.mpr ⟨CodeFits.leaves _ channel, CodeFits.leaves _ value⟩
  | assign places values =>
    exact List.forall_mem_append.mpr ⟨places.leaves, ValuesTyped.leaves _ values⟩
  | update place operand =>
    exact List.forall_mem_append.mpr ⟨place.leaves, CodeFits.leaves _ operand⟩
  | init _ _ values => exact ValuesTyped.leaves _ values
  | bind _ _ template =>
    simp only [InstrOf.leaves, List.mem_singleton, forall_eq]
    exact template
  | callInit template =>
    simp only [InstrOf.leaves, List.mem_singleton, forall_eq]
    exact template
  | switch tag codes =>
    exact List.forall_mem_append.mpr ⟨CodeFits.leaves _ tag, CodesFit.leaves _ codes⟩
  | typeSwitch subject => exact CodeFits.leaves _ subject
  | typeSwitchParked subject => exact CodeFits.leaves _ subject
  | select comms => exact comms.leaves
  | selectParked comms => exact comms.leaves
  | unpark _ _ _ _ place _ flags =>
    exact List.forall_mem_append.mpr ⟨place.leaves, flags.leaves⟩
  | rangeStart _ _ _ subject => exact CodeFits.leaves _ subject
  | rangeNext _ _ _ _ key _ value =>
    simp only [InstrOf.leaves, List.flatMap_append]
    exact List.forall_mem_append.mpr ⟨key.leaves, value.leaves⟩

theorem InstrTyped.dests
    (typed : InstrTyped strict base lands (fun _ _ _ => False) here ctx instr) :
    ∀ dest ∈ instr.dests, ∃ position layers, dest = .line position ∧ lands position layers := by
  cases typed with
  | skip | interrupt | eval | push | pop | ret | defer | go | send | assign | update | init | bind
  | callInit | adopt | unpark | rangeStart | rangeStep => simp [InstrOf.dests]
  | exit none => exact none.elim
  | goto next | leave _ next =>
    simp only [InstrOf.dests, List.mem_singleton, forall_eq]
    exact ⟨_, _, rfl, next⟩
  | jumpUnless _ _ next | rangeNext _ _ _ _ _ _ _ _ _ next =>
    simp only [InstrOf.dests, List.mem_singleton, forall_eq]
    exact ⟨_, _, rfl, next⟩
  | switch _ _ cases next | typeSwitch _ cases next =>
    simp only [InstrOf.dests, List.forall_mem_map, List.forall_mem_cons]
    exact ⟨⟨_, _, rfl, next⟩, fun entry member => ⟨_, _, rfl, cases entry member⟩⟩
  | typeSwitchParked _ _ _ cases next =>
    simp only [InstrOf.dests, List.forall_mem_map, List.forall_mem_cons]
    refine ⟨⟨_, _, rfl, next⟩, fun entry member => ?_⟩
    obtain ⟨known, -, lands⟩ := cases entry member
    exact ⟨_, _, rfl, lands⟩
  | select _ cases next =>
    simp only [InstrOf.dests, List.forall_mem_map]
    refine List.forall_mem_append.mpr ⟨fun dest member => ?_, ?_⟩
    · exact ⟨_, _, rfl, next dest (by simpa using member)⟩
    · simp only [List.forall_mem_map]
      exact fun entry member => ⟨_, _, rfl, cases entry member⟩
  | selectParked _ _ _ _ cases next =>
    simp only [InstrOf.dests, List.forall_mem_map]
    refine List.forall_mem_append.mpr ⟨fun dest member => ?_, ?_⟩
    · exact ⟨_, _, rfl, next dest (by simpa using member)⟩
    · simp only [List.forall_mem_map]
      intro entry member
      obtain ⟨elem, -, lands⟩ := exists_of_forall₂ cases member
      exact ⟨_, _, rfl, lands⟩

end Leaves

/-- A program, and those of the functions that its code mentions, at any depth. -/
inductive ProgramOf.Contains (whole : Program) : Program → Prop
  | self : whole.Contains whole
  | inside {program : Program} {line : Line} {template : Template} :
    whole.Contains program → line ∈ program.lines → .function template ∈ line.instr.leaves →
    whole.Contains template.program

def ProgramOf.JumpsInside (program : Program) : Prop :=
  ∀ line ∈ program.lines, ∀ dest ∈ line.instr.dests,
    ∃ position, dest = .line position ∧ position ≤ program.lines.size

theorem Lands.le {here position : Nat} {stops : List (List Layer)} {exit layers : List Layer}
    (lands : Lands here stops exit position layers) : position ≤ here + stops.length := by
  rcases lands with ⟨index, target, rfl, found, -⟩ | ⟨rfl, -⟩
  · have inside := (List.getElem?_eq_some_iff.mp found).1
    omega
  · exact Nat.le_refl _

namespace ProgramTyped

variable {base : Nat} {program : Program} {entry : List Layer}

theorem instr (typed : ProgramTyped strict base program entry) {line : Line}
    (member : line ∈ program.lines) :
    ∃ (here : Nat) (ctx : Ctx strict) (lands : Nat → List Layer → Prop),
      InstrTyped strict base lands (fun _ _ _ => False) here ctx line.instr ∧
        ∀ position layers, lands position layers → position ≤ program.lines.size := by
  obtain ⟨positions, exit, -, length, -, instrs⟩ := typed
  obtain ⟨index, inside, rfl⟩ := Array.mem_iff_getElem.mp member
  have known := List.getElem?_eq_getElem (length.symm ▸ inside)
  refine ⟨index, _, _, instrs index _ _ (Array.getElem?_eq_getElem inside) known, ?_⟩
  intro position layers lands
  simpa [length] using lands.le

theorem jumpsInside (typed : ProgramTyped strict base program entry) : program.JumpsInside := by
  intro line member dest isDest
  obtain ⟨here, ctx, lands, typedInstr, inside⟩ := typed.instr member
  obtain ⟨position, layers, rfl, landsThere⟩ := typedInstr.dests dest isDest
  exact ⟨position, rfl, inside _ _ landsThere⟩

theorem function (typed : ProgramTyped strict base program entry) {line : Line}
    {template : Template} (member : line ∈ program.lines)
    (mentions : .function template ∈ line.instr.leaves) :
    ∃ base entry, ProgramTyped strict base template.program entry := by
  obtain ⟨here, ctx, lands, typedInstr, -⟩ := typed.instr member
  have isTyped : TemplateTyped strict _ template := typedInstr.leaves _ mentions
  obtain ⟨compiled, laid, -, -, -, -, -, length, enter, instrs⟩ := isTyped
  exact ⟨_, _, _, _, .function compiled laid, length, enter, instrs⟩

theorem contains {whole : Program} (typed : ProgramTyped strict base whole entry)
    (contains : whole.Contains program) : ∃ base entry, ProgramTyped strict base program entry := by
  induction contains with
  | self => exact ⟨base, entry, typed⟩
  | inside _ member mentions ih =>
    obtain ⟨base, entry, typed⟩ := ih
    exact typed.function member mentions

end ProgramTyped

/-- Every jump in the program of a compiled file, and in those of its functions, has got its
destination, inside the program or at its end. Wherever running code is stopped, a signal tells why
nothing is to run next, or the instruction to run next is the one that the environment is at; there is
none only past the end of the program. -/
theorem jumps_inside [Natives] :
    (∀ {source : SourceFile} {natives : List (String × Signature)} {file : CompiledFile},
      Compile.file source natives = .ok file →
      ∀ program, file.program.Contains program → program.JumpsInside) ∧
    ∀ {env : EnvRef} {next : Option Instr} {world : World}, Interpreter.Reached env next world →
      ∃ found : Env, world.env? env = some found ∧
        (((world.thread found.thread).signal ≠ .none ∧ next = none) ∨
          ((world.thread found.thread).signal = .none ∧ next = found.program.instr? found.ip ∧
            found.ip ≤ found.program.lines.size ∧
            (next = none → found.program.lines.size ≤ found.ip))) := by
  constructor
  · intro source natives file compiled program contains
    obtain ⟨level, typed⟩ := Compile.file_typed compiled
    obtain ⟨base, entry, typed⟩ := typed.program.contains contains
    exact typed.jumpsInside
  · intro env next world reached
    obtain ⟨now, rfl, activation, blocks, layers, within, place⟩ := reached.at
    obtain ⟨known, isKnown, program, thread⟩ := within.known
    obtain ⟨-, found, present, sound⟩ := now.sound.envs env known isKnown
    have sameThread : found.thread = activation.thread := sound.thread.trans thread
    have sameProgram : found.program = activation.program := sound.program.trans program
    refine ⟨found, present, ?_⟩
    rw [sameThread, sameProgram]
    rcases place with ⟨none, signal, -⟩ | ⟨signal, isNext, lands⟩
    · exact .inl ⟨signal, none⟩
    · have ip : now.world.ip env = found.ip := by simp [World.ip, present]
      rw [within.instr?, ip] at isNext
      have inside : found.ip ≤ activation.program.lines.size := by
        rw [activation.lands] at lands
        simpa [ip, activation.length] using lands.le
      refine .inr ⟨signal, isNext, inside, fun isNone => ?_⟩
      rw [isNone] at isNext
      simpa [Program.instr?] using isNext.symm

def loopedTask : SourceFile :=
  let define : Stmt := .assign [.ident ⟨"x", {}⟩] .define [.int 1 {}] {}
  let start : Stmt := .go (.call (.ident ⟨"println", {}⟩) [.ident ⟨"x", {}⟩] false {}) {}
  [.func ⟨"main", {}⟩ {} (.mk [.forLoop none none none
    (.mk [define, start, .branch .break none {}] {}) {}] {}) {}]

def taskWatch : Watch := fun _ next _ =>
  match next with
  | some (.go _) => true
  | _ => false

def loopedTaskWatched : Interpreter :=
  { ((Interpreter.new {}).load 50 loopedTask).2 with watch := taskWatch }

theorem loopedTask_reached [Natives] : ∃ env call world middle last,
    Interpreter.Reached env (some (.go call)) world ∧ world.outer? env = some middle ∧
      world.outer? middle = some last ∧ world.outer? last = none := by
  have session : loopedTaskWatched.Session [] :=
    .watch taskWatch (.load (.new {}) (by decide +kernel))
  have stops : ∃ env call world middle last, (loopedTaskWatched.call 50 "main" []).1 =
      .error (.broken (.watched env (some (.go call)) world)) ∧ world.outer? env = some middle ∧
        world.outer? middle = some last ∧ world.outer? last = none :=
    ⟨_, _, _, _, _, by cbv, rfl, rfl, rfl⟩
  obtain ⟨env, call, world, middle, last, stopped, ways⟩ := stops
  exact ⟨env, call, world, middle, last, .call session (by simp [Interpreter.Usable]) stopped, ways⟩

theorem jumps_inside_looped_task :
    (∃ file, Compile.file loopedTask [] = .ok file ∧
      ∀ program, file.program.Contains program → program.JumpsInside) ∧
    ∃ (_ : Natives) (env : EnvRef) (call : Call) (world : World) (found : Env),
      Interpreter.Reached env (some (.go call)) world ∧ world.env? env = some found ∧
        some (.go call) = found.program.instr? found.ip := by
  let natives : Natives := ⟨fun _ => none⟩
  obtain ⟨compiles, stands⟩ := jumps_inside
  have compiled : ∃ file, Compile.file loopedTask [] = .ok file := ⟨_, by cbv⟩
  obtain ⟨file, compiled⟩ := compiled
  obtain ⟨env, call, world, -, -, reached, -⟩ := loopedTask_reached
  obtain ⟨found, present, ⟨-, none⟩ | ⟨-, isNext, -⟩⟩ := stands reached
  · simp at none
  · exact ⟨⟨file, compiled, compiles compiled⟩, natives, env, call, world, found, reached, present,
      isNext⟩

end MiniGo
