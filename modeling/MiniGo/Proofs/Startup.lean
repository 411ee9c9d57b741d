import MiniGo.Proofs.Soundness
/-!
What the program of a file consists of. It binds the functions, then gives the variables their initial
values, then calls the `init` functions, each in the order of the source. Every name keeps the slot it
is declared with, and no two functions and no variable share one.
-/

namespace MiniGo

def Slot.Beyond (slot : Slot) (frame : Frame) : Prop :=
  match slot.slotClass with
  | .object => frame.objects ≤ slot.index
  | .word => frame.words ≤ slot.index

theorem Slot.Beyond.sooner {slot : Slot} {base after : Frame} (beyond : slot.Beyond after)
    (objects : base.objects ≤ after.objects) (words : base.words ≤ after.words) :
    slot.Beyond base := by
  unfold Slot.Beyond at *
  split at beyond <;> omega

namespace Frame

variable {base frame after : Frame} {name : String} {span : Span}

def Names (frame : Frame) (name : String) : Option Slot → Prop
  | none => name = "_"
  | some slot => (name, Symbol.var slot) ∈ frame.symbols

/-- More is declared in a frame: what has been declared keeps its meaning, and a new variable has a new
slot. -/
structure Widens (base after : Frame) : Prop where
  objects : base.objects ≤ after.objects
  words : base.words ≤ after.words
  keeps : ∀ name symbol, base.symbol? name = some symbol → after.symbol? name = some symbol
  old : ∀ entry ∈ base.symbols, entry ∈ after.symbols
  new : ∀ name slot, (name, Symbol.var slot) ∈ after.symbols →
    (name, Symbol.var slot) ∈ base.symbols ∨ (name ≠ "_" ∧ slot.Beyond base)

namespace Widens

theorem refl (frame : Frame) : frame.Widens frame :=
  ⟨Nat.le_refl _, Nat.le_refl _, fun _ _ => id, fun _ => id, fun _ _ => .inl⟩

theorem trans {middle : Frame} (left : base.Widens middle) (right : middle.Widens after) :
    base.Widens after where
  objects := Nat.le_trans left.objects right.objects
  words := Nat.le_trans left.words right.words
  keeps name symbol found := right.keeps name symbol (left.keeps name symbol found)
  old entry member := right.old entry (left.old entry member)
  new name slot member := by
    rcases right.new name slot member with early | ⟨named, beyond⟩
    · exact left.new name slot early
    · exact .inr ⟨named, beyond.sooner left.objects left.words⟩

theorem entered {symbol : Symbol} (fresh : frame.symbol? name = none) (named : name ≠ "_")
    (objects : frame.objects ≤ after.objects) (words : frame.words ≤ after.words)
    (symbols : after.symbols = (name, symbol) :: frame.symbols)
    (beyond : ∀ slot, symbol = .var slot → slot.Beyond frame) : frame.Widens after where
  objects := objects
  words := words
  keeps other found isFound := by
    simp only [symbol?, symbols, List.lookup_cons]
    split
    · next same =>
      obtain rfl := beq_iff_eq.mp same
      simp [fresh] at isFound
    · exact isFound
  old entry member := symbols ▸ .tail _ member
  new other slot member := by
    rw [symbols] at member
    rcases List.mem_cons.mp member with same | before
    · obtain ⟨rfl, rfl⟩ := Prod.mk.inj same
      exact .inr ⟨named, beyond slot rfl⟩
    · exact .inl before

end Widens

theorem declareSymbol_widens {symbol : Symbol} (notVar : ∀ slot, symbol ≠ .var slot)
    (compiled : frame.declareSymbol name symbol span = .ok after) : frame.Widens after := by
  unfold declareSymbol at compiled
  split at compiled
  · obtain rfl := by simpa only [Compiled.pure_eq_ok] using compiled
    exact .refl frame
  · next named =>
    split at compiled
    · simp at compiled
    · next fresh =>
      obtain rfl := by simpa only [Compiled.pure_eq_ok] using compiled
      exact .entered (by simpa using fresh) (by simpa using named) (Nat.le_refl _) (Nat.le_refl _) rfl
        fun slot same => absurd same (notVar slot)

/-- A variable of a type that has just been declared, in a slot that nobody has. -/
structure Placed (frame after : Frame) (name : String) (type : Ty) (slot : Slot) : Prop where
  named : name ≠ "_"
  object : type.isScalar = false → slot.slotClass = .object
  type : slot.type = type
  beyond : slot.Beyond frame
  inside : ¬slot.Beyond after
  symbol : after.symbol? name = some (.var slot)

theorem declareVar_widens {type : Ty} {slot : Option Slot}
    (compiled : frame.declareVar name type span = .ok (slot, after)) :
    frame.Widens after ∧ after.Names name slot ∧
      ∀ found, slot = some found → frame.Placed after name type found := by
  unfold declareVar at compiled
  split at compiled
  · next blank =>
    obtain ⟨rfl, rfl⟩ := by simpa only [Compiled.pure_eq_ok, Prod.mk.injEq] using compiled
    exact ⟨.refl frame, by simpa [Names] using blank, by simp⟩
  · next named =>
    split at compiled
    · simp at compiled
    · next fresh =>
      obtain ⟨rfl, rfl⟩ := by simpa only [Compiled.pure_eq_ok, Prod.mk.injEq] using compiled
      have shape : (frame.allocate type).2.symbols = frame.symbols ∧
          frame.objects ≤ (frame.allocate type).2.objects ∧
          frame.words ≤ (frame.allocate type).2.words ∧
          (frame.allocate type).1.type = type ∧
          (type.isScalar = false → (frame.allocate type).1.slotClass = .object) ∧
          (frame.allocate type).1.Beyond frame ∧
          ¬(frame.allocate type).1.Beyond (frame.allocate type).2 := by
        unfold allocate
        split <;> simp_all [Slot.Beyond]
      obtain ⟨symbols, objects, words, isType, object, beyond, inside⟩ := shape
      refine ⟨.entered (by simpa using fresh) (by simpa using named) objects words
        (by simp [symbols]; rfl) ?_, by simp [Names], ?_⟩
      · rintro _ ⟨⟩
        exact beyond
      · rintro _ ⟨⟩
        exact ⟨by simpa using named, object, isType, beyond, inside, by simp [symbol?]⟩

theorem Names.widens {slot : Option Slot} (names : base.Names name slot) (widens : base.Widens after) :
    after.Names name slot := by
  cases slot with
  | none => exact names
  | some slot => exact widens.old _ names

theorem declareVars_widens {entries : List (Ident × Ty)} {slots : List (Option Slot)}
    (compiled : frame.declareVars entries = .ok (slots, after)) :
    frame.Widens after ∧
      List.Forall₂ (fun (entry : Ident × Ty) slot => after.Names entry.1.name slot) entries slots ∧
      ∀ slot, some slot ∈ slots → slot.Beyond frame := by
  induction entries generalizing frame slots with
  | nil =>
    obtain ⟨rfl, rfl⟩ := by simpa only [declareVars, Compiled.pure_eq_ok, Prod.mk.injEq] using compiled
    exact ⟨.refl frame, .nil, by simp⟩
  | cons entry entries ih =>
    simp only [declareVars, Compiled.bind_eq_ok, Prod.exists, Compiled.pure_eq_ok, Prod.mk.injEq]
      at compiled
    obtain ⟨slot, middle, declared, rest, after, others, rfl, rfl⟩ := compiled
    obtain ⟨first, named, placed⟩ := declareVar_widens declared
    obtain ⟨second, names, beyond⟩ := ih others
    refine ⟨first.trans second, .cons (named.widens second) names, fun found member => ?_⟩
    rcases List.mem_cons.mp member with same | later
    · exact (placed found same.symm).beyond
    · exact (beyond found later).sooner first.objects first.words

def Declared (frame : Frame) (param : Option Ident × Ty) (slot : Option Slot) : Prop :=
  ∀ ident, param.1 = some ident → ident.isBlank = false →
    ∃ found, slot = some found ∧ found.type = param.2 ∧ frame.symbol? ident.name = some (.var found)

theorem Declared.widens {param : Option Ident × Ty} {slot : Option Slot}
    (declared : base.Declared param slot) (widens : base.Widens after) : after.Declared param slot := by
  intro ident isNamed named
  obtain ⟨found, same, type, symbol⟩ := declared ident isNamed named
  exact ⟨found, same, type, widens.keeps _ _ symbol⟩

theorem declareParams_widens {params : List (Option Ident × Ty)} {slots : List (Option Slot)}
    (compiled : frame.declareParams params = .ok (slots, after)) :
    frame.Widens after ∧ List.Forall₂ after.Declared params slots ∧ (slots.filterMap id).Nodup ∧
      ∀ slot, some slot ∈ slots → slot.Beyond frame := by
  induction params generalizing frame slots with
  | nil =>
    obtain ⟨rfl, rfl⟩ := by
      simpa only [declareParams, Compiled.pure_eq_ok, Prod.mk.injEq] using compiled
    exact ⟨.refl frame, .nil, .nil, by simp⟩
  | cons param params ih =>
    obtain ⟨ident, type⟩ := param
    cases ident with
    | none =>
      simp only [declareParams, Compiled.bind_eq_ok, Prod.exists, Compiled.pure_eq_ok, Prod.mk.injEq]
        at compiled
      obtain ⟨rest, after, others, rfl, rfl⟩ := compiled
      obtain ⟨widens, declared, distinct, beyond⟩ := ih others
      exact ⟨widens, .cons (by simp [Declared]) declared, by simpa using distinct,
        fun slot member => beyond slot (by simpa using member)⟩
    | some ident =>
      simp only [declareParams, Compiled.bind_eq_ok, Prod.exists, Compiled.pure_eq_ok, Prod.mk.injEq]
        at compiled
      obtain ⟨slot, middle, isSlot, rest, after, others, rfl, rfl⟩ := compiled
      obtain ⟨first, names, placed⟩ := declareVar_widens isSlot
      obtain ⟨second, declared, distinct, beyond⟩ := ih others
      refine ⟨first.trans second, .cons (Declared.widens ?_ second) declared, ?_, ?_⟩
      · rintro _ ⟨⟩ named
        cases slot with
        | none =>
          have blank : ident.isBlank = true := beq_iff_eq.mpr names
          simp [blank] at named
        | some slot => exact ⟨slot, rfl, (placed slot rfl).type, (placed slot rfl).symbol⟩
      · cases slot with
        | none => simpa using distinct
        | some slot =>
          refine List.nodup_cons.mpr ⟨fun member => (placed slot rfl).inside (beyond slot ?_), distinct⟩
          simpa using member
      · intro found member
        rcases List.mem_cons.mp member with same | later
        · exact (placed found same.symm).beyond
        · exact (beyond found later).sooner first.objects first.words

theorem lookup_vars {slot : Slot} (found : frame.symbol? name = some (.var slot)) :
    frame.vars.lookup name = some slot := by
  unfold symbol? at found
  unfold vars
  generalize frame.symbols = symbols at found
  induction symbols with
  | nil => simp at found
  | cons entry symbols ih =>
    obtain ⟨other, symbol⟩ := entry
    simp only [List.lookup_cons] at found
    split at found
    · next same =>
      obtain rfl := Option.some.inj found
      simp [List.lookup_cons, same]
    · next differs =>
      cases symbol with
      | var => simp [List.lookup_cons, differs, ih found]
      | const | type | builtin => simpa using ih found

theorem mem_vars {slot : Slot} :
    (name, slot) ∈ frame.vars ↔ (name, Symbol.var slot) ∈ frame.symbols := by
  simp only [vars, List.mem_filterMap, Prod.exists]
  constructor
  · rintro ⟨other, symbol, member, found⟩
    split at found
    · obtain ⟨rfl, rfl⟩ := by simpa using found
      exact member
    · simp at found
  · exact fun member => ⟨name, .var slot, member, rfl⟩

end Frame

namespace Compile

variable {outer : Scope} {frame after : Frame}

theorem typeSpecs_widens {specs : List TypeSpec} (compiled : typeSpecs outer frame specs = .ok after) :
    frame.Widens after := by
  induction specs generalizing frame with
  | nil =>
    obtain rfl := by simpa only [typeSpecs, Compiled.pure_eq_ok] using compiled
    exact .refl frame
  | cons spec specs ih =>
    simp only [typeSpecs, Compiled.bind_eq_ok] at compiled
    obtain ⟨type, -, middle, declared, compiled⟩ := compiled
    exact (Frame.declareSymbol_widens (by simp) declared).trans (ih compiled)

theorem constValues_widens {declared : Option Ty} {names : List Ident} {values : List Expr}
    (compiled : constValues outer frame declared names values = .ok after) : frame.Widens after := by
  induction values generalizing frame names with
  | nil =>
    obtain rfl := by simpa only [constValues, Compiled.pure_eq_ok] using compiled
    exact .refl frame
  | cons value values ih =>
    cases names with
    | nil =>
      obtain rfl := by simpa only [constValues, Compiled.pure_eq_ok] using compiled
      exact .refl frame
    | cons name names =>
      simp only [constValues, Compiled.bind_eq_ok, Prod.exists] at compiled
      obtain ⟨operand, -, constant, type, -, middle, declared, compiled⟩ := compiled
      exact (Frame.declareSymbol_widens (by simp) declared).trans (ih compiled)

theorem constSpecs_widens {specs : List ValueSpec}
    (compiled : constSpecs outer frame specs = .ok after) : frame.Widens after := by
  induction specs generalizing frame with
  | nil =>
    obtain rfl := by simpa only [constSpecs, Compiled.pure_eq_ok] using compiled
    exact .refl frame
  | cons spec specs ih =>
    obtain ⟨names, written, values, span⟩ := spec
    simp only [constSpecs] at compiled
    split at compiled
    · simp at compiled
    · simp only [Compiled.bind_eq_ok] at compiled
      obtain ⟨declared, -, middle, compiledFirst, compiled⟩ := compiled
      exact (constValues_widens compiledFirst).trans (ih compiled)

/-- The slots and the code of the initial values of a specification. -/
inductive Stores (frame : Frame) : ValueSpec → List (Option Slot) × Values → Prop
  | intro {before : Frame} {names : List Ident} {written : Option TypeExpr} {values : List Expr}
      {span : Span} {slots : List (Option Slot)} {codes : Values} {piece : Piece} :
    varSpecs [] before 0 [.mk names written values span] = .ok piece →
    piece.lines.map (·.instr) = [.init slots codes] →
    List.Forall₂ (fun (name : Ident) slot => frame.Names name.name slot) names slots →
    Stores frame (.mk names written values span) (slots, codes)

/-- The slot of the name of a function, and its code. -/
inductive Binds (frame : Frame) : Decl → Slot × Template → Prop
  | intro {name : Ident} {head : FuncHead} {body : Block} {span : Span} {slot : Slot}
      {template : Template} :
    (name.name, Symbol.var slot) ∈ frame.symbols →
    function [frame] head span body = .ok template →
    Binds frame (.func name head body span) (slot, template)

inductive Codes (frame : Frame) : Decl → Template → Prop
  | intro {name : Ident} {head : FuncHead} {body : Block} {span : Span} {template : Template} :
    function [frame] head span body = .ok template →
    Codes frame (.func name head body span) template

theorem Stores.widens {spec : ValueSpec} {entry : List (Option Slot) × Values}
    (stores : Stores frame spec entry) (widens : frame.Widens after) : Stores after spec entry := by
  obtain ⟨compiled, lines, names⟩ := stores
  exact .intro compiled lines (names.imp fun _ _ named => named.widens widens)

end Compile

structure Startup where
  binds : List (Slot × Template)
  vars : List (List (Option Slot) × Values)
  inits : List Template

namespace Startup

def binding (startup : Startup) : List Instr := startup.binds.map fun entry => .bind entry.1 entry.2

def storing (startup : Startup) : List Instr := startup.vars.map fun entry => .init entry.1 entry.2

def calling (startup : Startup) : List Instr := startup.inits.map .callInit

def slots (startup : Startup) : List Slot := startup.vars.flatMap fun entry => entry.1.filterMap id

end Startup

namespace Compile

variable {frame after : Frame}

theorem varSpecs_stores {here : Nat} {specs : List ValueSpec} {piece : Piece}
    (compiled : varSpecs [] frame here specs = .ok piece) :
    frame.Widens piece.frame ∧ ∃ vars : List (List (Option Slot) × Values),
      piece.lines.map (·.instr) = vars.map (fun entry => .init entry.1 entry.2) ∧
      List.Forall₂ (Stores piece.frame) specs vars ∧
      ∀ entry ∈ vars, ∀ slot, some slot ∈ entry.1 → slot.Beyond frame := by
  induction specs generalizing frame here piece with
  | nil =>
    obtain rfl := by simpa only [varSpecs, Compiled.pure_eq_ok] using compiled
    exact ⟨.refl frame, [], rfl, .nil, by simp⟩
  | cons spec specs ih =>
    obtain ⟨names, written, values, span⟩ := spec
    simp only [varSpecs, declareInit, Compiled.bind_eq_ok, Prod.exists, Compiled.pure_eq_ok] at compiled
    obtain ⟨declared, isDeclared, given, isGiven, types, codes, initial, first,
      ⟨slots, middle, each, rfl⟩, others, rest, rfl⟩ := compiled
    obtain ⟨left, named, beyond⟩ := Frame.declareVars_widens each
    obtain ⟨right, vars, lines, stores, later⟩ := ih rest
    have alone : varSpecs [] frame 0 [.mk names written values span] =
        .ok (((Piece.one middle (.init slots codes) span).toFragment ++
          (Piece.none middle).toFragment).within middle) := by
      simp only [varSpecs, declareInit, Compiled.bind_eq_ok, Prod.exists, Compiled.pure_eq_ok]
      exact ⟨declared, isDeclared, given, isGiven, types, codes, initial, _,
        ⟨slots, middle, each, rfl⟩, _, rfl, rfl⟩
    have names : List.Forall₂ (fun (name : Ident) slot => others.frame.Names name.name slot) names
        slots := by
      have same : (names.zip types).map Prod.fst = names :=
        List.map_fst_zip (Nat.le_of_eq (initValues_length initial).symm)
      rw [← same]
      exact List.forall₂_map_left_iff.mpr (named.imp fun _ _ names => names.widens right)
    refine ⟨left.trans right, (slots, codes) :: vars, ?_, .cons (.intro alone rfl names) stores, ?_⟩
    · simpa using lines
    · refine List.forall_mem_cons.mpr ⟨beyond, fun entry member slot isSlot => ?_⟩
      exact (later entry member slot isSlot).sooner left.objects left.words

end Compile

def SourceFile.variables (source : SourceFile) : List ValueSpec :=
  source.flatMap fun
    | .var specs _ => specs
    | _ => []

namespace Compile

variable {frame : Frame}

theorem fileVars_stores {source : SourceFile} {piece : Piece}
    (compiled : fileVars frame source = .ok piece) :
    frame.Widens piece.frame ∧ ∃ vars : List (List (Option Slot) × Values),
      piece.lines.map (·.instr) = vars.map (fun entry => .init entry.1 entry.2) ∧
      List.Forall₂ (Stores piece.frame) source.variables vars ∧
      ∀ entry ∈ vars, ∀ slot, some slot ∈ entry.1 → slot.Beyond frame := by
  induction source generalizing frame piece with
  | nil =>
    obtain rfl := by simpa only [fileVars, Compiled.pure_eq_ok] using compiled
    exact ⟨.refl frame, [], rfl, .nil, by simp⟩
  | cons declaration source ih =>
    cases declaration with
    | var specs _ =>
      simp only [fileVars, Compiled.bind_eq_ok, Compiled.pure_eq_ok] at compiled
      obtain ⟨first, compiledFirst, others, compiledOthers, rfl⟩ := compiled
      obtain ⟨left, vars, lines, stores, beyond⟩ := varSpecs_stores compiledFirst
      obtain ⟨right, more, moreLines, moreStores, later⟩ := ih compiledOthers
      refine ⟨left.trans right, vars ++ more, ?_,
        List.rel_append (stores.imp fun _ _ stores => stores.widens right) moreStores, ?_⟩
      · simp [lines, moreLines]
      · refine List.forall_mem_append.mpr ⟨beyond, fun entry member slot isSlot => ?_⟩
        exact (later entry member slot isSlot).sooner left.objects left.words
    | const | type | func => exact ih (by simpa only [fileVars] using compiled)

end Compile

def Decl.isNamed : Decl → Bool
  | .func name _ _ _ => name.name != "init" && name.name != "_"
  | _ => false

def Decl.isInit : Decl → Bool
  | .func name _ _ _ => name.name == "init"
  | _ => false

/-- A function that is declared, and where its name is. -/
inductive FileFunc.Of (frame : Frame) : Decl → FileFunc → Prop
  | intro {name : Ident} {head : FuncHead} {body : Block} {span : Span} {slot : Option Slot} :
    frame.Names name.name slot → FileFunc.Of frame (.func name head body span) ⟨slot, head, body, span⟩

theorem FileFunc.Of.widens {frame after : Frame} {declaration : Decl} {func : FileFunc}
    (isFunc : FileFunc.Of frame declaration func) (widens : frame.Widens after) :
    FileFunc.Of after declaration func := by
  obtain ⟨named⟩ := isFunc
  exact .intro (named.widens widens)

namespace FileScope

/-- The first pass has gone over some declarations. -/
structure Arranged (scope : FileScope) (source : SourceFile) : Prop where
  funcs : List.Forall₂ (FileFunc.Of scope.frame) (source.filter Decl.isNamed)
    (scope.funcs.filter (·.slot.isSome))
  inits : List.Forall₂ (fun declaration func => ∃ name,
    declaration = Decl.func name func.head func.body func.span) (source.filter Decl.isInit) scope.inits
  distinct : (scope.funcs.filterMap (·.slot)).Pairwise (·.index ≠ ·.index)
  inside : ∀ slot ∈ scope.funcs.filterMap (·.slot),
    slot.slotClass = .object ∧ slot.index < scope.frame.objects

variable {scope after : FileScope} {source : SourceFile}

theorem Arranged.widens {frame : Frame} {declaration : Decl} (arranged : scope.Arranged source)
    (widens : scope.frame.Widens frame) (unnamed : declaration.isNamed = false)
    (notInit : declaration.isInit = false) :
    Arranged { scope with frame } (source ++ [declaration]) := by
  refine ⟨?_, ?_, arranged.distinct, fun slot member => ?_⟩
  · simp only [List.filter_append, List.filter_cons, unnamed, Bool.false_eq_true, if_false,
      List.filter_nil, List.append_nil]
    exact arranged.funcs.imp fun _ _ isFunc => isFunc.widens widens
  · simpa only [List.filter_append, List.filter_cons, notInit, Bool.false_eq_true, if_false,
      List.filter_nil, List.append_nil] using arranged.inits
  · obtain ⟨isObject, less⟩ := arranged.inside slot member
    exact ⟨isObject, Nat.lt_of_lt_of_le less widens.objects⟩

theorem Arranged.addFunc {name : Ident} {head : FuncHead} {body : Block} {span : Span}
    (arranged : scope.Arranged source)
    (compiled : scope.addFunc name head body span = .ok after) :
    scope.frame.Widens after.frame ∧ after.Arranged (source ++ [.func name head body span]) := by
  unfold FileScope.addFunc at compiled
  split at compiled
  · next isInit =>
    split at compiled
    · obtain rfl := by simpa only [Compiled.pure_eq_ok] using compiled
      have unnamed : Decl.isNamed (.func name head body span) = false := by
        simp [Decl.isNamed, beq_iff_eq.mp isInit]
      refine ⟨.refl _, ?_, ?_, arranged.distinct, arranged.inside⟩
      · simpa [List.filter_append, unnamed] using arranged.funcs
      · rw [List.filter_append]
        refine List.rel_append arranged.inits ?_
        simp only [List.filter_cons, Decl.isInit, isInit, if_true, List.filter_nil]
        exact .cons ⟨name, rfl⟩ .nil
    · simp at compiled
  · next notInit =>
    simp only [Compiled.bind_eq_ok, Prod.exists, Compiled.pure_eq_ok] at compiled
    obtain ⟨signature, -, slot, frame, declared, rfl⟩ := compiled
    obtain ⟨widens, named, placed⟩ := Frame.declareVar_widens declared
    have noInit : Decl.isInit (.func name head body span) = false := by simpa [Decl.isInit] using notInit
    have before : ∀ old ∈ scope.funcs.filterMap (·.slot),
        old.slotClass = .object ∧ old.index < scope.frame.objects := arranged.inside
    refine ⟨widens, ?_, ?_, ?_, ?_⟩
    · rw [List.filter_append, List.filter_append]
      refine List.rel_append (arranged.funcs.imp fun _ _ isFunc => isFunc.widens widens) ?_
      cases slot with
      | none =>
        have blank : name.name = "_" := named
        simp [Decl.isNamed, blank]
      | some slot =>
        have isNamed : Decl.isNamed (.func name head body span) = true := by
          simpa [Decl.isNamed, (placed slot rfl).named] using notInit
        simp only [List.filter_cons, isNamed, Option.isSome_some, if_true, List.filter_nil]
        exact .cons (.intro named) .nil
    · simpa [List.filter_append, noInit] using arranged.inits
    · rw [List.filterMap_append]
      refine List.pairwise_append.mpr ⟨arranged.distinct, ?_, fun old isOld found isFound => ?_⟩
      · cases slot <;> simp
      · have isSlot : slot = some found := by simpa using isFound
        have beyond := (placed found isSlot).beyond
        simp only [Slot.Beyond, (placed found isSlot).object rfl] at beyond
        exact Nat.ne_of_lt (Nat.lt_of_lt_of_le (arranged.inside old isOld).2 beyond)
    · intro found member
      rw [List.filterMap_append, List.mem_append] at member
      rcases member with isOld | isNew
      · obtain ⟨isObject, less⟩ := arranged.inside found isOld
        exact ⟨isObject, Nat.lt_of_lt_of_le less widens.objects⟩
      · have isSlot : slot = some found := by simpa using isNew
        have inside := (placed found isSlot).inside
        have isObject := (placed found isSlot).object rfl
        simp only [Slot.Beyond, isObject, Nat.not_le] at inside
        exact ⟨isObject, inside⟩

theorem Arranged.declareAll {done : SourceFile} (arranged : scope.Arranged done)
    (compiled : scope.declareAll source = .ok after) :
    scope.frame.Widens after.frame ∧ after.Arranged (done ++ source) := by
  induction source generalizing scope done with
  | nil =>
    obtain rfl := by simpa only [FileScope.declareAll, Compiled.pure_eq_ok] using compiled
    exact ⟨.refl _, by simpa using arranged⟩
  | cons declaration source ih =>
    rw [List.append_cons]
    have goes {middle : FileScope} (widens : scope.frame.Widens middle.frame)
        (arranged : middle.Arranged (done ++ [declaration]))
        (compiled : middle.declareAll source = .ok after) :
        scope.frame.Widens after.frame ∧ after.Arranged (done ++ [declaration] ++ source) := by
      obtain ⟨more, final⟩ := ih arranged compiled
      exact ⟨widens.trans more, final⟩
    cases declaration with
    | type specs _ =>
      simp only [FileScope.declareAll, pure_bind, Compiled.bind_eq_ok] at compiled
      obtain ⟨frame, declared, compiled⟩ := compiled
      have widens := Compile.typeSpecs_widens declared
      exact @goes { scope with frame } widens (arranged.widens widens rfl rfl) compiled
    | const specs _ =>
      simp only [FileScope.declareAll, pure_bind, Compiled.bind_eq_ok] at compiled
      obtain ⟨frame, declared, compiled⟩ := compiled
      have widens := Compile.constSpecs_widens declared
      exact @goes { scope with frame } widens (arranged.widens widens rfl rfl) compiled
    | func name head body span =>
      simp only [FileScope.declareAll, Compiled.bind_eq_ok] at compiled
      obtain ⟨middle, added, compiled⟩ := compiled
      obtain ⟨widens, arranged⟩ := arranged.addFunc added
      exact goes widens arranged compiled
    | var specs _ =>
      simp only [FileScope.declareAll, pure_bind] at compiled
      exact goes (.refl _) (arranged.widens (.refl _) rfl rfl) compiled

theorem declareNatives_widens {natives : List (String × Signature)}
    (compiled : scope.declareNatives natives = .ok after) :
    scope.frame.Widens after.frame ∧ after.funcs = scope.funcs ∧ after.inits = scope.inits ∧
      ∀ native ∈ natives, native.1 ≠ "_" → ∃ slot : Slot, slot.type = native.2.toTy ∧
        ¬slot.Beyond after.frame ∧ after.frame.symbol? native.1 = some (.var slot) := by
  induction natives generalizing scope with
  | nil =>
    obtain rfl := by simpa only [FileScope.declareNatives, Compiled.pure_eq_ok] using compiled
    exact ⟨.refl _, rfl, rfl, by simp⟩
  | cons native natives ih =>
    simp only [FileScope.declareNatives, Compiled.bind_eq_ok, Prod.exists] at compiled
    obtain ⟨slot, frame, declared, compiled⟩ := compiled
    obtain ⟨first, named, placed⟩ := Frame.declareVar_widens declared
    obtain ⟨rest, funcs, inits, others⟩ := ih compiled
    refine ⟨first.trans rest, funcs, inits, List.forall_mem_cons.mpr ⟨fun isName => ?_, others⟩⟩
    cases slot with
    | none => exact absurd named isName
    | some slot =>
      have isPlaced := placed slot rfl
      refine ⟨slot, isPlaced.type, fun beyond => ?_, rest.keeps _ _ isPlaced.symbol⟩
      exact isPlaced.inside (beyond.sooner rest.objects rest.words)

end FileScope

namespace Compile

variable {frame : Frame}

theorem fileFuncs_binds {declarations : List Decl} {funcs : List FileFunc} {fragment : Fragment}
    (are : List.Forall₂ (FileFunc.Of frame) declarations (funcs.filter (·.slot.isSome)))
    (compiled : fileFuncs [frame] (fun slot template => slot.map (.bind · template)) funcs =
      .ok fragment) :
    ∃ binds : List (Slot × Template),
      fragment.lines.map (·.instr) = binds.map (fun entry => .bind entry.1 entry.2) ∧
      List.Forall₂ (Binds frame) declarations binds ∧
      binds.map (·.1) = funcs.filterMap (·.slot) ∧
      ∀ func ∈ funcs, ∀ slot template, func.slot = some slot →
        function [frame] func.head func.span func.body = .ok template → (slot, template) ∈ binds := by
  induction funcs generalizing declarations fragment with
  | nil =>
    obtain rfl := by simpa only [fileFuncs, Compiled.pure_eq_ok] using compiled
    cases are
    exact ⟨[], rfl, .nil, rfl, by simp⟩
  | cons func funcs ih =>
    simp only [fileFuncs, Compiled.bind_eq_ok, Compiled.pure_eq_ok] at compiled
    obtain ⟨template, compiledFunc, others, compiledOthers, rfl⟩ := compiled
    cases isSlot : func.slot with
    | none =>
      simp only [List.filter_cons, isSlot, Option.isSome_none, Bool.false_eq_true, if_false] at are
      obtain ⟨binds, lines, are, slots, all⟩ := ih are compiledOthers
      exact ⟨binds, by simpa using lines, are, by simpa [isSlot] using slots,
        List.forall_mem_cons.mpr ⟨by simp [isSlot], all⟩⟩
    | some slot =>
      simp only [List.filter_cons, isSlot, Option.isSome_some, if_true] at are
      cases are with
      | cons isFunc are =>
        obtain ⟨binds, lines, are, slots, all⟩ := ih are compiledOthers
        obtain ⟨named⟩ := isFunc
        obtain rfl : _ = some slot := isSlot
        refine ⟨(slot, template) :: binds, by simpa using lines, .cons (.intro named compiledFunc) are,
          by simpa using slots, List.forall_mem_cons.mpr ⟨?_, fun func member slot template same found =>
            .tail _ (all func member slot template same found)⟩⟩
        rintro _ found ⟨⟩ isFound
        obtain rfl := Except.ok.inj (compiledFunc.symm.trans isFound)
        exact .head _

theorem fileFuncs_codes {declarations : List Decl} {funcs : List FileFunc} {fragment : Fragment}
    (are : List.Forall₂ (fun declaration func => ∃ name,
      declaration = Decl.func name func.head func.body func.span) declarations funcs)
    (compiled : fileFuncs [frame] (fun _ template => some (.callInit template)) funcs =
      .ok fragment) :
    ∃ inits : List Template, fragment.lines.map (·.instr) = inits.map .callInit ∧
      List.Forall₂ (Codes frame) declarations inits := by
  induction are generalizing fragment with
  | nil =>
    obtain rfl := by simpa only [fileFuncs, Compiled.pure_eq_ok] using compiled
    exact ⟨[], rfl, .nil⟩
  | cons isFunc _ ih =>
    simp only [fileFuncs, Compiled.bind_eq_ok, Compiled.pure_eq_ok] at compiled
    obtain ⟨template, compiledFunc, others, compiledOthers, rfl⟩ := compiled
    obtain ⟨inits, lines, are⟩ := ih compiledOthers
    obtain ⟨name, rfl⟩ := isFunc
    exact ⟨template :: inits, by simpa using lines, .cons (.intro compiledFunc) are⟩

end Compile

/-- What is done when a file is loaded, in this order: functions are bound, variables are given their
initial values, and `init` functions are called, each in the order of the source. -/
structure Startup.Of (startup : Startup) (source : SourceFile) (file : CompiledFile) : Prop where
  program : file.program.lines.toList.map (·.instr) =
    startup.binding ++ startup.storing ++ startup.calling
  parts : ∃ frame : Frame, frame.vars = file.symbols ∧
    List.Forall₂ (Compile.Binds frame) (source.filter Decl.isNamed) startup.binds ∧
    List.Forall₂ (Compile.Stores frame) source.variables startup.vars ∧
    List.Forall₂ (Compile.Codes frame) (source.filter Decl.isInit) startup.inits

/-- Functions have slots of their own, and variables have others than functions and the functions of
the host. -/
structure Startup.Apart (startup : Startup) (file : CompiledFile) (natives : List (String × Signature)) :
    Prop where
  functions : startup.binds.Pairwise (·.1.index ≠ ·.1.index)
  objects : ∀ entry ∈ startup.binds, entry.1.slotClass = .object ∧ entry.1.index < file.objects
  vars : ∀ entry ∈ startup.binds, ∀ slot ∈ startup.slots,
    ¬(slot.slotClass = entry.1.slotClass ∧ slot.index = entry.1.index)
  natives : ∀ native ∈ natives, ∀ found, file.symbols.lookup native.1 = some found →
    found.type = native.2.toTy ∧ ∀ slot ∈ startup.slots,
      ¬(slot.slotClass = found.slotClass ∧ slot.index = found.index)
  kinds : ∀ slot ∈ startup.slots, (slot.slotClass = .word ↔ slot.type.isScalar = true)

namespace Compile

theorem file_startup {source : SourceFile} {natives : List (String × Signature)} {file : CompiledFile}
    (compiled : Compile.file source natives = .ok file) :
    ∃ (startup : Startup) (level : Level), startup.Of source file ∧ startup.Apart file natives ∧
      level.frame.objects = file.objects ∧ level.frame.words = file.words ∧
      level.frame.vars = file.symbols ∧
      ∀ strict : Prop, ProperIf strict source.heads →
        (strict → file.strings = [] ∧ ∀ entry ∈ startup.binds,
          entry.2.signature.toTy = entry.1.type) →
        ProgramTyped strict 0 file.program [{ level }] := by
  have whole := compiled
  simp only [Compile.file, Compiled.bind_eq_ok, Compiled.pure_eq_ok] at compiled
  obtain ⟨first, declaredNatives, scope, declared, vars, compiledVars, binds, compiledBinds, inits,
    compiledInits, rfl⟩ := compiled
  have sound (strict : Prop) (proper : ProperIf strict source.heads) : scope.Sound strict :=
    (FileScope.Sound.declareNatives ⟨⟨[], .refl _⟩, by simp, by simp, by simp⟩
      declaredNatives).declareAll proper declared
  obtain ⟨level, levelFrame, covers, -⟩ := file_layout (sound False False.elim) compiledVars
  obtain ⟨early, noFuncs, noInits, given⟩ := FileScope.declareNatives_widens declaredNatives
  have none : first.Arranged [] := by
    refine ⟨?_, ?_, ?_, ?_⟩ <;> simp [noFuncs, noInits]
  obtain ⟨middle, arranged⟩ := none.declareAll declared
  obtain ⟨late, stored, storing, stores, beyond⟩ := fileVars_stores compiledVars
  obtain ⟨bound, binding, are, slots, all⟩ := fileFuncs_binds
    (arranged.funcs.imp fun _ _ isFunc => isFunc.widens late) compiledBinds
  obtain ⟨called, calling, codes⟩ := fileFuncs_codes arranged.inits compiledInits
  have distant {slot other : Slot} (far : slot.Beyond scope.frame) (near : ¬other.Beyond scope.frame) :
      ¬(slot.slotClass = other.slotClass ∧ slot.index = other.index) := by
    rintro ⟨sameClass, sameIndex⟩
    exact near (by simpa only [Slot.Beyond, sameClass, sameIndex] using far)
  have ofVars {slot : Slot} (member : slot ∈ (Startup.mk bound stored called).slots) :
      slot.Beyond scope.frame := by
    simp only [Startup.slots, List.mem_flatMap, List.mem_filterMap, id_eq] at member
    obtain ⟨entry, isEntry, _, isSlot, rfl⟩ := member
    exact beyond entry isEntry slot isSlot
  have ofBinds {entry : Slot × Template} (member : entry ∈ bound) :
      entry.1.slotClass = .object ∧ entry.1.index < scope.frame.objects :=
    arranged.inside entry.1 (slots ▸ List.mem_map_of_mem member)
  refine ⟨⟨bound, stored, called⟩, level, ⟨?_, vars.frame, rfl, are, stores, codes⟩, ⟨?_, ?_, ?_, ?_, ?_⟩,
    by rw [levelFrame], by rw [levelFrame], by rw [levelFrame],
    fun strict proper holds => ?_⟩
  · simp [Startup.binding, Startup.storing, Startup.calling, binding, storing, calling]
  · have distinct := slots ▸ arranged.distinct
    rwa [List.pairwise_map] at distinct
  · intro entry member
    exact ⟨(ofBinds member).1, Nat.lt_of_lt_of_le (ofBinds member).2 late.objects⟩
  · intro entry member slot isSlot
    refine distant (ofVars isSlot) ?_
    simpa [Slot.Beyond, (ofBinds member).1] using (ofBinds member).2
  · intro native member found isFound
    have blank : native.1 ≠ "_" := by
      intro isBlank
      obtain ⟨before, after, same, -⟩ := List.lookup_eq_some_iff.mp isFound
      have named : (native.1, found) ∈ vars.frame.vars := by
        rw [show vars.frame.vars = _ from same]
        simp
      rcases ((early.trans middle).trans late).new _ _ (Frame.mem_vars.mp named) with old | ⟨isName, -⟩
      · simp at old
      · exact isName isBlank
    obtain ⟨slot, isType, inside, symbol⟩ := given native member blank
    have lasts := (middle.trans late).keeps _ _ symbol
    obtain rfl := Option.some.inj ((Frame.lookup_vars lasts).symm.trans isFound)
    refine ⟨isType, fun other isOther => distant (ofVars isOther) fun far => ?_⟩
    exact inside (far.sooner middle.objects middle.words)
  · intro slot member
    simp only [Startup.slots, List.mem_flatMap, List.mem_filterMap, id_eq] at member
    obtain ⟨_, isEntry, _, isSlot, rfl⟩ := member
    obtain ⟨_, -, _, _, names⟩ := exists_of_forall₂ stores.flip isEntry
    obtain ⟨name, -, named⟩ := exists_of_forall₂ names.flip isSlot
    have has : level.Has slot := (level.named name.name slot (levelFrame ▸ named)).1
    cases slotClass : slot.slotClass with
    | word => simpa using has.scalar slotClass
    | object => simpa using has.boxed slotClass
  · refine program_typed (sound strict proper) proper ?_ ?_ compiledVars compiledBinds compiledInits
      rfl (fun _ isVars => .file whole
        (.mk declaredNatives declared compiledVars compiledBinds compiledInits isVars)) levelFrame
    · intro isStrict name slot named isString
      have isVar := Frame.mem_vars.mpr named
      have none := List.filter_eq_nil_iff.mp (holds isStrict).1 slot (List.mem_map_of_mem isVar)
      simp [isString] at none
    · intro isStrict func member slot template isSlot compiledFunc
      exact (holds isStrict).2 _ (all func member slot template isSlot compiledFunc)

end Compile

end MiniGo
