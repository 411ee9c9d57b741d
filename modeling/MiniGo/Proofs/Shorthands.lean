import MiniGo.Proofs.Parallel
/-!
Shorthands. An assignment with an operator does what the assignment written out does, which evaluates
the operands of its target twice: once for the place, and once for the value that is there.
-/

namespace MiniGo

variable {call : Caller} {env : EnvRef} {world : World}

def Outcome.Steady {α : Type} (world : World) : Outcome α → Prop
  | .done _ later => later = world
  | .await _ _ _ => False
  | _ => True

def CodeOf.Steady (call : Caller) (env : EnvRef) (world : World) (code : Code) : Prop :=
  (eval call env code world).Steady world

def PlaceOf.Steady (call : Caller) (env : EnvRef) (world : World) : Place → Prop
  | .element _ base index => base.Steady call env world ∧ index.Steady call env world
  | _ => True

def PlaceOf.reading : Place → Code
  | .slot hops named => .load hops named
  | .element (.map _ elem) base index => .mapIndex elem base index
  | .element _ base index => .sliceIndex base index
  | .blank => .const .nil

namespace Compile

variable {outer : Scope} {frame : Frame} {here : Nat} {labels : List String} {span : Span}
  {piece : Piece} {scope : Scope} {target node : Expr} {op : BinaryOp}

theorem expr_eq_reading {found : Place} {operand : Operand}
    (isPlace : place scope target = .ok found) (isValue : expr scope target = .ok operand) :
    ∃ type span, found.type? = some type ∧ operand = .single type found.reading span := by
  cases target with
  | ident name =>
    obtain ⟨hops, named, -, rfl, rfl⟩ := ident_eq_slot isPlace isValue
    exact ⟨named.type, name.span, rfl, rfl⟩
  | index base index span =>
    simp only [place, Compiled.bind_eq_ok, Compiled.pure_eq_ok] at isPlace
    simp only [expr, Compiled.bind_eq_ok] at isValue
    obtain ⟨container, isBase, type, isType, wanted, isWanted, position, isIndex, converted, done,
      rfl⟩ := isPlace
    obtain ⟨container', isBase', type', isType', wanted', isWanted', position', isIndex', converted',
      done', isElement⟩ := isValue
    obtain rfl := Except.ok.inj (isBase.symm.trans isBase')
    obtain rfl := Except.ok.inj (isType.symm.trans isType')
    obtain rfl := Except.ok.inj (isIndex.symm.trans isIndex')
    unfold elementIndexType at isWanted
    split at isWanted <;>
      simp only [Compiled.pure_eq_ok, fault_eq_ok, Operand.indexType] at isWanted isWanted'
    all_goals
      obtain rfl := isWanted.symm.trans isWanted'
      obtain rfl := Except.ok.inj (done.symm.trans done')
      simp only [Operand.element, Compiled.pure_eq_ok] at isElement
      exact ⟨_, span, rfl, isElement.symm⟩
  | _ => simp [place] at isPlace

theorem binary_converted {right operand result : Operand} {type : Ty} {code : Code}
    {leftSpan : Span} (plain : op.isComparison = false)
    (converted : right.convertTo type = .ok operand)
    (computed : (Operand.single type code leftSpan).binary op right span = .ok result) :
    result = .single type (.binary op code operand.toCode) span := by
  simp only [Operand.binary, Compiled.bind_eq_ok, Operand.type_eq_ok] at computed
  obtain ⟨⟨first, second⟩, unified, type', isType, _, -, _, -, computed⟩ := computed
  have same : first = .single type code leftSpan ∧ second = operand := by
    simp only [Operand.unify, Compiled.bind_eq_ok, Operand.type_eq_ok] at unified
    obtain ⟨_, ⟨⟩, other, isRight, unified⟩ := unified
    split at unified
    · rename_i same
      obtain ⟨rfl, rfl⟩ := Prod.mk.inj (Except.ok.inj unified)
      simp only [Operand.convertTo, Operand.type_eq_ok.mpr isRight, Compiled.bind_eq_ok] at converted
      obtain ⟨_, ⟨⟩, converted⟩ := converted
      rw [if_pos (by simpa using (beq_iff_eq.mp same).symm)] at converted
      exact ⟨rfl, Except.ok.inj converted⟩
    split at unified
    · rename_i isFloat
      simp only [Bool.and_eq_true, beq_iff_eq] at isFloat
      simp only [Compiled.bind_eq_ok, Compiled.pure_eq_ok] at unified
      obtain ⟨_, converted', unified⟩ := unified
      obtain ⟨rfl, rfl⟩ := Prod.mk.inj unified
      rw [isFloat.1.1] at converted
      exact ⟨rfl, Except.ok.inj (converted'.symm.trans converted)⟩
    split at unified
    · rename_i isConst
      simp [Operand.single, Operand.isConst, Operand.const?] at isConst
    split at unified
    · rename_i equality
      cases op <;> simp_all [BinaryOp.isComparison, BinaryOp.isEquality]
    · cases unified
  obtain ⟨rfl, rfl⟩ := same
  obtain rfl : type = type' := by simpa [Operand.single] using isType
  simp only [Operand.single, Operand.const?, plain, Bool.false_eq_true, if_false,
    Compiled.pure_eq_ok] at computed
  exact computed.symm

theorem update_line {found : Place} {type : Ty} {given : Operand} {fragment : Fragment}
    (isType : compoundType op found span = .ok type)
    (compiled : update op found type given span = .ok fragment) :
    found.type? = some type ∧ ∃ operand, given.convertTo type = .ok operand ∧
      fragment = .one (.update op found operand.toCode) span := by
  simp only [compoundType] at isType
  split at isType
  · simp at isType
  rename_i found known
  simp only [Compiled.bind_eq_ok, Compiled.pure_eq_ok] at isType
  obtain ⟨_, -, rfl⟩ := isType
  simp only [update, Compiled.bind_eq_ok, Compiled.pure_eq_ok] at compiled
  obtain ⟨operand, converted, rfl⟩ := compiled
  exact ⟨known, operand, converted, rfl⟩

theorem convertTo_span {operand result : Operand} {type : Ty}
    (converted : operand.convertTo type = .ok result) (span : Span) :
    Operand.convertTo { operand with span } type = .ok { result with span } := by
  simp only [Operand.convertTo, Compiled.bind_eq_ok, Operand.type_eq_ok] at converted ⊢
  obtain ⟨source, alone, converted⟩ := converted
  refine ⟨source, alone, ?_⟩
  split at converted
  · rw [if_pos ‹_›]
    cases converted
    rfl
  · rw [if_neg ‹_›]
    split at converted
    · cases converted
      rfl
    · split at converted
      · rw [if_pos ‹_›]
        cases converted
        rfl
      · cases converted

theorem compound_lines (compiled : stmt outer frame here labels
      (.assign [target] (.compound op) [node] span) = .ok piece) :
    ∃ found type given operand, place (frame :: outer) target = .ok found ∧
      found.type? = some type ∧ expr (frame :: outer) node = .ok given ∧
      given.convertTo type = .ok operand ∧ (op.isComparison || op.isLogical) = false ∧
      piece = .one frame (.update op found operand.toCode) span := by
  simp only [stmt] at compiled
  split at compiled
  · simp at compiled
  simp only [places, Compiled.bind_eq_ok, Compiled.pure_eq_ok] at compiled
  obtain ⟨⟨⟩, checked, _, ⟨found, isPlace, _, rfl, rfl⟩, compiled⟩ := compiled
  simp only [operands, Compiled.bind_eq_ok, Compiled.pure_eq_ok] at compiled
  obtain ⟨type, isType, _, ⟨given, isGiven, _, rfl, _, rfl, rfl⟩, compiled⟩ := compiled
  simp only [Compiled.bind_eq_ok, Compiled.pure_eq_ok] at compiled
  obtain ⟨_, isUpdate, rfl⟩ := compiled
  obtain ⟨known, operand, converted, rfl⟩ := update_line isType isUpdate
  exact ⟨found, type, given, operand, isPlace, known, isGiven, converted,
    checkCompound_plain checked, rfl⟩

theorem incDec_lines {increment : Bool} (oneSpan : Span)
    (compiled : stmt outer frame here labels (.incDec target increment span) = .ok piece) :
    ∃ found type operand, place (frame :: outer) target = .ok found ∧
      found.type? = some type ∧
      (Operand.const (.int 1) .int oneSpan).convertTo type = .ok operand ∧
      piece = .one frame (.update (if increment then .add else .sub) found operand.toCode) span := by
  simp only [stmt, Compiled.bind_eq_ok, Compiled.pure_eq_ok] at compiled
  obtain ⟨found, isPlace, type, isType, _, isUpdate, rfl⟩ := compiled
  obtain ⟨known, operand, converted, rfl⟩ := update_line isType isUpdate
  exact ⟨found, type, _, isPlace, known, convertTo_span converted oneSpan, rfl⟩

theorem single_lines (compiled : stmt outer frame here labels
      (.assign [target] .assign [node] span) = .ok piece) :
    ∃ found given sides values, place (frame :: outer) target = .ok found ∧
      expr (frame :: outer) node = .ok given ∧ Rhs.ofSingle given 1 span = .ok sides ∧
      sides.toValues [found.type?] span = .ok values ∧
      piece = .one frame (.assign [found] values) span := by
  simp only [stmt, places, assign, Compiled.bind_eq_ok, Compiled.pure_eq_ok] at compiled
  obtain ⟨_, ⟨found, isPlace, _, rfl, rfl⟩, sides, isRhs, _, ⟨values, toValues, rfl⟩, rfl⟩ := compiled
  have alone : rhs (frame :: outer) [found].length span [node] =
      expr (frame :: outer) node >>= (Rhs.ofSingle · 1 span) := by
    simp [rhs]
  rw [alone, Compiled.bind_eq_ok] at isRhs
  obtain ⟨given, isGiven, isSingle⟩ := isRhs
  exact ⟨found, given, sides, values, isPlace, isGiven, isSingle, toValues, rfl⟩

/-- The assignment written out becomes one instruction, which reads its place and applies the
operator. -/
theorem plain_lines {found : Place} {type : Ty} {given operand : Operand} {opSpan : Span}
    (isPlace : place (frame :: outer) target = .ok found) (isType : found.type? = some type)
    (isGiven : expr (frame :: outer) node = .ok given)
    (converted : given.convertTo type = .ok operand)
    (plain : (op.isComparison || op.isLogical) = false)
    (compiled : stmt outer frame here labels
      (.assign [target] .assign [.binary op target node opSpan] span) = .ok piece) :
    piece = .one frame
      (.assign [found] (.each [.binary op found.reading operand.toCode])) span := by
  obtain ⟨notComparison, notLogical⟩ := Bool.or_eq_false_iff.mp plain
  obtain ⟨found', sum, sides, values, isPlace', isSum, single, toValues, rfl⟩ := single_lines compiled
  obtain rfl := Except.ok.inj (isPlace.symm.trans isPlace')
  simp only [expr, isGiven, notLogical, Compiled.bind_eq_ok, Bool.false_eq_true, if_false] at isSum
  obtain ⟨value, isValue, _, ⟨⟩, computed⟩ := isSum
  obtain ⟨type', leftSpan, known, rfl⟩ := expr_eq_reading isPlace isValue
  obtain rfl : type = type' := by simpa [isType] using known
  obtain rfl := binary_converted notComparison converted computed
  obtain rfl := Except.ok.inj single
  simp only [Rhs.toValues, Rhs.convertTargets, isType, Compiled.bind_eq_ok, Compiled.pure_eq_ok]
    at toValues
  obtain ⟨_, ⟨_, stored, _, rfl, rfl⟩, rfl⟩ := toValues
  rw [toCode_convertTo (.inl rfl) stored]
  rfl

end Compile

section Steadiness

variable {α β : Type} {run : Run α} {next : α → Run β}

theorem Outcome.Steady.bind (first : (run world).Steady world)
    (second : ∀ value, run world = .done value world → (next value world).Steady world) :
    ((run >>= next) world).Steady world := by
  change (Run.bind run next world).Steady world
  rw [Run.bind_apply]
  cases ran : run world with
  | done value later =>
    obtain rfl : later = world := by rwa [ran] at first
    exact second value ran
  | fail | broken => trivial
  | await => rw [ran] at first; exact first

theorem Run.exists_done_of_bind {later : World} {value : β}
    (done : (run >>= next) world = .done value later) :
    ∃ first middle, run world = .done first middle ∧ next first middle = .done value later := by
  change Run.bind run next world = _ at done
  rw [Run.bind_apply] at done
  cases ran : run world with
  | done first middle => exact ⟨first, middle, rfl, by rwa [ran] at done⟩
  | fail | await | broken => rw [ran] at done; cases done

theorem Outcome.Steady.bind_congr {other : α → Run β} (first : (run world).Steady world)
    (same : ∀ value, run world = .done value world → next value world = other value world) :
    (run >>= next) world = (run >>= other) world := by
  change Run.bind run next world = Run.bind run other world
  rw [Run.bind_apply, Run.bind_apply]
  cases ran : run world with
  | done value later =>
    obtain rfl : later = world := by rwa [ran] at first
    exact same value ran
  | fail | broken => rfl
  | await => rw [ran] at first; exact first.elim

end Steadiness

namespace Location

variable {base index : Value} {key elem : Ty} {location : Location}

theorem load_item (is : base.Is (.slice elem))
    (found : element (.slice elem) base index = .ok location) :
    ∃ position, index.asInt = .ok position ∧ Run.sliceItem base position = location.load := by
  rcases is.eq_slice with rfl | ⟨ref, rfl⟩
  all_goals
    obtain ⟨position, isInt, same⟩ := Except.bind_eq_ok.mp found
    obtain rfl := Except.ok.inj same
    exact ⟨position, isInt, rfl⟩

theorem load_entry (is : base.Is (.map key elem))
    (found : element (.map key elem) base index = .ok location) :
    Run.mapEntry base index >>= (fun found => pure (found.getD (.zero elem))) = location.load := by
  rcases is.eq_map with rfl | ⟨ref, rfl⟩
  all_goals
    obtain rfl := Except.ok.inj found
    rfl

end Location

theorem CodeOf.Steady.element {container : Ty} {base index : Code} {location : Location}
    (isBase : base.Steady call env world) (isIndex : index.Steady call env world)
    (found : Location.ofPlace call env (.element container base index) world =
      .done location world) :
    ∃ baseValue indexValue, eval call env base world = .done baseValue world ∧
      eval call env index world = .done indexValue world ∧
      Location.element container baseValue indexValue = .ok location := by
  obtain ⟨baseValue, _, baseDone, rest⟩ := Run.exists_done_of_bind found
  rw [Steady, baseDone] at isBase
  obtain rfl := isBase
  obtain ⟨indexValue, _, indexDone, last⟩ := Run.exists_done_of_bind rest
  rw [Steady, indexDone] at isIndex
  obtain rfl := isIndex
  cases isElement : Location.element container baseValue indexValue with
  | error => rw [isElement] at last; cases last
  | ok location =>
    rw [isElement] at last
    cases last
    exact ⟨baseValue, indexValue, baseDone, indexDone, isElement⟩

theorem PlaceOf.Steady.ofPlace {place : Place} (steady : place.Steady call env world) :
    (Location.ofPlace call env place world).Steady world := by
  cases place with
  | slot | blank => rfl
  | element container base index =>
    refine steady.1.bind fun base _ => steady.2.bind fun index _ => ?_
    cases isElement : Location.element container base index with
    | error => trivial
    | ok location => rfl

section Running

variable [Natives] {now : Config True} {task : ThreadRef} {floor : Nat} {ctx : Ctx True}
  {place : Place}

theorem eval_is {code : Code} {type : Ty} {value : Value} {later : World} (safe : call.Safe True)
    (fits : CodeFits True ctx code type) (hosts : now.Hosts task floor env ctx.layers)
    (done : eval call env code now.world = .done value later) : value.Is type := by
  have meets := eval_meets safe code fits hosts
  rw [Run.Meets, done] at meets
  obtain ⟨_, _, _, _, _, inhabits⟩ := meets
  exact inhabits.2 trivial

theorem PlaceOf.Steady.eval_reading {targets : List (Option Ty)} {location : Location}
    (steady : place.Steady call env now.world) (safe : call.Safe True)
    (typed : PlacesTyped True ctx [place] targets) (notBlank : place ≠ .blank)
    (hosts : now.Hosts task floor env ctx.layers)
    (found : Location.ofPlace call env place now.world = .done location now.world) :
    eval call env place.reading now.world = location.load now.world := by
  cases typed with
  | fresh => cases found; rfl
  | cons typed =>
    cases typed with
    | known => cases found; rfl
    | blank => exact absurd rfl notBlank
    | item baseFits indexFits =>
      obtain ⟨base, index, isBase, isIndex, isElement⟩ := steady.1.element steady.2 found
      obtain ⟨position, isInt, same⟩ :=
        Location.load_item (eval_is safe baseFits hosts isBase) isElement
      have integer : Run.asInt index now.world = .done position now.world := by
        rw [Run.asInt, isInt]
        rfl
      rw [← same, PlaceOf.reading, eval, Run.bind_done isIndex, Run.bind_done integer,
        Run.bind_done isBase]
      intro key other isMap
      cases isMap
    | entry baseFits indexFits =>
      obtain ⟨base, index, isBase, isIndex, isElement⟩ := steady.1.element steady.2 found
      rw [← Location.load_entry (eval_is safe baseFits hosts isBase) isElement, PlaceOf.reading, eval,
        Run.bind_done isIndex, Run.bind_done isBase]

/-- Both instructions evaluate the operands of the place first. If this gives a location, what is there
is the left operand of both. -/
theorem PlaceOf.Steady.run_update {targets : List (Option Ty)} {op : BinaryOp} {operand : Code}
    (steady : place.Steady call env now.world) (safe : call.Safe True)
    (typed : PlacesTyped True ctx [place] targets) (notBlank : place ≠ .blank)
    (hosts : now.Hosts task floor env ctx.layers) (fuel : Nat) :
    Step.run call fuel env (.update op place operand) now.world =
      Step.run call fuel env (.assign [place] (.each [.binary op place.reading operand]))
        now.world := by
  simp only [Step.run, Location.ofPlaces, evalValues, evalAll, eval, bind_assoc, pure_bind,
    Location.storeAll]
  refine steady.ofPlace.bind_congr fun location found => ?_
  change Run.bind _ _ _ = Run.bind _ _ _
  rw [Run.bind_apply, Run.bind_apply, steady.eval_reading safe typed notBlank hosts found]

end Running

/-- Whoever is about to run one of the instructions, in a well-typed state, does the same with the
other one, provided that the operands of the place have no side effects: it fails with the same error,
or goes on with the same state. -/
def InstrOf.AgreesAt (instr other : Instr) (place : Place) : Prop :=
  ∀ [Natives] {call : Caller} {now : Config True} {task : ThreadRef} {env : EnvRef} (fuel : Nat),
    call.Safe True → now.About task env instr ∨ now.About task env other →
    place.Steady call env now.world →
    Step.run call fuel env instr now.world = Step.run call fuel env other now.world

theorem update_agrees {place : Place} (notBlank : place ≠ .blank) (op : BinaryOp) (operand : Code) :
    InstrOf.AgreesAt (.update op place operand)
      (.assign [place] (.each [.binary op place.reading operand])) place := by
  intro natives call now task env fuel safe about steady
  rcases about with about | about
  · obtain ⟨activation, here, hosts, typed⟩ := about.typed
    cases typed with
    | update typed => exact steady.run_update safe (.cons typed .nil) notBlank hosts fuel
  · obtain ⟨activation, here, hosts, typed⟩ := about.typed
    cases typed with
    | assign typed => exact steady.run_update safe typed notBlank hosts fuel

def CodeOf.onlyReads : Code → Bool
  | .const _ | .load _ _ | .builtin _ _ => true
  | .binary _ left right | .logical _ left right | .sliceIndex left right
  | .stringIndex left right | .mapIndex _ left right => left.onlyReads && right.onlyReads
  | .unary _ operand | .convert _ operand | .typeAssert _ operand | .length operand =>
    operand.onlyReads
  | _ => false

theorem Run.steady_ofExcept {α : Type} (result : Except RuntimeError α) :
    (Run.ofExcept result world).Steady world := by
  cases result with
  | ok => rfl
  | error => trivial

theorem Run.steady_tryRead {α : Type} (view : World → Except RuntimeError α) :
    (Run.tryRead view world).Steady world := by
  rw [Run.tryRead]
  cases view world with
  | ok => rfl
  | error => trivial

theorem Run.steady_sliceItem (base : Value) (index : Int64) :
    (Run.sliceItem base index world).Steady world := by
  unfold Run.sliceItem
  split
  · exact Run.steady_tryRead _
  · trivial

theorem Run.steady_mapEntry (base key : Value) : (Run.mapEntry base key world).Steady world := by
  unfold Run.mapEntry
  split
  · exact Run.steady_tryRead _
  · rfl

open Run in
theorem CodeOf.steady_of_onlyReads {code : Code} (only : code.onlyReads = true) :
    code.Steady call env world := by
  fun_induction CodeOf.onlyReads code with
  | case1 | case2 | case3 => rfl
  | case4 op left right ihLeft ihRight =>
    obtain ⟨isLeft, isRight⟩ := Bool.and_eq_true_iff.mp only
    exact (ihLeft isLeft).bind fun _ _ => (ihRight isRight).bind fun _ _ => steady_ofExcept _
  | case5 stop left right ihLeft ihRight =>
    obtain ⟨isLeft, isRight⟩ := Bool.and_eq_true_iff.mp only
    refine (ihLeft isLeft).bind fun _ _ => (steady_ofExcept _).bind fun _ _ => ?_
    split
    · rfl
    · exact ihRight isRight
  | case6 base index ihBase ihIndex =>
    obtain ⟨isBase, isIndex⟩ := Bool.and_eq_true_iff.mp only
    exact (ihIndex isIndex).bind fun _ _ => (steady_ofExcept _).bind fun _ _ =>
      (ihBase isBase).bind fun _ _ => steady_sliceItem _ _
  | case7 base index ihBase ihIndex =>
    obtain ⟨isBase, isIndex⟩ := Bool.and_eq_true_iff.mp only
    exact (ihBase isBase).bind fun _ _ => (steady_ofExcept _).bind fun _ _ =>
      (ihIndex isIndex).bind fun _ _ => (steady_ofExcept _).bind fun _ _ => steady_ofExcept _
  | case8 elem base key ihBase ihKey =>
    obtain ⟨isBase, isKey⟩ := Bool.and_eq_true_iff.mp only
    exact (ihKey isKey).bind fun _ _ => (ihBase isBase).bind fun _ _ =>
      (steady_mapEntry _ _).bind fun _ _ => rfl
  | case9 op operand ih => exact (ih only).bind fun _ _ => steady_ofExcept _
  | case10 target operand ih => exact (ih only).bind fun _ _ => rfl
  | case11 target operand ih =>
    refine (ih only).bind fun _ _ => ?_
    split
    · rfl
    · trivial
  | case12 operand ih =>
    exact (ih only).bind fun _ _ => (steady_tryRead _).bind fun _ _ => rfl
  | case13 => cases only

/-- Assignments with an operator are shorthands. They and the assignments written out become one
instruction each. Wherever a task is about to run one of the two, in a well-typed state, the other does
the same: it fails with the same error, or goes on with the same state. The operands of the target must
have no side effects, which holds if they only read and compute; the operand of the operator may have
any. -/
theorem shorthands_agree {outer : Scope} {frame : Frame} {here here' : Nat}
    {labels labels' : List String} {target : Expr} {span span' opSpan : Span} {piece piece' : Piece} :
    (∀ {op : BinaryOp} {node : Expr},
      Compile.stmt outer frame here labels (.assign [target] (.compound op) [node] span) =
        .ok piece →
      Compile.stmt outer frame here' labels'
        (.assign [target] .assign [.binary op target node opSpan] span') = .ok piece' →
      ∃ place instr other, Compile.place (frame :: outer) target = .ok place ∧
        piece = .one frame instr span ∧ piece' = .one frame other span' ∧
        instr.AgreesAt other place) ∧
    (∀ {increment : Bool} {oneSpan : Span},
      Compile.stmt outer frame here labels (.incDec target increment span) = .ok piece →
      Compile.stmt outer frame here' labels' (.assign [target] .assign
        [.binary (if increment then .add else .sub) target (.int 1 oneSpan) opSpan] span') =
          .ok piece' →
      ∃ place instr other, Compile.place (frame :: outer) target = .ok place ∧
        piece = .one frame instr span ∧ piece' = .one frame other span' ∧
        instr.AgreesAt other place) ∧
    ∀ {base index : Code} {call : Caller} {env : EnvRef} {world : World} (container : Ty),
      base.onlyReads = true → index.onlyReads = true →
      PlaceOf.Steady call env world (.element container base index) := by
  refine ⟨fun compiled compiled' => ?_, fun compiled compiled' => ?_, fun _ isBase isIndex =>
    ⟨CodeOf.steady_of_onlyReads isBase, CodeOf.steady_of_onlyReads isIndex⟩⟩
  · obtain ⟨place, type, given, operand, isPlace, isType, isGiven, converted, plain, lines⟩ :=
      Compile.compound_lines compiled
    have lines' := Compile.plain_lines isPlace isType isGiven converted plain compiled'
    refine ⟨place, _, _, isPlace, lines, lines', update_agrees ?_ _ _⟩
    rintro rfl
    cases isType
  · obtain ⟨place, type, operand, isPlace, isType, converted, lines⟩ :=
      Compile.incDec_lines _ compiled
    have lines' := Compile.plain_lines isPlace isType rfl converted (by split <;> rfl) compiled'
    refine ⟨place, _, _, isPlace, lines, lines', update_agrees ?_ _ _⟩
    rintro rfl
    cases isType

def addTwo : Stmt := .assign [.ident ⟨"x", {}⟩] (.compound .add) [.int 2 {}] {}

theorem shorthands_agree_add_two :
    let x : Slot := ⟨.word, 0, .int⟩
    let instr : Instr := .update .add (.slot 1 x) (.const (.int 2))
    let other : Instr := .assign [.slot 1 x] (.each [.binary .add (.load 1 x) (.const (.int 2))])
    ∃ (_ : Natives) (file : CompiledFile) (now : Config True) (task : ThreadRef) (env : EnvRef)
      (call : Caller), Compile.file (oneStatement addTwo) [] = .ok file ∧
      file.functions.map (Program.instr? ·.program 0) = [some instr] ∧ call.Safe True ∧
      now.About task env instr ∧
      Step.run call 50 env instr now.world = Step.run call 50 env other now.world := by
  intro x instr other
  let natives : Natives := ⟨fun _ => none⟩
  have compiles : ∃ file, Compile.file (oneStatement addTwo) [] = .ok file ∧
      file.functions.map (fun template =>
        (template.params, template.results, Program.instr? template.program 0)) =
          [([], [], some instr)] := ⟨_, by cbv, by rfl⟩
  obtain ⟨file, compiled, functions⟩ := compiles
  obtain ⟨now, task, env, about⟩ := oneStatement_about (fun _ => rfl) (by rfl) compiled functions
  have safe := (Machine.watchedCall_safe .never (⟨by simp [Natives.signature?, natives], by simp⟩ :
    Host.Safe True []) 50).1
  let outer : Frame := { owned := true, symbols := [("x", .var x)], words := 1 }
  obtain ⟨agree, -, -⟩ := @shorthands_agree [outer] { owned := true } 0 0 [] [] (.ident ⟨"x", {}⟩)
    {} {} {} (.one { owned := true } instr {}) (.one { owned := true } other {})
  obtain ⟨place, _, _, isPlace, same, same', agree⟩ := @agree .add (.int 2 {}) (by rfl) (by rfl)
  cases isPlace
  cases same
  cases same'
  have first : file.functions.map (Program.instr? ·.program 0) = [some instr] := by
    simpa [Function.comp_def] using congrArg (List.map (·.2.2)) functions
  exact ⟨natives, file, now, task, env, _, compiled, first, safe, about,
    agree 50 safe (.inl about) trivial⟩

end MiniGo
