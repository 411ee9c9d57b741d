import MiniGo.Proofs.Calls
import MiniGo.Proofs.Declarations
/-!
Assignments, definitions and declarations with initial values are typed once their operands are.
-/

namespace MiniGo

variable {strict : Prop} {base : Nat} {out : Nat → ExitKind → List Layer → Prop} {here : Nat}
  {ctx : Ctx strict} {span : Span}

/-- The innermost layer belongs to a frame, in its form after some declarations; a frame without an
environment has no slots then. -/
structure Top (layers : List Layer) (frame : Frame) : Prop where
  owned : frame.owned = true → ∃ layer, layers[0]? = some layer ∧ layer.level.Covers frame
  bare : frame.owned = false → frame.objects = 0 ∧ frame.words = 0

theorem Top.before {layers : List Layer} {frame after : Frame} {slots : List Slot}
    (top : Top layers after) (declares : Declares frame after slots) : Top layers frame := by
  constructor
  · intro owned
    obtain ⟨layer, found, covers⟩ := top.owned (declares.owned.trans owned)
    exact ⟨layer, found, declares.covers covers⟩
  · intro bare
    obtain ⟨objects, words⟩ := top.bare (declares.owned.trans bare)
    exact ⟨Nat.le_zero.mp (objects ▸ declares.objects), Nat.le_zero.mp (words ▸ declares.words)⟩

theorem stored_nil (layers : List Layer) : stored [] layers = layers := by
  cases layers <;> rfl

theorem stored_stored (slots others : List Slot) (layers : List Layer) :
    stored others (stored slots layers) = stored (others ++ slots) layers := by
  cases layers <;> simp [stored]

theorem stored_serves {slots others : List Slot} (layers : List Layer) (subset : slots ⊆ others) :
    Serves (stored others layers) (stored slots layers) := by
  cases layers with
  | nil => exact .nil
  | cons layer layers =>
    refine .cons ⟨rfl, ?_, fun _ member => member, fun _ member => member⟩ (Serves.refl _)
    intro slot member
    rcases List.mem_append.mp member with new | old
    · exact List.mem_append_left _ (subset new)
    · exact List.mem_append_right _ old

theorem serves_stored (slots : List Slot) (layers : List Layer) :
    Serves (stored slots layers) layers := by
  have serves := stored_serves layers (List.nil_subset slots)
  rwa [stored_nil] at serves

theorem Top.stored {layers : List Layer} {frame : Frame} (top : Top layers frame)
    (slots : List Slot) : Top (stored slots layers) frame := by
  refine ⟨fun owned => ?_, top.bare⟩
  obtain ⟨layer, found, covers⟩ := top.owned owned
  cases layers with
  | nil => simp at found
  | cons head rest =>
    simp only [List.getElem?_cons_zero, Option.some.injEq] at found
    subst found
    exact ⟨_, rfl, covers⟩

theorem Level.exists_bare {frame : Frame} (objects : frame.objects = 0) (words : frame.words = 0)
    (none : ∀ name slot, (name, Symbol.var slot) ∉ frame.symbols)
    (sound : ∀ entry ∈ frame.symbols, entry.2.Sound) : ∃ level : Level, level.frame = frame :=
  ⟨{ frame, objects := [], words := [], hidden := []
     objects_length := objects.symm, words_length := words.symm
     objects_boxed := by simp, words_scalar := by simp, hidden_inside := by simp
     named := fun name slot member => absurd member (none name slot), sound }, rfl⟩

theorem Fits.declared {scope : Scope} {layers : List Layer} {frame after : Frame}
    {slots : List Slot} (fits : Fits strict (frame :: scope) layers)
    (declares : Declares frame after slots) (top : Top layers after) :
    Fits strict (after :: scope) (MiniGo.stored slots layers) := by
  cases fits with
  | @owned _ _ layer layers owned covers ready rest =>
    obtain ⟨layer', found, covers'⟩ := top.owned (declares.owned.trans owned)
    simp only [List.getElem?_cons_zero, Option.some.injEq] at found
    subst found
    refine .owned (declares.owned.trans owned) covers' ?_ rest
    intro strict name slot member string
    rcases declares.fresh name slot member with before | new
    · exact List.mem_append_right _ (ready strict name slot before string)
    · exact List.mem_append_left _ new
  | bare bare none sound rest =>
    have bareAfter := declares.owned.trans bare
    obtain ⟨objects, words⟩ := top.bare bareAfter
    have before := top.before declares
    obtain ⟨objectsBefore, wordsBefore⟩ := before.bare bare
    obtain ⟨level, same⟩ := Level.exists_bare objectsBefore wordsBefore none sound
    obtain ⟨rfl, none, sound⟩ := declares.none_of_empty same objects words
    rw [stored_nil]
    exact .bare bareAfter none sound rest

theorem Fits.bare_declares {scope : Scope} {layers : List Layer} {frame after : Frame}
    {slots : List Slot} (fits : Fits strict (frame :: scope) layers)
    (declares : Declares frame after slots) (top : Top layers after)
    (bare : frame.owned = false) :
    slots = [] ∧ ∀ name slot, (name, Symbol.var slot) ∉ after.symbols := by
  cases fits with
  | owned owned => simp [bare] at owned
  | bare _ none sound _ =>
    obtain ⟨objects, words⟩ := top.bare (declares.owned.trans bare)
    obtain ⟨objectsBefore, wordsBefore⟩ := (top.before declares).bare bare
    obtain ⟨level, same⟩ := Level.exists_bare objectsBefore wordsBefore none sound
    obtain ⟨empty, none, -⟩ := declares.none_of_empty same objects words
    exact ⟨empty, none⟩

namespace Rhs

def Typed (strict : Prop) (ctx : Ctx strict) : Rhs → Prop
  | .each operands => ∀ operand ∈ operands, operand.Typed strict ctx
  | .multi operand => operand.Typed strict ctx

def arity : Rhs → Nat
  | .each operands => operands.length
  | .multi operand => operand.arity

theorem convertTargets_fit {operands : List Operand} {targets : List (Option Ty)}
    {codes : List Code} (typed : ∀ operand ∈ operands, operand.Typed strict ctx)
    (length : operands.length = targets.length)
    (compiled : convertTargets operands targets = .ok codes) :
    ∃ types, CodesFit strict ctx codes types ∧ List.Forall₂ Ty.StoresTo types targets := by
  induction operands generalizing targets codes with
  | nil =>
    obtain rfl : targets = [] := by simpa using length.symm
    simp only [convertTargets, Compiled.pure_eq_ok] at compiled
    exact ⟨[], compiled ▸ .nil, .nil⟩
  | cons operand operands ih =>
    have others : ∀ other ∈ operands, other.Typed strict ctx :=
      fun other member => typed other (by simp [member])
    have first := typed operand (by simp)
    rcases targets with _ | ⟨_ | target, targets⟩
    · simp at length
    · simp only [convertTargets, Compiled.bind_eq_ok, Operand.type_eq_ok] at compiled
      obtain ⟨type, single, compiled⟩ := compiled
      split at compiled
      · simp at compiled
      simp only [Compiled.bind_eq_ok, Compiled.pure_eq_ok] at compiled
      obtain ⟨rest, compiledRest, rfl⟩ := compiled
      obtain ⟨types, fits, stores⟩ := ih others (by simpa using length) compiledRest
      exact ⟨type :: types, .cons (first.toCode single) fits, .cons (by simp [Ty.StoresTo]) stores⟩
    · simp only [convertTargets, Compiled.bind_eq_ok, Compiled.pure_eq_ok] at compiled
      obtain ⟨converted, compiledFirst, rest, compiledRest, rfl⟩ := compiled
      obtain ⟨types, fits, stores⟩ := ih others (by simpa using length) compiledRest
      refine ⟨target :: types, .cons (first.convertTo_code compiledFirst) fits, .cons ?_ stores⟩
      intro wanted same
      simp only [Option.some.injEq] at same
      exact same ▸ target.assignableTo_refl

theorem checkTargets_stores {types : List Ty} {targets : List (Option Ty)}
    (length : types.length = targets.length)
    (checked : checkTargets span types targets = .ok ()) : List.Forall₂ Ty.StoresTo types targets := by
  induction types generalizing targets with
  | nil =>
    obtain rfl : targets = [] := by simpa using length.symm
    exact .nil
  | cons type types ih =>
    match targets, length with
    | some target :: targets, length =>
      simp only [checkTargets] at checked
      split at checked
      · rename_i assignable
        refine .cons ?_ (ih (by simpa using length) checked)
        intro wanted same
        simp only [Option.some.injEq] at same
        exact same ▸ assignable
      · simp at checked
    | none :: targets, length =>
      simp only [checkTargets] at checked
      exact .cons (by simp [Ty.StoresTo]) (ih (by simpa using length) checked)

theorem stores_of_assignable {sources types : List Ty} {targets : List (Option Ty)}
    (assignable : AllAssignable sources types) (stores : List.Forall₂ Ty.StoresTo types targets) :
    List.Forall₂ Ty.StoresTo sources targets := by
  induction assignable generalizing targets with
  | nil => exact stores
  | cons head _ ih =>
    cases stores with
    | cons first rest =>
      exact .cons (fun wanted same => Ty.assignableTo_trans head (first wanted same)) (ih rest)

theorem toValues_store {rhs : Rhs} {targets : List (Option Ty)} {values : Values}
    (typed : rhs.Typed strict ctx) (length : rhs.arity = targets.length)
    (compiled : rhs.toValues targets span = .ok values) :
    ∃ types, ValuesTyped strict ctx values types ∧ List.Forall₂ Ty.StoresTo types targets := by
  cases rhs with
  | each operands =>
    simp only [toValues, Compiled.bind_eq_ok, Compiled.pure_eq_ok] at compiled
    obtain ⟨codes, compiled, rfl⟩ := compiled
    obtain ⟨types, fits, stores⟩ := convertTargets_fit typed length compiled
    exact ⟨types, .each fits, stores⟩
  | multi operand =>
    simp only [toValues, Compiled.bind_eq_ok, Compiled.pure_eq_ok] at compiled
    obtain ⟨⟨⟩, checked, rfl⟩ := compiled
    obtain ⟨sources, values, assignable⟩ := Operand.Typed.toValues typed
    exact ⟨sources, values, stores_of_assignable assignable (checkTargets_stores length checked)⟩

theorem types_length {rhs : Rhs} {types : List Ty} (compiled : rhs.types = .ok types) :
    types.length = rhs.arity := by
  cases rhs with
  | each operands =>
    simp only [Rhs.types] at compiled
    induction operands generalizing types with
    | nil =>
      simp only [Builtin.operandTypes, Compiled.pure_eq_ok] at compiled
      simp [← compiled, arity]
    | cons operand rest ih =>
      simp only [Builtin.operandTypes, Compiled.bind_eq_ok, Compiled.pure_eq_ok] at compiled
      obtain ⟨type, -, types, compiled, rfl⟩ := compiled
      simpa [arity] using ih compiled
  | multi operand =>
    simp only [Rhs.types, Compiled.pure_eq_ok] at compiled
    simp [← compiled, arity, Operand.arity]

end Rhs

theorem PlaceTyped.type_eq {place : Place} {target : Option Ty}
    (typed : PlaceTyped strict ctx place target) : Place.type? place = target := by
  cases typed <;> rfl

theorem PlacesTyped.length_eq {places : List Place} {targets : List (Option Ty)}
    (typed : PlacesTyped strict ctx places targets) : places.length = targets.length := by
  induction places generalizing targets with
  | nil => cases typed; rfl
  | cons place places ih =>
    cases typed with
    | cons _ rest => simp [ih rest]
    | fresh _ _ rest => simp [ih rest]

theorem PlacesTyped.of_forall {places : List Place}
    (typed : ∀ place ∈ places, PlaceTyped strict ctx place (Place.type? place)) :
    PlacesTyped strict ctx places (places.map Place.type?) := by
  induction places with
  | nil => exact .nil
  | cons place places ih =>
    exact .cons (typed place (by simp)) (ih fun other member => typed other (by simp [member]))

theorem assign_runs {places : List Place} {rhs : Rhs} {fragment : Fragment}
    (placesTyped : ∀ place ∈ places, PlaceTyped strict ctx place (Place.type? place))
    (typed : rhs.Typed strict ctx) (length : rhs.arity = places.length)
    (compiled : assign places rhs span = .ok fragment) :
    Runs strict base out here fragment.lines (.replicate fragment.lines.length ctx.site) ctx.layers
      ctx.layers := by
  simp only [assign, Compiled.bind_eq_ok, Compiled.pure_eq_ok] at compiled
  obtain ⟨values, compiled, rfl⟩ := compiled
  obtain ⟨types, valuesTyped, stores⟩ := Rhs.toValues_store typed (by simpa using length) compiled
  exact .one ctx (.assign (.of_forall placesTyped) valuesTyped stores ⟨rfl, serves_stored _ _⟩)

theorem identPlace_typed {ident : Ident} {place : Place}
    (compiled : identPlace ctx.scope ident = .ok place) :
    PlaceTyped strict ctx place (Place.type? place) := by
  unfold identPlace at compiled
  split at compiled
  · simp only [Compiled.pure_eq_ok] at compiled
    exact compiled ▸ .blank
  · split at compiled <;> simp at compiled
    rename_i hops slot found
    exact compiled ▸ .known found

theorem update_runs {op : BinaryOp} {place : Place} {type : Ty} {operand : Operand}
    {fragment : Fragment} (plain : (op.isComparison || op.isLogical) = false)
    (placeTyped : PlaceTyped strict ctx place (Place.type? place))
    (typed : operand.Typed strict ctx) (checked : compoundType op place span = .ok type)
    (compiled : update op place type operand span = .ok fragment) :
    Runs strict base out here fragment.lines (.replicate fragment.lines.length ctx.site) ctx.layers
      ctx.layers := by
  simp only [update, Compiled.bind_eq_ok, Compiled.pure_eq_ok] at compiled
  obtain ⟨converted, compiled, rfl⟩ := compiled
  simp only [Bool.or_eq_false_iff] at plain
  simp only [compoundType] at checked
  split at checked
  · simp at checked
  rename_i found known
  simp only [Compiled.bind_eq_ok, Compiled.pure_eq_ok] at checked
  obtain ⟨⟨⟩, checked, rfl⟩ := checked
  have allowed : Operand.allows op found found = true := by
    unfold Operand.checkOperator at checked
    split at checked
    · assumption
    · simp at checked
  have takes := Operand.takes_of_allows plain.2 allowed fun _ => rfl
  simp only [plain.1, Bool.false_eq_true, if_false] at takes
  rw [known] at placeTyped
  exact .one ctx (.update placeTyped (typed.convertTo_code compiled) takes ⟨rfl, .refl _⟩)

/-- A definition while its targets are added: the slots it has declared so far, and its places, which
are all in the innermost frame. -/
structure Definition.Sound (frame : Frame) (definition : Definition) (slots : List Slot) : Prop where
  declares : Declares frame definition.frame slots
  places : List.Forall₂ (fun (place : Place) (target : Option Ty) =>
    (place = .blank ∧ target = none) ∨ ∃ slot name, place = .slot 0 slot ∧
      target = some slot.type ∧ (name, Symbol.var slot) ∈ definition.frame.symbols)
    definition.places definition.targets
  stored : slots ⊆ definition.places.filterMap PlaceOf.inner?
  fresh : definition.fresh = true → slots ≠ []

namespace Definition

theorem Sound.blank {frame : Frame} {definition : Definition} {slots : List Slot}
    (sound : definition.Sound frame slots) : definition.blank.Sound frame slots := by
  refine ⟨sound.declares, ?_, ?_, sound.fresh⟩
  · exact List.rel_append sound.places (.cons (.inl ⟨rfl, rfl⟩) .nil)
  · intro slot member
    have before := sound.stored member
    simp only [Definition.blank, List.filterMap_append, List.mem_append]
    exact .inl before

theorem Sound.add {frame : Frame} {definition after : Definition} {slots : List Slot} {node : Expr}
    {type : Ty} (sound : definition.Sound frame slots)
    (compiled : definition.add node type = .ok after) : ∃ slots, after.Sound frame slots := by
  unfold Definition.add at compiled
  split at compiled
  · simp at compiled
  split at compiled
  · simp at compiled
  split at compiled
  · simp only [Compiled.pure_eq_ok] at compiled
    exact ⟨slots, compiled ▸ sound.blank⟩
  split at compiled
  · simp at compiled
  split at compiled
  · rename_i slot found
    simp only [Compiled.pure_eq_ok] at compiled
    subst compiled
    refine ⟨slots, sound.declares, ?_, ?_, sound.fresh⟩
    · exact List.rel_append sound.places
        (.cons (.inr ⟨slot, _, rfl, rfl, Frame.symbol_mem found⟩) .nil)
    · intro other member
      have before := sound.stored member
      simp only [Definition.known, List.filterMap_append, List.mem_append]
      exact .inl before
  · simp at compiled
  simp only [Compiled.bind_eq_ok, Prod.exists] at compiled
  obtain ⟨slot, grown, declared, compiled⟩ := compiled
  obtain ⟨declares, -⟩ := Frame.declareVar_declares declared
  cases slot with
  | none =>
    simp only [Compiled.pure_eq_ok] at compiled
    exact ⟨slots, compiled ▸ sound.blank⟩
  | some slot =>
    simp only [Compiled.pure_eq_ok] at compiled
    subst compiled
    obtain ⟨name, member⟩ := declares.named slot (by simp)
    refine ⟨_, sound.declares.trans declares, ?_, ?_, by simp⟩
    · refine List.rel_append (sound.places.imp ?_) (.cons (.inr ⟨slot, name, rfl, rfl, member⟩) .nil)
      rintro place target (blank | ⟨old, name, place, target, member⟩)
      · exact .inl blank
      · exact .inr ⟨old, name, place, target, declares.symbols.subset member⟩
    · intro other member
      simp only [Definition.known, List.filterMap_append, List.mem_append]
      rcases List.mem_append.mp member with new | old
      · refine .inr ?_
        simp only [Option.toList_some, List.mem_singleton] at new
        simp [new, PlaceOf.inner?]
      · exact .inl (sound.stored old)

theorem Sound.addAll {frame : Frame} {definition after : Definition} {slots : List Slot}
    {nodes : List Expr} {types : List Ty} (sound : definition.Sound frame slots)
    (compiled : definition.addAll nodes types = .ok after) :
    (∃ slots, after.Sound frame slots) := by
  induction nodes generalizing definition slots types with
  | nil =>
    simp only [Definition.addAll, Compiled.pure_eq_ok] at compiled
    exact ⟨slots, compiled ▸ sound⟩
  | cons node nodes ih =>
    cases types with
    | nil =>
      simp only [Definition.addAll, Compiled.pure_eq_ok] at compiled
      exact ⟨slots, compiled ▸ sound⟩
    | cons type types =>
      simp only [Definition.addAll, Compiled.bind_eq_ok] at compiled
      obtain ⟨mid, first, rest⟩ := compiled
      obtain ⟨slots, sound⟩ := sound.add first
      exact ih sound rest

theorem add_length {definition after : Definition} {node : Expr} {type : Ty}
    (compiled : definition.add node type = .ok after) :
    after.places.length = definition.places.length + 1 := by
  unfold Definition.add at compiled
  repeat' split at compiled
  all_goals
    simp only [Compiled.pure_eq_ok, Compiled.bind_eq_ok, Prod.exists, fault_eq_ok] at compiled
  · exact compiled ▸ by simp [Definition.blank]
  · exact compiled ▸ by simp [Definition.known]
  · obtain ⟨slot, grown, -, compiled⟩ := compiled
    split at compiled <;> simp only [Compiled.pure_eq_ok] at compiled <;> subst compiled <;>
      simp [Definition.blank, Definition.known]

theorem addAll_length {definition after : Definition} {nodes : List Expr} {types : List Ty}
    (length : nodes.length = types.length)
    (compiled : definition.addAll nodes types = .ok after) :
    after.places.length = definition.places.length + types.length := by
  induction nodes generalizing definition types with
  | nil =>
    obtain rfl : types = [] := by simpa using length.symm
    simp only [Definition.addAll, Compiled.pure_eq_ok] at compiled
    simp [compiled]
  | cons node nodes ih =>
    cases types with
    | nil => simp at length
    | cons type types =>
      simp only [Definition.addAll, Compiled.bind_eq_ok] at compiled
      obtain ⟨mid, first, rest⟩ := compiled
      rw [ih (by simpa using length) rest, add_length first]
      simp only [List.length_cons]
      omega

theorem Sound.placesTyped {frame : Frame} {definition : Definition} {slots : List Slot}
    {layer : Layer} (sound : definition.Sound frame slots) (found : ctx.layers[0]? = some layer)
    (covers : layer.level.Covers definition.frame) :
    PlacesTyped strict ctx definition.places definition.targets := by
  have places := sound.places
  generalize definition.places = places, definition.targets = targets at places
  induction places with
  | nil => exact .nil
  | cons head _ ih =>
    rcases head with ⟨rfl, rfl⟩ | ⟨slot, name, rfl, rfl, member⟩
    · exact .cons .blank ih
    · exact .fresh found (covers.symbols.subset member) ih

end Definition

theorem define_runs {outer : Scope} {frame : Frame} {lhs : List Expr} {rhs : Rhs} {piece : Piece}
    (length : lhs.length = rhs.arity) (compiled : define frame lhs rhs span = .ok piece) :
    ∃ slots, Declares frame piece.frame slots ∧
      ∀ (ctx : Ctx strict) base out here, ctx.scope = frame :: outer →
        rhs.Typed strict ctx → Top ctx.layers piece.frame →
        Runs strict base out here piece.lines (.replicate piece.lines.length ctx.site) ctx.layers
          (stored slots ctx.layers) := by
  simp only [define, Compiled.bind_eq_ok] at compiled
  obtain ⟨types, typesIs, definition, added, compiled⟩ := compiled
  split at compiled
  · simp at compiled
  rename_i fresh
  simp only [Compiled.bind_eq_ok, Compiled.pure_eq_ok] at compiled
  obtain ⟨values, compiled, rfl⟩ := compiled
  have start : Definition.Sound frame { frame } [] := ⟨.refl frame, .nil, by simp, by simp⟩
  obtain ⟨slots, sound⟩ := start.addAll added
  refine ⟨slots, sound.declares, ?_⟩
  intro ctx base out here scope typed top
  have owned : definition.frame.owned = true := by
    by_contra bare
    have bareBefore : frame.owned = false := by
      rw [← sound.declares.owned]
      simpa using bare
    have fits := ctx.fits
    rw [scope] at fits
    exact sound.fresh (by simpa using fresh) (fits.bare_declares sound.declares top bareBefore).1
  obtain ⟨layer, found, covers⟩ := top.owned owned
  have count : rhs.arity = definition.targets.length := by
    have places := Definition.addAll_length (length.trans (Rhs.types_length typesIs).symm) added
    have targets := sound.places.length_eq
    have typeCount := Rhs.types_length typesIs
    simp only [List.length_nil, Nat.zero_add] at places
    omega
  obtain ⟨sources, valuesTyped, stores⟩ := Rhs.toValues_store typed count compiled
  exact .one ctx (.assign (sound.placesTyped found covers) valuesTyped stores
    ⟨rfl, stored_serves _ sound.stored⟩)

theorem Operand.Typed.declaredAs {declared : Option Ty} {operand result : Operand}
    (typed : operand.Typed strict ctx) (compiled : operand.declaredAs declared = .ok result) :
    result.Typed strict ctx := by
  cases declared with
  | none =>
    simp only [Operand.declaredAs, Compiled.pure_eq_ok] at compiled
    exact compiled ▸ typed
  | some type => exact (typed.convertTo compiled).1

theorem initEach_fits {declared : Option Ty} {operands : List Operand} {types : List Ty}
    {codes : List Code} (typed : ∀ operand ∈ operands, operand.Typed strict ctx)
    (compiled : initEach declared operands = .ok (types, codes)) :
    CodesFit strict ctx codes types ∧ types.length = operands.length := by
  induction operands generalizing types codes with
  | nil =>
    simp only [initEach, Compiled.pure_eq_ok, Prod.mk.injEq] at compiled
    obtain ⟨rfl, rfl⟩ := compiled
    exact ⟨.nil, rfl⟩
  | cons operand operands ih =>
    simp only [initEach, Compiled.bind_eq_ok, Operand.type_eq_ok] at compiled
    obtain ⟨converted, chosen, type, single, compiled⟩ := compiled
    split at compiled
    · simp at compiled
    simp only [Compiled.bind_eq_ok, Prod.exists, Compiled.pure_eq_ok, Prod.mk.injEq] at compiled
    obtain ⟨types, codes, compiled, rfl, rfl⟩ := compiled
    obtain ⟨fits, length⟩ := ih (fun other member => typed other (by simp [member])) compiled
    have first := (typed operand (by simp)).declaredAs chosen
    exact ⟨.cons (first.toCode single) fits, by simp [length]⟩

theorem initValues_typed {declared : Option Ty} {count : Nat} {operands : List Operand}
    {types : List Ty} {values : Values} (typed : ∀ operand ∈ operands, operand.Typed strict ctx)
    (compiled : initValues declared count operands span = .ok (types, values)) :
    ∃ sources, ValuesTyped strict ctx values sources ∧ AllAssignable sources types ∧
      types.length = count := by
  have separate : initSeparate declared count operands span = .ok (types, values) →
      ∃ sources, ValuesTyped strict ctx values sources ∧ AllAssignable sources types ∧
        types.length = count := by
    intro compiled
    simp only [initSeparate] at compiled
    split at compiled
    · simp at compiled
    rename_i count
    simp only [Compiled.bind_eq_ok, Prod.exists, Compiled.pure_eq_ok, Prod.mk.injEq] at compiled
    obtain ⟨types, codes, each, rfl, rfl⟩ := compiled
    obtain ⟨fits, length⟩ := initEach_fits typed each
    exact ⟨_, .each fits, .refl _, length.trans (by simpa using count)⟩
  unfold initValues at compiled
  split at compiled
  · split at compiled
    · simp at compiled
    rename_i type
    simp only [Compiled.pure_eq_ok, Prod.mk.injEq] at compiled
    obtain ⟨rfl, rfl⟩ := compiled
    refine ⟨_, .each ?_, .refl _, by simp⟩
    clear separate typed
    induction count with
    | zero => exact .nil
    | succ count ih => exact .cons (.const (Const.zero_fits type)) ih
  · rename_i single
    split at compiled
    · simp only [initMulti] at compiled
      split at compiled
      · simp at compiled
      rename_i arity
      have arity : single.types.length = count := by simpa [Operand.arity] using arity
      obtain ⟨sources, valuesTyped, assignable⟩ := (typed single (by simp)).toValues
      split at compiled
      · simp only [Compiled.pure_eq_ok, Prod.mk.injEq] at compiled
        obtain ⟨rfl, rfl⟩ := compiled
        exact ⟨sources, valuesTyped, assignable, arity⟩
      · simp only [Compiled.bind_eq_ok, Compiled.pure_eq_ok, Prod.mk.injEq] at compiled
        obtain ⟨⟨⟩, checked, rfl, rfl⟩ := compiled
        exact ⟨sources, valuesTyped, assignable.trans
          (Invoke.checkAll_assignable (by simp [arity]) checked), by simp⟩
    · exact separate compiled
  · exact separate compiled

theorem declareInit_runs {outer : Scope} {frame : Frame} {names : List Ident} {types : List Ty}
    {values : Values} {piece : Piece} (length : types.length = names.length)
    (compiled : declareInit frame names types values span = .ok piece) :
    ∃ slots, Declares frame piece.frame slots ∧
      ∀ (ctx : Ctx strict) base out here sources, ctx.scope = frame :: outer →
        base < ctx.layers.length → ValuesTyped strict ctx values sources →
        AllAssignable sources types → Top ctx.layers piece.frame →
        Runs strict base out here piece.lines (.replicate piece.lines.length ctx.site) ctx.layers
          (stored slots ctx.layers) := by
  simp only [declareInit, Compiled.bind_eq_ok, Prod.exists, Compiled.pure_eq_ok] at compiled
  obtain ⟨slots, after, declared, rfl⟩ := compiled
  obtain ⟨⟨names', declares, same⟩, slotTypes⟩ := Frame.declareVars_declares declared
  refine ⟨names', declares, ?_⟩
  intro ctx base out here sources scope deep valuesTyped assignable top
  obtain ⟨layer, found⟩ : ∃ layer, ctx.layers[0]? = some layer :=
    ⟨ctx.layers[0], List.getElem?_eq_getElem (by omega)⟩
  have shared : ∀ slot, some slot ∈ slots → layer.level.Shared slot := by
    intro slot member
    obtain ⟨name, named⟩ := declares.named slot ((same slot).mpr member)
    by_cases owned : after.owned = true
    · obtain ⟨layer', found', covers⟩ := top.owned owned
      obtain rfl : layer = layer' := by simpa [found] using found'
      exact covers.shared named
    · have bare : frame.owned = false := by
        rw [← declares.owned]
        simpa using owned
      have fits := ctx.fits
      rw [scope] at fits
      exact absurd named ((fits.bare_declares declares top bare).2 name slot)
  have zipped : (names.zip types).map (·.2) = types := by
    rw [List.map_snd_zip]
    omega
  have stores : List.Forall₂
      (fun type (slot : Option Slot) => type.StoresTo (slot.map (·.type))) types slots := by
    rw [← zipped, List.forall₂_map_left_iff]
    refine (List.Forall₂.flip slotTypes).imp ?_
    intro entry slot each wanted known
    simp only [Option.map_eq_some_iff] at known
    obtain ⟨found, rfl, rfl⟩ := known
    rw [each found rfl]
    exact Ty.assignableTo_refl _
  have sourceStores : List.Forall₂
      (fun type (slot : Option Slot) => type.StoresTo (slot.map (·.type))) sources slots :=
    List.forall₂_map_right_iff.mp
      (Rhs.stores_of_assignable assignable (List.forall₂_map_right_iff.mpr stores))
  refine .one ctx (.init found shared valuesTyped sourceStores ⟨rfl, stored_serves _ ?_⟩)
  intro slot member
  exact List.mem_filterMap.mpr ⟨some slot, (same slot).mp member, rfl⟩

theorem returnAll_typed {results : List Slot} {operands : List Operand} {values : Values}
    (typed : ∀ operand ∈ operands, operand.Typed strict ctx)
    (compiled : returnAll results operands span = .ok values) :
    ∃ sources, ValuesTyped strict ctx values sources ∧
      AllAssignable sources (results.map (·.type)) := by
  have separate : returnSeparate results operands span = .ok values →
      ∃ sources, ValuesTyped strict ctx values sources ∧
        AllAssignable sources (results.map (·.type)) := by
    intro compiled
    simp only [returnSeparate] at compiled
    split at compiled
    · simp at compiled
    rename_i count
    simp only [Compiled.bind_eq_ok, Compiled.pure_eq_ok] at compiled
    obtain ⟨codes, converted, rfl⟩ := compiled
    exact ⟨_, .each (Invoke.convertAll_fits typed (by simpa using count) converted), .refl _⟩
  unfold returnAll at compiled
  split at compiled
  · rename_i single
    split at compiled
    · dsimp only at compiled
      split at compiled
      · simp at compiled
      rename_i arity
      simp only [Compiled.bind_eq_ok, Compiled.pure_eq_ok] at compiled
      obtain ⟨⟨⟩, checked, rfl⟩ := compiled
      obtain ⟨sources, valuesTyped, assignable⟩ := (typed single (by simp)).toValues
      refine ⟨sources, valuesTyped, assignable.trans (Invoke.checkAll_assignable ?_ checked)⟩
      simpa [Operand.arity] using arity
    · exact separate compiled
  · exact separate compiled

end MiniGo
