import MiniGo.Interpreter
import MiniGo.Proofs.Applications
import MiniGo.Proofs.Operations
/-!
The order in which operands are evaluated, each of them once. It is the order in which they are
written, but the index of a slice or map comes before the slice or map, and a size that `make` does not
use is left out.
-/

namespace MiniGo

open Reference Compile

variable {α β : Type} {call : Caller} {scope : Scope} {env : EnvRef} {span : Span} {node : Expr}

def Expr.operands (scope : Scope) : Expr → List Expr
  | .binary _ left right _ => [left, right]
  | .unary _ operand _ => [operand]
  | .call callee args _ _ =>
    match scope.callee callee with
    | .ok .function => callee :: args
    | .ok (.builtin .make) => args.tail
    | _ => args
  | .index base position _ => [base, position]
  | .sliceLit _ elems _ => elems
  | .mapLit _ _ contents _ => contents.flatMap fun entry => [entry.1, entry.2]
  | .typeAssert operand _ _ => [operand]
  | _ => []

def Expr.evaluated (scope : Scope) : Expr → List Expr
  | .index base position _ =>
    match (static scope base).type with
    | .string => [base, position]
    | _ => [position, base]
  | .call callee args ellipsis span =>
    match scope.callee callee with
    | .ok (.builtin .make) =>
      match Builtin.madeType scope (args.headD callee) args.tail.length span with
      | .ok (.map _ _) => []
      | _ => args.tail.take 1
    | _ => (Expr.call callee args ellipsis span).operands scope
  | node => node.operands scope

def Expr.isLogical : Expr → Bool
  | .binary op _ _ _ => op.isLogical
  | _ => false

mutual

/-- Notes of an expression whose operands have been evaluated, each of them once. -/
inductive Ordered (scope : Scope) : Expr → Notes → Prop
  | all {node : Expr} {notes : Notes} : node.isLogical = false →
    Sequence scope (node.evaluated scope) notes → Ordered scope node notes
  | decided {op : BinaryOp} {left right : Expr} {span : Span} {before : Notes} {given : List Value} :
    op.isLogical = true → Ordered scope left before → given.headD .nil = .bool (op == .or) →
    Ordered scope (.binary op left right span) (before ++ [(left, .ok given)])
  | undecided {op : BinaryOp} {left right : Expr} {span : Span} {before after : Notes}
      {given : List Value} :
    op.isLogical = true → Ordered scope left before → given.headD .nil = .bool (op != .or) →
    Sequence scope [right] after →
    Ordered scope (.binary op left right span) (before ++ (left, .ok given) :: after)

/-- Notes of expressions evaluated one after the other, each with the values that it has given. -/
inductive Sequence (scope : Scope) : List Expr → Notes → Prop
  | nil : Sequence scope [] []
  | cons {node : Expr} {rest : List Expr} {before after : Notes} {given : List Value} :
    Ordered scope node before → Sequence scope rest after →
    Sequence scope (node :: rest) (before ++ (node, .ok given) :: after)

end

inductive RuntimeError.Misfit : RuntimeError → Prop
  | bool {value : Value} {error : RuntimeError} : value.asBool = .error error → Misfit error
  | int {value : Value} {error : RuntimeError} : value.asInt = .error error → Misfit error
  | str {value : Value} {error : RuntimeError} : value.asStr = .error error → Misfit error
  | key {value : Value} {error : RuntimeError} : MapKey.ofValue value = .error error → Misfit error

/-- The failure of an operand, or of a value that is not of its type, has cut an evaluation short. -/
def Interrupted (result : Except RuntimeError α) (notes : Notes) : Prop :=
  ∃ error, result = .error error ∧
    (error.Misfit ∨ ∃ operand, (operand, .error error) ∈ notes)

theorem Interrupted.after {result : Except RuntimeError α} {before notes : Notes}
    (interrupted : Interrupted result notes) : Interrupted result (before ++ notes) := by
  obtain ⟨error, rfl, misfit | ⟨operand, member⟩⟩ := interrupted
  · exact ⟨error, rfl, .inl misfit⟩
  · exact ⟨error, rfl, .inr ⟨operand, List.mem_append_right _ member⟩⟩

def Outcome.Yields (holds : α → Prop) : Outcome α → Prop
  | done value _ => holds value
  | fail _ _ => False
  | await _ _ resume => ∀ world, (resume world).Yields holds
  | broken _ => True

theorem Outcome.Yields.mono {outcome : Outcome α} {holds goal : α → Prop}
    (yields : outcome.Yields holds) (implies : ∀ value, holds value → goal value) :
    outcome.Yields goal := by
  induction outcome with
  | done value world => exact implies value yields
  | fail error world => exact yields
  | await wait world resume ih => exact fun world => ih world (yields world)
  | broken reason => trivial

theorem Outcome.Yields.bind {outcome : Outcome α} {next : α → World → Outcome β} {goal : β → Prop}
    (yields : outcome.Yields fun value => ∀ world, (next value world).Yields goal) :
    (outcome.bind next).Yields goal := by
  induction outcome with
  | done value world => exact yields world
  | fail error world => exact yields
  | await wait world resume ih => exact fun world => ih world (yields world)
  | broken reason => trivial

theorem Outcome.yields_attempt {outcome : Outcome α} : outcome.attempt.Yields fun _ => True := by
  induction outcome with
  | done value world => trivial
  | fail error world => trivial
  | await wait world resume ih => exact ih
  | broken reason => trivial

namespace Noted

/-- What holds of the result and the notes of a computation wherever it comes to an end. -/
def Yields (noted : Noted α) (holds : Except RuntimeError α → Notes → Prop) : Prop :=
  ∀ world, Outcome.Yields (fun pair => holds pair.1 pair.2) (noted world)

/-- An evaluation that comes to an end has been cut short or has evaluated all there is. -/
def Ends (noted : Noted α) (complete : Notes → Prop) : Prop :=
  noted.Yields fun result notes => Interrupted result notes ∨ complete notes

def Follows (noted : Noted α) (complete : α → Notes → Prop) : Prop :=
  noted.Yields fun result notes =>
    Interrupted result notes ∨ ∃ value, result = .ok value ∧ complete value notes

def Silent (noted : Noted α) : Prop := noted.Yields fun _ notes => notes = []

variable {first : Noted α} {next : α → Noted β} {run : Run α}

theorem Yields.mono {holds goal : Except RuntimeError α → Notes → Prop} (yields : first.Yields holds)
    (implies : ∀ result notes, holds result notes → goal result notes) : first.Yields goal :=
  fun world => (yields world).mono fun pair => implies pair.1 pair.2

theorem Yields.bind {goal : Except RuntimeError β → Notes → Prop}
    (yields : first.Yields fun result before => match result with
      | .ok value => (next value).Yields fun result after => goal result (before ++ after)
      | .error error => goal (.error error) before) : (first >>= next).Yields goal := by
  intro world
  let start : Run (Except RuntimeError α × Notes) := first
  let goOn (value : α) : Run (Except RuntimeError β × Notes) := next value
  show Outcome.Yields _ (start.bind (fun pair => match pair.1 with
    | .ok value => (goOn value).bind fun more => pure (more.1, pair.2 ++ more.2)
    | .error error => pure (.error error, pair.2)) world)
  rw [Run.bind_apply]
  refine ((yields world).mono fun pair holds => ?_).bind
  obtain ⟨result, before⟩ := pair
  cases result with
  | error error => exact fun _ => holds
  | ok value =>
    intro world
    dsimp only
    rw [Run.bind_apply]
    exact ((holds world).mono fun pair holds _ => holds).bind

theorem silent_pure {value : α} : (pure value : Noted α).Silent := fun _ => rfl

theorem silent_lift : (lift run).Silent := by
  intro world
  show Outcome.Yields _ ((Run.attempt run).bind (fun result => pure (result, [])) world)
  rw [Run.bind_apply, Run.attempt_apply]
  exact (Outcome.yields_attempt.mono fun _ _ _ => rfl).bind

theorem Silent.bind (silent : first.Silent) (rest : ∀ value, (next value).Silent) :
    (first >>= next).Silent := by
  refine Yields.bind (Yields.mono silent fun result before none => ?_)
  subst none
  cases result with
  | ok value => exact rest value
  | error error => rfl

theorem follows_pure {value : α} {complete : α → Notes → Prop} (holds : complete value []) :
    (pure value : Noted α).Follows complete :=
  fun _ => .inr ⟨value, rfl, holds⟩

theorem follows_lift {holds : α → Prop} (now : ∀ world, (∃ value later,
      run world = .done value later ∧ holds value) ∨
    ∃ error later, run world = .fail error later ∧ error.Misfit) :
    (lift run).Follows fun value notes => notes = [] ∧ holds value := by
  intro world
  show Outcome.Yields _ ((Run.attempt run).bind (fun result => pure (result, [])) world)
  rw [Run.bind_apply, Run.attempt_apply]
  rcases now world with ⟨value, later, done, holds⟩ | ⟨error, later, failed, misfit⟩
  · rw [done]
    exact .inr ⟨value, rfl, rfl, holds⟩
  · rw [failed]
    exact .inl ⟨error, rfl, .inl misfit⟩

theorem follows_check {result : Except RuntimeError α}
    (misfit : ∀ error, result = .error error → error.Misfit) :
    (lift (Run.ofExcept result)).Follows fun value notes => notes = [] ∧ result = .ok value := by
  refine follows_lift fun world => ?_
  cases result with
  | ok value => exact .inl ⟨value, world, rfl, rfl⟩
  | error error => exact .inr ⟨error, world, rfl, misfit error rfl⟩

theorem follows_meaning {compiled : Compiled α} {found : α} (same : compiled = .ok found) :
    (lift (meaning compiled)).Follows fun value notes => notes = [] ∧ value = found := by
  subst same
  exact follows_lift fun world => .inl ⟨found, world, rfl, rfl⟩

theorem follows_insert {ref : MapRef} {key value : Value} :
    (lift (Run.tryHeap (·.insertEntry ref key value))).Follows fun _ notes => notes = [] ∧ True := by
  refine follows_lift fun world => ?_
  cases inserted : world.heap.insertEntry ref key value with
  | ok heap => exact .inl ⟨(), { world with heap }, by simp only [Run.tryHeap, inserted], trivial⟩
  | error error =>
    refine .inr ⟨error, world, by simp only [Run.tryHeap, inserted], ?_⟩
    rcases Except.bind_eq_error.mp inserted with noKey | ⟨_, _, impossible⟩
    · exact .key noKey
    · cases impossible

theorem Follows.bind {complete : α → Notes → Prop} {goal : β → Notes → Prop}
    (follows : first.Follows complete) (rest : ∀ value before, complete value before →
      (next value).Follows fun result after => goal result (before ++ after)) :
    (first >>= next).Follows goal := by
  refine Yields.bind (Yields.mono follows ?_)
  rintro _ before (⟨error, rfl, cut⟩ | ⟨value, rfl, holds⟩)
  · exact .inl ⟨error, rfl, cut⟩
  · refine (rest value before holds).mono ?_
    rintro result after (cut | complete)
    · exact .inl cut.after
    · exact .inr complete

theorem Follows.ends {complete : α → Notes → Prop} {goal : Notes → Prop}
    (follows : first.Follows complete) (rest : ∀ value before, complete value before →
      (next value).Ends fun after => goal (before ++ after)) :
    (first >>= next).Ends goal := by
  refine Yields.bind (Yields.mono follows ?_)
  rintro _ before (⟨error, rfl, cut⟩ | ⟨value, rfl, holds⟩)
  · exact .inl ⟨error, rfl, cut⟩
  · refine (rest value before holds).mono ?_
    rintro result after (cut | complete)
    · exact .inl cut.after
    · exact .inr complete

theorem Silent.ends {goal : Notes → Prop} (silent : first.Silent) (holds : goal []) :
    first.Ends goal := by
  refine Yields.mono silent fun result notes none => ?_
  subst none
  exact .inr holds

end Noted

namespace Sequence

variable {rest others : List Expr} {before after : Notes} {given : List Value}

theorem single (ordered : Ordered scope node before) :
    Sequence scope [node] (before ++ [(node, .ok given)]) :=
  .cons ordered .nil

theorem append {notes more : Notes} (first : Sequence scope rest notes)
    (second : Sequence scope others more) : Sequence scope (rest ++ others) (notes ++ more) := by
  induction rest generalizing notes with
  | nil =>
    cases first
    exact second
  | cons node rest ih =>
    cases first with
    | cons ordered first =>
      rw [List.cons_append, List.append_assoc, List.cons_append]
      exact .cons ordered (ih first)

end Sequence

namespace Noted

variable {evaluated : Noted (List Value)}

theorem operand_follows (ends : evaluated.Ends (Ordered scope node)) :
    (operand node evaluated).Follows fun given notes =>
      ∃ before, Ordered scope node before ∧ notes = before ++ [(node, .ok given)] := by
  intro world
  let start : Run (Except RuntimeError (List Value) × Notes) := evaluated
  show Outcome.Yields _
    (start.bind (fun pair => pure (pair.1, pair.2 ++ [(node, pair.1)])) world)
  rw [Run.bind_apply]
  refine ((ends world).mono ?_).bind
  rintro ⟨result, notes⟩ holds _
  cases result with
  | error error => exact .inl ⟨error, rfl, .inr ⟨node, by simp⟩⟩
  | ok given =>
    rcases holds with ⟨_, ⟨⟩, _⟩ | ordered
    exact .inr ⟨given, rfl, notes, ordered, rfl⟩

theorem value_follows (ends : evaluated.Ends (Ordered scope node)) :
    (value node evaluated).Follows fun first notes =>
      ∃ given before, first = given.headD .nil ∧ Ordered scope node before ∧
        notes = before ++ [(node, .ok given)] := by
  refine (operand_follows ends).bind ?_
  rintro given _ ⟨before, ordered, rfl⟩
  exact follows_pure ⟨given, before, rfl, ordered, by simp⟩

theorem Follows.mono {first : Noted α} {complete goal : α → Notes → Prop}
    (follows : first.Follows complete)
    (implies : ∀ value notes, complete value notes → goal value notes) :
    first.Follows goal := by
  refine Yields.mono follows fun result notes holds => holds.imp_right ?_
  rintro ⟨value, rfl, complete⟩
  exact ⟨value, rfl, implies value notes complete⟩

theorem value_sequence (ends : evaluated.Ends (Ordered scope node)) :
    (value node evaluated).Follows fun _ notes => Sequence scope [node] notes := by
  refine (value_follows ends).mono ?_
  rintro value _ ⟨given, before, -, ordered, rfl⟩
  exact .single ordered

end Noted

theorem Compile.operands_compiled {check : Option Operand → Operand → Compiled Operand}
    {first : Option Operand} {nodes : List Expr} {found : List Operand}
    (compiled : operands scope check first nodes = .ok found) :
    ∀ node ∈ nodes, ∃ operand, expr scope node = .ok operand := by
  induction nodes generalizing first found with
  | nil => simp
  | cons node rest ih =>
    simp only [operands, Compiled.bind_eq_ok] at compiled
    obtain ⟨raw, compiledNode, operand, -, others, compiledRest, -⟩ := compiled
    exact List.forall_mem_cons.mpr ⟨⟨raw, compiledNode⟩, ih compiledRest⟩

/-- An expression that compiles evaluates its operands in order, each of them once. -/
def Expr.InOrder (call : Caller) (scope : Scope) (env : EnvRef) (node : Expr) : Prop :=
  ∀ operand, Compile.expr scope node = .ok operand →
    (values call scope env node).Ends (Ordered scope node)

namespace Expr.InOrder

open Noted

variable {operand : Operand}

theorem ident {ident : Ident} : (Expr.ident ident).InOrder call scope env := by
  intro operand compiled
  have none : Ordered scope (Expr.ident ident) [] := .all rfl .nil
  simp only [values]
  split
  · exact silent_lift.ends none
  · exact silent_pure.ends none
  · exact silent_lift.ends none

theorem binary {op : BinaryOp} {left right : Expr} (plain : op.isLogical = false)
    (leftOrder : left.InOrder call scope env) (rightOrder : right.InOrder call scope env) :
    (Expr.binary op left right span).InOrder call scope env := by
  intro operand compiled
  simp only [expr, plain, Bool.false_eq_true, if_false, Compiled.bind_eq_ok] at compiled
  obtain ⟨first, compiledLeft, second, compiledRight, compiled⟩ := compiled
  simp only [values, plain, Bool.false_eq_true, if_false]
  refine (value_sequence (leftOrder _ compiledLeft)).ends fun _ before left => ?_
  refine (value_sequence (rightOrder _ compiledRight)).ends fun _ after right => ?_
  refine silent_lift.ends ?_
  rw [List.append_nil]
  exact .all plain (left.append right)

theorem logical {op : BinaryOp} {left right : Expr} (logical : op.isLogical = true)
    (leftOrder : left.InOrder call scope env) (rightOrder : right.InOrder call scope env) :
    (Expr.binary op left right span).InOrder call scope env := by
  intro operand compiled
  simp only [expr, logical, if_true, Compiled.bind_eq_ok] at compiled
  obtain ⟨first, compiledLeft, second, compiledRight, compiled⟩ := compiled
  simp only [values, logical, if_true]
  refine (value_follows (leftOrder _ compiledLeft)).ends ?_
  rintro value _ ⟨given, before, rfl, ordered, rfl⟩
  refine (follows_check fun error => .bool).ends ?_
  rintro truth _ ⟨rfl, known⟩
  have known : given.headD .nil = .bool truth := by
    generalize given.headD .nil = first at known
    unfold Value.asBool at known
    split at known
    · exact congrArg Value.bool (Except.ok.inj known)
    · cases known
  split
  · rename_i stops
    refine silent_pure.ends ?_
    rw [List.append_nil, List.append_nil]
    exact .decided logical ordered (by rw [known, eq_of_beq stops])
  · rename_i goesOn
    refine (value_sequence (rightOrder _ compiledRight)).ends fun _ after right => ?_
    refine silent_pure.ends ?_
    have other : truth = (op != .or) := by
      simp only [beq_iff_eq] at goesOn
      cases truth <;> cases decided : op == BinaryOp.or <;> simp_all [bne]
    simp only [List.append_nil, List.append_assoc, List.nil_append, List.singleton_append]
    exact .undecided logical ordered (by rw [known, other]) right

theorem unary {op : UnaryOp} {inner : Expr} (order : inner.InOrder call scope env) :
    (Expr.unary op inner span).InOrder call scope env := by
  intro operand compiled
  simp only [expr, Compiled.bind_eq_ok] at compiled
  obtain ⟨given, compiledInner, compiled⟩ := compiled
  simp only [values]
  refine (value_sequence (order _ compiledInner)).ends fun _ notes inner => ?_
  have complete : Ordered scope (Expr.unary op _ span) (notes ++ []) :=
    .all rfl (by rwa [List.append_nil])
  split
  · exact (silent_lift.bind fun _ => silent_pure).ends complete
  · exact silent_lift.ends complete

theorem func {head : FuncHead} {body : Block} : (Expr.func head body span).InOrder call scope env := by
  intro operand compiled
  simp only [values]
  exact (silent_lift.bind fun _ => silent_lift).ends (.all rfl .nil)

theorem index {base position : Expr} (baseOrder : base.InOrder call scope env)
    (positionOrder : position.InOrder call scope env) :
    (Expr.index base position span).InOrder call scope env := by
  intro operand compiled
  simp only [expr, Compiled.bind_eq_ok, Operand.type_eq_ok] at compiled
  obtain ⟨given, compiledBase, container, alone, type, isType, raw, compiledIndex, index,
    converted, compiled⟩ := compiled
  have known : (Compile.static scope base).type = container := by
    rw [Expr.Meant.static compiledBase, Operand.static_type alone]
  have base := value_sequence (baseOrder _ compiledBase)
  have position := value_sequence (positionOrder _ compiledIndex)
  unfold Operand.element at compiled
  split at compiled
  · simp only [values, known]
    refine position.ends fun _ before first => ?_
    refine (follows_check fun error => .int).ends ?_
    rintro _ _ ⟨rfl, -⟩
    refine base.ends fun _ after second => ?_
    refine silent_lift.ends (.all rfl ?_)
    simpa [Expr.evaluated, known] using first.append second
  · simp only [values, known]
    refine base.ends fun _ before first => ?_
    refine (follows_check fun error => .str).ends ?_
    rintro _ _ ⟨rfl, -⟩
    refine position.ends fun _ after second => ?_
    refine (silent_lift.bind fun _ => silent_lift).ends (.all rfl ?_)
    simpa [Expr.evaluated, known] using first.append second
  · simp only [values, known]
    refine position.ends fun _ before first => ?_
    refine base.ends fun _ after second => ?_
    refine (silent_lift.bind fun _ => silent_pure).ends (.all rfl ?_)
    simpa [Expr.evaluated, known] using first.append second
  · cases compiled

theorem typeAssert {inner : Expr} {written : TypeExpr} (order : inner.InOrder call scope env) :
    (Expr.typeAssert inner written span).InOrder call scope env := by
  intro operand compiled
  simp only [expr, Compiled.bind_eq_ok] at compiled
  obtain ⟨given, compiledInner, -⟩ := compiled
  simp only [values]
  refine (value_sequence (order _ compiledInner)).ends fun _ notes inner => ?_
  refine (silent_lift.bind fun _ => ?_).ends (.all rfl (by rwa [List.append_nil]))
  split
  · exact silent_pure
  · exact silent_lift

theorem arguments {targets : List Ty} {nodes : List Expr}
    (order : ∀ node ∈ nodes, node.InOrder call scope env)
    (compiled : ∀ node ∈ nodes, ∃ operand, expr scope node = .ok operand) :
    (Reference.arguments call scope env targets nodes).Follows fun _ notes =>
      Sequence scope nodes notes := by
  induction nodes generalizing targets with
  | nil =>
    simp only [Reference.arguments]
    exact follows_pure .nil
  | cons node rest ih =>
    obtain ⟨first, others⟩ := List.forall_mem_cons.mp order
    obtain ⟨⟨operand, compiled⟩, compiledRest⟩ := List.forall_mem_cons.mp compiled
    simp only [Reference.arguments]
    refine (value_sequence (first _ compiled)).bind fun _ before head => ?_
    refine (ih others compiledRest).bind fun _ after tail => ?_
    exact follows_pure (by simpa using head.append tail)

theorem sliceLit {elem : TypeExpr} {elems : List Expr}
    (order : ∀ node ∈ elems, node.InOrder call scope env) :
    (Expr.sliceLit elem elems span).InOrder call scope env := by
  intro operand compiled
  simp only [expr, Compiled.bind_eq_ok, Compiled.pure_eq_ok] at compiled
  obtain ⟨elem', resolved, items, compiledItems, rfl⟩ := compiled
  simp only [values]
  refine (follows_meaning resolved).ends ?_
  rintro _ _ ⟨rfl, rfl⟩
  refine (arguments order (operands_compiled compiledItems)).ends fun _ notes all => ?_
  exact silent_lift.ends (.all rfl (by simpa [Expr.evaluated, Expr.operands] using all))

theorem entries {key elem : Ty} {ref : MapRef} {contents : List (Expr × Expr)}
    {codes : List (Code × Code)} (order : ∀ entry ∈ contents,
      entry.1.InOrder call scope env ∧ entry.2.InOrder call scope env)
    (compiled : mapEntries scope key elem contents = .ok codes) :
    (Reference.entries call scope env key elem ref contents).Follows fun _ notes =>
      Sequence scope (contents.flatMap fun entry => [entry.1, entry.2]) notes := by
  induction contents generalizing codes with
  | nil =>
    simp only [Reference.entries]
    exact follows_pure .nil
  | cons entry rest ih =>
    obtain ⟨keyNode, valueNode⟩ := entry
    obtain ⟨⟨keyOrder, valueOrder⟩, others⟩ := List.forall_mem_cons.mp order
    simp only [mapEntries, Compiled.bind_eq_ok, Compiled.pure_eq_ok] at compiled
    obtain ⟨_, compiledKey, _, -, _, compiledValue, _, -, more, compiledRest, rfl⟩ := compiled
    simp only [Reference.entries]
    refine (value_sequence (keyOrder _ compiledKey)).bind fun _ before first => ?_
    refine (value_sequence (valueOrder _ compiledValue)).bind fun _ after second => ?_
    refine (follows_insert).bind ?_
    rintro _ _ ⟨rfl, -⟩
    refine (ih others compiledRest).mono fun _ notes all => ?_
    simpa using first.append (second.append all)

theorem mapLit {key elem : TypeExpr} {contents : List (Expr × Expr)}
    (order : ∀ entry ∈ contents, entry.1.InOrder call scope env ∧ entry.2.InOrder call scope env) :
    (Expr.mapLit key elem contents span).InOrder call scope env := by
  intro operand compiled
  simp only [expr, Compiled.bind_eq_ok] at compiled
  obtain ⟨keyType, resolvedKey, compiled⟩ := compiled
  split at compiled
  · cases compiled
  simp only [Compiled.bind_eq_ok, Compiled.pure_eq_ok] at compiled
  obtain ⟨elemType, resolvedElem, codes, compiledEntries, rfl⟩ := compiled
  simp only [values]
  refine (follows_meaning resolvedKey).ends ?_
  rintro _ _ ⟨rfl, rfl⟩
  refine (follows_meaning resolvedElem).ends ?_
  rintro _ _ ⟨rfl, rfl⟩
  have made : (lift (Run.updateHeap Heap.newMap)).Follows fun _ notes => notes = [] ∧ True :=
    follows_lift fun world => .inl ⟨_, _, rfl, trivial⟩
  refine made.ends ?_
  rintro ref _ ⟨rfl, -⟩
  refine (entries order compiledEntries).ends fun _ notes all => ?_
  exact silent_pure.ends (.all rfl (by simpa [Expr.evaluated, Expr.operands] using all))

section Calls

variable {callee : Expr} {args : List Expr} {ellipsis : Bool} {operand : Operand}

theorem conversion {target : Ty} (isType : scope.callee callee = .ok (.conversion target))
    (order : ∀ node ∈ args, node.InOrder call scope env) :
    (Expr.call callee args ellipsis span).InOrder call scope env := by
  intro operand compiled
  simp only [expr, isType, Compiled.bind_eq_ok] at compiled
  obtain ⟨_, ⟨⟩, compiled⟩ := compiled
  rcases args with _ | ⟨arg, _ | ⟨_, _⟩⟩
  · simp [Compile.conversion] at compiled
  · simp only [Compile.conversion, Compiled.bind_eq_ok] at compiled
    obtain ⟨given, compiledArg, -⟩ := compiled
    simp only [values, isType, converted]
    refine (value_sequence (order arg (.head _) _ compiledArg)).ends fun _ notes all => ?_
    have complete : Ordered scope (Expr.call callee [arg] ellipsis span) (notes ++ []) :=
      .all rfl (by simpa [Expr.evaluated, Expr.operands, isType] using all)
    split
    · exact silent_pure.ends complete
    · exact silent_pure.ends complete
  · simp [Compile.conversion] at compiled

theorem make (isMake : scope.callee callee = .ok (.builtin .make))
    (order : ∀ node ∈ args, node.InOrder call scope env) :
    (Expr.call callee args ellipsis span).InOrder call scope env := by
  intro operand compiled
  simp only [expr, isMake, Compiled.bind_eq_ok] at compiled
  obtain ⟨_, ⟨⟩, compiled⟩ := compiled
  simp only [Compiled.bind_eq_ok, beq_self_eq_true, if_true] at compiled
  obtain ⟨⟨⟩, used, compiled⟩ := compiled
  cases args with
  | nil => cases ellipsis <;> simp [Builtin.checkUse, Builtin.arity?] at used
  | cons written sizes =>
    simp only [Compile.make, Compiled.bind_eq_ok] at compiled
    obtain ⟨type, isType, found, compiledSizes, compiled⟩ := compiled
    simp only [values, isMake, List.headD_cons, List.tail_cons]
    refine (follows_meaning isType).ends ?_
    rintro type _ ⟨rfl, rfl⟩
    have sized := operands_compiled compiledSizes
    cases sizes with
    | nil =>
      have complete : Ordered scope (Expr.call callee [written] ellipsis span) [] := by
        refine .all rfl ?_
        unfold Expr.evaluated
        simp only [isMake, List.headD_cons, List.tail_cons]
        split <;> exact .nil
      cases type <;> exact silent_lift.ends complete
    | cons size rest =>
      obtain ⟨length, compiledSize⟩ := sized size (.head _)
      have first := value_sequence (order size (by simp) _ compiledSize)
      rw [List.length_cons] at isType
      cases type with
      | map key elem =>
        exact silent_lift.ends (.all rfl (by simpa [Expr.evaluated, isMake, isType] using .nil))
      | slice | chan =>
        refine first.ends fun _ notes all => ?_
        refine (silent_lift.bind fun _ => silent_lift.bind fun _ => silent_lift).ends (.all rfl ?_)
        simpa [Expr.evaluated, isMake, isType] using all
      | _ => simp [Builtin.made] at compiled

theorem builtin {function : Builtin} (isBuiltin : scope.callee callee = .ok (.builtin function))
    (plain : function ≠ .make) (order : ∀ node ∈ args, node.InOrder call scope env) :
    (Expr.call callee args ellipsis span).InOrder call scope env := by
  intro operand compiled
  simp only [expr, isBuiltin, Compiled.bind_eq_ok] at compiled
  obtain ⟨_, ⟨⟩, compiled⟩ := compiled
  simp only [Compiled.bind_eq_ok, beq_eq_false_iff_ne.mpr plain, Bool.false_eq_true, if_false]
    at compiled
  obtain ⟨⟨⟩, -, found, compiledArgs, -⟩ := compiled
  have all {targets : List Ty} :=
    @arguments call scope env targets args order (operands_compiled compiledArgs)
  cases function with
  | make => exact absurd rfl plain
  | _ =>
    simp only [values, isBuiltin]
    refine all.ends fun _ notes all => silent_lift.ends (.all rfl ?_)
    simpa [Expr.evaluated, Expr.operands, isBuiltin] using all

theorem function (isFunction : scope.callee callee = .ok .function)
    (calleeOrder : callee.InOrder call scope env)
    (order : ∀ node ∈ args, node.InOrder call scope env) :
    (Expr.call callee args ellipsis span).InOrder call scope env := by
  intro operand compiled
  simp only [expr, isFunction, Compiled.bind_eq_ok] at compiled
  obtain ⟨_, ⟨⟩, compiled⟩ := compiled
  simp only [Compiled.bind_eq_ok, Compiled.pure_eq_ok] at compiled
  obtain ⟨target, compiledCallee, signature, isSignature, found, compiledArgs, -⟩ := compiled
  have known : (Compile.static scope callee).type = signature.toTy := by
    rw [Expr.Meant.static compiledCallee, Operand.static_type (Invoke.signature_eq_ok isSignature)]
  have sized := operands_compiled compiledArgs
  simp only [values, isFunction, known, Signature.toTy]
  refine (value_sequence (calleeOrder _ compiledCallee)).ends fun _ before first => ?_
  have given : (if forwards scope ellipsis args then forwarded call scope env args
      else Reference.arguments call scope env
        (Signature.targets ⟨signature.params, signature.results, signature.variadic⟩ ellipsis args.length)
        args).Follows fun _ notes => Sequence scope args notes := by
    split
    · rename_i forwards
      rcases args with _ | ⟨single, _ | ⟨_, _⟩⟩
      · cases forwards
      · obtain ⟨operand, compiled⟩ := sized single (.head _)
        refine (operand_follows (order single (.head _) operand compiled)).mono ?_
        rintro _ _ ⟨before, ordered, rfl⟩
        exact .single ordered
      · cases forwards
    · exact arguments order sized
  refine given.ends fun _ after rest => ?_
  refine (silent_lift.bind fun _ => silent_lift.bind fun _ => silent_pure).ends (.all rfl ?_)
  simpa [Expr.evaluated, Expr.operands, isFunction] using first.append rest

end Calls

end Expr.InOrder

mutual

theorem Expr.inOrder : ∀ node : Expr, node.InOrder call scope env
  | .ident _ => .ident
  | .int _ _ | .float _ _ | .bool _ _ | .string _ _ => by
    intro operand compiled
    simp only [values]
    exact Noted.silent_pure.ends (.all rfl .nil)
  | .binary op left right _ =>
    match logical : op.isLogical with
    | true => .logical logical left.inOrder right.inOrder
    | false => .binary logical left.inOrder right.inOrder
  | .unary _ operand _ => .unary operand.inOrder
  | .call callee args _ _ => by
    have order := Expr.all_inOrder args
    intro operand compiled
    match isCallee : scope.callee callee with
    | .error _ => simp [Compile.expr, isCallee] at compiled
    | .ok (.conversion _) => exact Expr.InOrder.conversion isCallee order operand compiled
    | .ok .function => exact Expr.InOrder.function isCallee callee.inOrder order operand compiled
    | .ok (.builtin function) =>
      by_cases isMake : function = .make
      · exact Expr.InOrder.make (isMake ▸ isCallee) order operand compiled
      · exact Expr.InOrder.builtin isCallee isMake order operand compiled
  | .func _ _ _ => .func
  | .index base position _ => .index base.inOrder position.inOrder
  | .sliceLit _ elems _ => .sliceLit (Expr.all_inOrder elems)
  | .mapLit _ _ contents _ => .mapLit (Expr.entries_inOrder contents)
  | .typeAssert operand _ _ => .typeAssert operand.inOrder
  | .type _ _ => by
    intro operand compiled
    simp [Compile.expr] at compiled

theorem Expr.all_inOrder : ∀ nodes : List Expr, ∀ node ∈ nodes, node.InOrder call scope env
  | [] => List.forall_mem_nil _
  | first :: rest => List.forall_mem_cons.mpr ⟨first.inOrder, Expr.all_inOrder rest⟩

theorem Expr.entries_inOrder : ∀ contents : List (Expr × Expr), ∀ entry ∈ contents,
    entry.1.InOrder call scope env ∧ entry.2.InOrder call scope env
  | [] => List.forall_mem_nil _
  | (key, value) :: rest =>
    List.forall_mem_cons.mpr ⟨⟨key.inOrder, value.inOrder⟩, Expr.entries_inOrder rest⟩

end

section Pairs

open Noted

theorem Compile.commaOk_inOrder {operand : Operand}
    (compiled : commaOk scope node = .ok (some operand)) :
    (pair call scope env node).Ends (Ordered scope node) := by
  unfold commaOk at compiled
  split at compiled
  · rename_i base position span
    simp only [Compiled.bind_eq_ok, Operand.type_eq_ok] at compiled
    obtain ⟨given, compiledBase, container, alone, compiled⟩ := compiled
    split at compiled
    · rename_i key elem
      simp only [Compiled.bind_eq_ok] at compiled
      obtain ⟨raw, compiledIndex, -⟩ := compiled
      have known : (Compile.static scope base).type = .map key elem := by
        rw [Expr.Meant.static compiledBase, Operand.static_type alone]
      simp only [pair, known]
      refine (value_sequence (position.inOrder _ compiledIndex)).ends fun _ before first => ?_
      refine (value_sequence (base.inOrder _ compiledBase)).ends fun _ after second => ?_
      refine (silent_lift.bind fun found => ?_).ends (.all rfl ?_)
      · cases found <;> exact silent_pure
      · simpa [Expr.evaluated, known] using first.append second
    · cases compiled
  · rename_i channel span
    simp only [Compiled.bind_eq_ok] at compiled
    obtain ⟨given, compiledInner, -⟩ := compiled
    simp only [pair]
    refine (value_sequence (channel.inOrder _ compiledInner)).ends fun _ notes inner => ?_
    refine (silent_lift.bind fun _ => silent_pure).ends (.all rfl ?_)
    rwa [List.append_nil]
  · rename_i inner written span
    simp only [Compiled.bind_eq_ok] at compiled
    obtain ⟨given, compiledInner, -⟩ := compiled
    simp only [pair]
    refine (value_sequence (inner.inOrder _ compiledInner)).ends fun _ notes inner => ?_
    refine (silent_lift.bind fun _ => ?_).ends (.all rfl (by rwa [List.append_nil]))
    split <;> exact silent_pure
  · cases compiled

theorem Compile.place_inOrder {target : Place} (compiled : place scope node = .ok target) :
    (location call scope env node).Ends (Sequence scope (node.operands scope)) := by
  unfold place at compiled
  split at compiled
  · rename_i ident
    simp only [location]
    split
    · exact silent_lift.ends .nil
    · exact silent_pure.ends .nil
    · exact silent_lift.ends .nil
  · rename_i base position span
    simp only [Compiled.bind_eq_ok] at compiled
    obtain ⟨given, compiledBase, container, -, type, -, raw, compiledIndex, -⟩ := compiled
    simp only [location]
    refine (value_sequence (base.inOrder _ compiledBase)).ends fun _ before first => ?_
    refine (value_sequence (position.inOrder _ compiledIndex)).ends fun _ after second => ?_
    refine (silent_lift.bind fun _ => silent_lift).ends ?_
    simpa [Expr.operands] using first.append second
  · cases compiled

end Pairs

/-- Wherever an evaluation comes to an end that is not cut short by an operand, or by a value that is
not of its type, the operands have been evaluated in order, each of them once. This is the order in which
they are written, and in which the operands of a target are evaluated, but for two forms: the index of a
slice or map comes before it, and of its sizes `make` takes one at most. -/
theorem operands_in_order (scope : Scope) (node : Expr) :
    (∀ operand, Compile.expr scope node = .ok operand → ∀ (call : Caller) (env : EnvRef),
      evalValues call env operand.toValues = (values call scope env node).forget ∧
        (values call scope env node).Ends (Ordered scope node)) ∧
    (∀ operand, Compile.commaOk scope node = .ok (some operand) → ∀ (call : Caller) (env : EnvRef),
      evalValues call env operand.toValues = (pair call scope env node).forget ∧
        (pair call scope env node).Ends (Ordered scope node)) ∧
    (∀ target, Compile.place scope node = .ok target → ∀ (call : Caller) (env : EnvRef),
      Location.ofPlace call env target = (location call scope env node).forget ∧
        (location call scope env node).Ends (Sequence scope (node.operands scope))) ∧
    (node.evaluated scope = node.operands scope ∨
      (∃ base index span, node = .index base index span ∧ (static scope base).type ≠ .string ∧
        node.operands scope = [base, index] ∧ node.evaluated scope = [index, base]) ∨
      ∃ callee args ellipsis span, node = .call callee args ellipsis span ∧
        scope.callee callee = .ok (.builtin .make) ∧
        ∃ used ≤ 1, node.evaluated scope = (node.operands scope).take used) := by
  refine ⟨fun operand compiled call env => ⟨(node.meant operand compiled).values, ?_⟩,
    fun operand compiled call env => ⟨Compile.commaOk_meant compiled, ?_⟩,
    fun target compiled call env => ⟨Compile.place_meant compiled, ?_⟩, ?_⟩
  · exact node.inOrder operand compiled
  · exact Compile.commaOk_inOrder compiled
  · exact Compile.place_inOrder compiled
  · unfold Expr.evaluated
    split
    · rename_i base position span
      split
      · exact .inl rfl
      · rename_i notString
        exact .inr (.inl ⟨base, position, span, rfl, notString, rfl, rfl⟩)
    · rename_i callee args ellipsis span
      split
      · rename_i isMake
        refine .inr (.inr ⟨callee, args, ellipsis, span, rfl, isMake, ?_⟩)
        simp only [Expr.operands, isMake]
        split
        · exact ⟨0, Nat.zero_le 1, rfl⟩
        · exact ⟨1, Nat.le_refl 1, rfl⟩
      · exact .inl rfl
    · exact .inl rfl

/-- An element of a map, which is looked up, looked up with a flag and assigned. -/
theorem operands_in_order_element :
    let scope : Scope := [{ owned := true, symbols :=
      [("m", .var ⟨.object, 0, .map .int .bool⟩), ("key", .var ⟨.object, 1, .func [] [.int] false⟩)] }]
    let base : Expr := .ident ⟨"m", {}⟩
    let key : Expr := .call (.ident ⟨"key", {}⟩) [] false {}
    let element : Expr := .index base key {}
    ∃ operand pairs target, Compile.expr scope element = .ok operand ∧
      Compile.commaOk scope element = .ok (some pairs) ∧ Compile.place scope element = .ok target ∧
      ∀ (call : Caller) (env : EnvRef),
        (values call scope env element).Ends (Ordered scope element) ∧
        (pair call scope env element).Ends (Ordered scope element) ∧
        (location call scope env element).Ends (Sequence scope [base, key]) := by
  intro scope base key element
  refine ⟨_, _, _, rfl, rfl, rfl, fun call env => ?_⟩
  have order := operands_in_order scope element
  exact ⟨(order.1 _ rfl call env).2, (order.2.1 _ rfl call env).2, (order.2.2.1 _ rfl call env).2⟩

/-- A file that indexes what one function gives with what another one gives, and makes a slice with a
capacity. Each function prints its name. -/
def exchanged : SourceFile :=
  let ident (name : String) : Expr := .ident ⟨name, {}⟩
  let apply (name : String) : Expr := .call (ident name) [] false {}
  let function (name : String) (result : TypeExpr) (value : Expr) : Decl :=
    .func ⟨name, {}⟩ { results := [⟨none, result⟩] }
      (.mk [.expr (.call (ident "println") [.string name {}] false {}), .ret [value] {}] {}) {}
  [function "base" (.slice (.named "int")) (.sliceLit (.named "int") [.int 7 {}] {}),
    function "index" (.named "int") (.int 0 {}),
    function "size" (.named "int") (.int 1 {}),
    function "capacity" (.named "int") (.int 2 {}),
    .func ⟨"init", {}⟩ {} (.mk
      [.assign [ident "_"] .assign [.index (apply "base") (apply "index") {}] {},
        .assign [ident "_"] .assign [.call (ident "make")
          [.type (.slice (.named "int")) {}, apply "size", apply "capacity"] false {}] {}] {}) {}]

/-- The index is evaluated before the slice, and the capacity is not evaluated. -/
theorem operands_in_order_exchanged :
    ((Interpreter.new (Options.capturing {})).load 60 exchanged).2.world.output =
      "index\nbase\nsize\n" := by
  decide +kernel

end MiniGo
