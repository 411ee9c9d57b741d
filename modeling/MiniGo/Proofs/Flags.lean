import MiniGo.Proofs.Histories
import MiniGo.Proofs.Shorthands
/-!
Values with a flag. An element of a map, a receive and a type assertion give a value, or the value and
a flag after it. Both forms evaluate the same operands and wait for the same; then they have the same
value, or fail alike. Only a type assertion that does not hold fails in the first form and not in the
second.
-/

namespace MiniGo

open Compile (commaOk expr rhs)

def Expr.IsFlagged (scope : Scope) : Expr → Prop
  | .index base _ _ => ∃ operand key elem, expr scope base = .ok operand ∧
      operand.type = .ok (.map key elem)
  | .unary .recv _ _ | .typeAssert _ _ _ => True
  | _ => False

def CodeOf.flagged : Code → Values
  | .mapIndex elem base key => .mapLookup elem base key
  | .receive channel => .receiveOk channel
  | .typeAssert target operand => .typeAssertOk target operand
  | other => .each [other]

def Operand.flagged (operand : Operand) : Operand :=
  .multi (operand.types ++ [.bool]) operand.toCode.flagged operand.span

def CodeOf.operands : Code → List Code
  | .mapIndex _ base key => [key, base]
  | .receive channel => [channel]
  | .typeAssert _ operand => [operand]
  | _ => []

section Compiling

variable {scope : Scope} {node : Expr}

theorem Compile.commaOk_eq (flagged : node.IsFlagged scope) :
    commaOk scope node = (fun operand => some operand.flagged) <$> expr scope node := by
  match node, flagged with
  | .index base index span, ⟨operand, key, elem, isBase, isMap⟩ =>
    simp only [commaOk, expr, isBase, isMap, Operand.indexType, Operand.element, bind, Except.bind,
      pure, Except.pure]
    cases expr scope index with
    | error => rfl
    | ok position =>
      dsimp only
      cases position.convertTo key <;> rfl
  | .unary .recv channel span, _ =>
    simp only [commaOk, expr]
    cases expr scope channel with
    | error => rfl
    | ok operand =>
      cases isType : operand.type with
      | error fault => simp [bind, Except.bind, Operand.unary, isType, Functor.map, Except.map]
      | ok type =>
        simp only [bind, Except.bind, Operand.unary, Operand.receive, isType, beq_self_eq_true,
          if_true]
        cases Operand.recvElem type span <;> rfl
  | .typeAssert operand written span, _ =>
    simp only [commaOk, expr]
    cases expr scope operand with
    | error => rfl
    | ok subject =>
      cases isCode : subject.interfaceCode operand.span with
      | error fault => simp [bind, Except.bind, isCode, Functor.map, Except.map]
      | ok code =>
        simp only [bind, Except.bind, isCode]
        cases scope.resolve span written <;> rfl

theorem Compile.rhs_eq (flagged : node.IsFlagged scope) (span : Span) :
    rhs scope 2 span [node] = (fun operand => .multi operand.flagged) <$> expr scope node := by
  rw [rhs, if_pos rfl, commaOk_eq flagged]
  cases expr scope node <;> rfl

inductive CodeOf.IsFlagged : Code → Prop
  | entry {elem base key} : IsFlagged (.mapIndex elem base key)
  | receive {channel} : IsFlagged (.receive channel)
  | assertion {target operand} : IsFlagged (.typeAssert target operand)

theorem Compile.expr_flagged {operand : Operand} (flagged : node.IsFlagged scope)
    (compiled : expr scope node = .ok operand) :
    ∃ type code, operand = .single type code operand.span ∧ code.IsFlagged := by
  match node, flagged with
  | .index base index span, ⟨found, key, elem, isBase, isMap⟩ =>
    simp only [expr, isBase, Operand.element, Compiled.bind_eq_ok] at compiled
    obtain ⟨_, ⟨⟩, container, isContainer, _, -, _, -, _, -, compiled⟩ := compiled
    obtain rfl := Except.ok.inj (isMap.symm.trans isContainer)
    obtain rfl := Except.ok.inj compiled
    exact ⟨elem, _, rfl, .entry⟩
  | .unary .recv channel span, _ =>
    simp only [expr, Operand.unary, Operand.receive, Compiled.bind_eq_ok, beq_self_eq_true, if_true,
      Compiled.pure_eq_ok] at compiled
    obtain ⟨_, -, _, -, _, -, elem, -, rfl⟩ := compiled
    exact ⟨elem, _, rfl, .receive⟩
  | .typeAssert subject written span, _ =>
    simp only [expr, Compiled.bind_eq_ok, Compiled.pure_eq_ok] at compiled
    obtain ⟨_, -, _, -, target, -, rfl⟩ := compiled
    exact ⟨target, _, rfl, .assertion⟩

end Compiling

/-- Two outcomes that go on alike: they wait for the same, in the same state, whatever the state is when
the wait is over, and end in the same state, as `ends` says. -/
inductive Outcome.Alongside {α β : Type}
    (ends : World → Except RuntimeError α → Except RuntimeError β → Prop) :
    Outcome α → Outcome β → Prop
  | done {value other world} : ends world (.ok value) (.ok other) →
    Alongside ends (.done value world) (.done other world)
  | fail {error other world} : ends world (.error error) (.error other) →
    Alongside ends (.fail error world) (.fail other world)
  | lacks {error other world} : ends world (.error error) (.ok other) →
    Alongside ends (.fail error world) (.done other world)
  | await {wait world resume other} :
    (∀ later : World, wait.isOver later.exchange = true →
      Alongside ends (resume later) (other later)) →
    Alongside ends (.await wait world resume) (.await wait world other)

/-- The two forms evaluate some operands, one after the other, and from the values of all of them come
to their ends alongside. -/
def Run.Alongside {α β : Type} (call : Caller) (env : EnvRef)
    (ends : List Value → World → Except RuntimeError α → Except RuntimeError β → Prop) :
    List Code → List Value → Run α → Run β → Prop
  | [], given, run, other => ∀ world, (run world).Alongside (ends given) (other world)
  | code :: codes, given, run, other => ∃ next otherNext,
      run = eval call env code >>= next ∧ other = eval call env code >>= otherNext ∧
        ∀ value, Run.Alongside call env ends codes (given ++ [value]) (next value) (otherNext value)

/-- What code gives from the values of its operands, alone and with the flag, and the state then. -/
inductive CodeOf.Answers : Code → List Value → World → Except RuntimeError Value →
    Except RuntimeError (List Value) → Prop
  | present {elem base key found keyType type ref word value world} :
    MapKey.ofValue found = .ok word →
    (world.heap.entries ref).get? word = some value →
    Answers (.mapIndex elem base key) [found, .map keyType type ref] world (.ok value)
      (.ok [value, .bool true])
  | absent {elem base key found keyType type ref word world} :
    MapKey.ofValue found = .ok word →
    (world.heap.entries ref).get? word = none →
    Answers (.mapIndex elem base key) [found, .map keyType type ref] world (.ok (.zero elem))
      (.ok [.zero elem, .bool false])
  | noMap {elem base key found map world} :
    (∀ keyType type ref, map ≠ .map keyType type ref) →
    Answers (.mapIndex elem base key) [found, map] world (.ok (.zero elem))
      (.ok [.zero elem, .bool false])
  | noKey {elem base key found keyType type ref error world} :
    MapKey.ofValue found = .error error →
    Answers (.mapIndex elem base key) [found, .map keyType type ref] world (.error error)
      (.error error)
  | received {channel elem ref value world} :
    Answers (.receive channel) [.chan elem ref] world (.ok value) (.ok [value, .bool true])
  | ended {channel elem ref world} :
    (world.exchange.channel ref).closed = true →
    (world.exchange.channel ref).buffer = [] →
    Answers (.receive channel) [.chan elem ref] world (.ok (.zero elem))
      (.ok [.zero elem, .bool false])
  | noChannel {channel found error world} :
    (∀ elem ref, found ≠ .chan elem ref) →
    Answers (.receive channel) [found] world (.error error) (.error error)
  | holds {target operand value world} :
    value.hasType target = true →
    Answers (.typeAssert target operand) [value] world (.ok value) (.ok [value, .bool true])
  | fails {target operand value world} :
    value.hasType target = false →
    Answers (.typeAssert target operand) [value] world (.error (value.assertionFailure target))
      (.ok [.zero target, .bool false])

section Answering

variable {call : Caller} {env : EnvRef} {world : World}

theorem Run.mapEntry_alongside {elem : Ty} {base key : Code} (found map : Value) (world : World) :
    ((Run.mapEntry map found >>= fun entry => pure (entry.getD (.zero elem))) world).Alongside
      (CodeOf.Answers (.mapIndex elem base key) [found, map])
      ((Run.mapEntry map found >>= fun entry =>
        match entry with
        | some value => pure [value, .bool true]
        | none => pure [.zero elem, .bool false]) world) := by
  cases map with
  | map keyType type ref =>
    cases isWord : MapKey.ofValue found with
    | error error =>
      have looked : Run.mapEntry (.map keyType type ref) found world = .fail error world := by
        simp [Run.mapEntry, Run.tryRead, Heap.entry?, isWord]
      change (Run.bind _ _ world).Alongside _ (Run.bind _ _ world)
      rw [Run.bind_apply, Run.bind_apply, looked]
      exact .fail (.noKey isWord)
    | ok word =>
      have looked : Run.mapEntry (.map keyType type ref) found world =
          .done ((world.heap.entries ref).get? word) world := by
        simp [Run.mapEntry, Run.tryRead, Heap.entry?, isWord]
      rw [Run.bind_done looked, Run.bind_done looked]
      cases isEntry : (world.heap.entries ref).get? word with
      | some value => exact .done (.present isWord isEntry)
      | none => exact .done (.absent isWord isEntry)
  | _ => exact .done (.noMap (by simp))

theorem Exchange.leaveRecv_none {exchange : Exchange} {ref : ChanRef}
    (arrived : exchange.canRecv ref = true) (nothing : (exchange.leaveRecv ref).1 = none) :
    ((exchange.leaveRecv ref).2.channel ref).closed = true ∧
      ((exchange.leaveRecv ref).2.channel ref).buffer = [] := by
  have has : exchange.Has ref := by
    by_contra absent
    simp [canRecv, channel_absent absent, Channel.isReadable] at arrived
  have told := leaveRecv_answer has arrived
  rw [nothing] at told
  cases isBuffer : (exchange.channel ref).buffer with
  | cons value rest => simp [receipt, isBuffer, Report.receives] at told
  | nil =>
    have isClosed : (exchange.channel ref).closed = true := by
      by_contra isOpen
      rw [Bool.not_eq_true] at isOpen
      simp only [receipt, isBuffer, isOpen, Bool.false_eq_true, if_false] at told
      split at told <;> simp [Report.receives] at told
    have same : (exchange.leaveRecv ref).2 = exchange.leaving ref := by
      simp [leaveRecv, leaving, take, channel_update has, Channel.isReadable, isBuffer, isClosed]
    rw [same, leaving_channel has]
    exact ⟨isClosed, isBuffer⟩

theorem Run.waitFor_alongside {α β : Type} {next : Unit → Run α} {other : Unit → Run β}
    {ends : World → Except RuntimeError α → Except RuntimeError β → Prop} (wait : Wait)
    (goes : ∀ later : World, wait.isOver later.exchange = true →
      (next () later).Alongside ends (other () later)) (world : World) :
    ((Run.waitFor wait >>= next) world).Alongside ends ((Run.waitFor wait >>= other) world) := by
  change (Run.bind _ _ world).Alongside ends (Run.bind _ _ world)
  rw [Run.bind_apply, Run.bind_apply, Run.waitFor]
  split
  · next isOver => exact goes world isOver
  · exact .await goes

theorem Run.recvFrom_alongside {channel : Code} (found : Value) (world : World) :
    ((Run.recvFrom found >>= fun received => pure received.1) world).Alongside
      (CodeOf.Answers (.receive channel) [found])
      ((Run.recvFrom found >>= fun received => pure [received.1, .bool received.2]) world) := by
  cases found with
  | chan elem ref =>
    have leaves (later : World) (arrived : later.exchange.canRecv ref = true) :
        Outcome.Alongside (CodeOf.Answers (.receive channel) [.chan elem ref])
          (((Run.updateExchange (·.leaveRecv ref) >>= fun found => pure (received elem found)) >>=
            fun received => pure received.1) later)
          (((Run.updateExchange (·.leaveRecv ref) >>= fun found => pure (received elem found)) >>=
            fun received => pure [received.1, .bool received.2]) later) := by
      have left : Run.updateExchange (·.leaveRecv ref) later = .done (later.exchange.leaveRecv ref).1
          { later with exchange := (later.exchange.leaveRecv ref).2 } := rfl
      rw [Run.bind_assoc, Run.bind_assoc, Run.bind_done left, Run.bind_done left]
      cases isFound : (later.exchange.leaveRecv ref).1 with
      | some value => exact .done .received
      | none =>
        obtain ⟨isClosed, isEmpty⟩ := Exchange.leaveRecv_none arrived isFound
        exact .done (.ended isClosed isEmpty)
    have enters : Run.modify (fun world => { world with exchange := world.exchange.enterRecv ref })
        world = .done () { world with exchange := world.exchange.enterRecv ref } := rfl
    simp only [Run.recvFrom, Run.recv, Run.bind_assoc, Run.bind_done enters] at leaves ⊢
    exact Run.waitFor_alongside (.arrival ref) (fun later arrived => leaves later arrived) _
  | _ => exact .fail (.noChannel (by simp))

theorem typeAssert_alongside {target : Ty} {operand : Code} (value : Value) (world : World) :
    ((if value.hasType target then pure value else Run.fail (value.assertionFailure target) :
        Run Value) world).Alongside (CodeOf.Answers (.typeAssert target operand) [value])
      ((if value.hasType target then pure [value, .bool true] else pure [.zero target, .bool false] :
        Run (List Value)) world) := by
  cases holds : value.hasType target with
  | true => exact .done (.holds holds)
  | false => exact .lacks (.fails holds)

theorem CodeOf.IsFlagged.alongside {code : Code} (flagged : code.IsFlagged) (call : Caller)
    (env : EnvRef) :
    Run.Alongside call env code.Answers code.operands [] (eval call env code)
      (evalValues call env code.flagged) := by
  cases flagged with
  | entry =>
    exact ⟨_, _, rfl, rfl, fun key => ⟨_, _, rfl, rfl, fun base world =>
      Run.mapEntry_alongside key base world⟩⟩
  | receive => exact ⟨_, _, rfl, rfl, fun found world => Run.recvFrom_alongside found world⟩
  | assertion => exact ⟨_, _, rfl, rfl, fun value world => typeAssert_alongside value world⟩

end Answering

/-- An element of a map, a receive and a type assertion have two forms. Wherever one of them compiles,
so does the other, with the same type for the value and a truth value after it, or with the same fault.
In every state they evaluate the same operands in the same order, wait for the same, and answer alike:
the values agree, the flag tells whether the key is there, whether a value was received from a channel
that is not both closed and empty, or whether the assertion holds; and they fail with the same error,
but for an assertion that does not hold. -/
theorem flagged_forms_agree {scope : Scope} {node : Expr} (flagged : node.IsFlagged scope) :
    commaOk scope node = (fun operand => some operand.flagged) <$> expr scope node ∧
    (∀ span, rhs scope 2 span [node] =
      (fun operand => .multi operand.flagged) <$> expr scope node) ∧
    ∀ operand, expr scope node = .ok operand →
      ∃ type code, operand = .single type code operand.span ∧
        operand.flagged = .multi [type, .bool] code.flagged operand.span ∧
        ∀ (call : Caller) (env : EnvRef), Run.Alongside call env code.Answers code.operands []
          (eval call env code) (evalValues call env code.flagged) := by
  refine ⟨Compile.commaOk_eq flagged, Compile.rhs_eq flagged, fun operand compiled => ?_⟩
  obtain ⟨type, code, same, isFlagged⟩ := Compile.expr_flagged flagged compiled
  refine ⟨type, code, same, ?_, isFlagged.alongside⟩
  rw [same]
  rfl

/-- An element of a map that a variable holds. -/
theorem flagged_forms_agree_element :
    let scope : Scope := [{ owned := true, symbols := [("m", .var ⟨.object, 0, .map .int .bool⟩)] }]
    let element : Expr := .index (.ident ⟨"m", {}⟩) (.int 3 {}) {}
    let code : Code := .mapIndex .bool (.load 0 ⟨.object, 0, .map .int .bool⟩) (.const (.int 3))
    element.IsFlagged scope ∧ expr scope element = .ok (.single .bool code {}) ∧
      commaOk scope element = .ok (some (.multi [.bool, .bool] code.flagged {})) ∧
      ∀ (call : Caller) (env : EnvRef), Run.Alongside call env code.Answers
        [.const (.int 3), .load 0 ⟨.object, 0, .map .int .bool⟩] [] (eval call env code)
          (evalValues call env code.flagged) := by
  intro scope element code
  have flagged : element.IsFlagged scope := ⟨_, .int, .bool, rfl, rfl⟩
  have compiled : expr scope element = .ok (.single .bool code {}) := rfl
  obtain ⟨both, -, agree⟩ := flagged_forms_agree flagged
  obtain ⟨type, found, same, -, alongside⟩ := agree _ compiled
  cases same
  refine ⟨flagged, compiled, ?_, alongside⟩
  rw [both, compiled]
  rfl

end MiniGo
