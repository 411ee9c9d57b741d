import MiniGo.Proofs.Contents
/-!
What evaluation does with values: operators, elements, entries and communications take values of the
types they are typed with, and give values of the types they promise.
-/

namespace MiniGo

variable {strict : Prop}

namespace RuntimeError

theorem allowed_panic (message : String) : (panic message).Allowed strict :=
  fun _ fault => nomatch fault

theorem allowed_indexOutOfRange (index : Int64) (length : Nat) :
    (indexOutOfRange index length).Allowed strict := fun _ fault => nomatch fault

theorem allowed_divisionByZero : divisionByZero.Allowed strict := fun _ fault => nomatch fault

theorem allowed_nilMap : nilMap.Allowed strict := fun _ fault => nomatch fault

theorem allowed_nilFunc : nilFunc.Allowed strict := fun _ fault => nomatch fault

theorem allowed_closedChannel (use : ClosedUse) : (closedChannel use).Allowed strict :=
  fun _ fault => nomatch fault

theorem allowed_unsupported {message : String} (ending : message.toList.getLast? ≠ some 'y') :
    (unsupported message).Allowed strict := by
  intro _ fault
  generalize same : unsupported message = error at fault
  cases fault with
  | mapKey =>
    rename_i kind
    obtain rfl := RuntimeError.unsupported.inj same
    apply ending
    have tail : " is not a valid map key".toList.getLast? = some 'y' := by decide
    rw [String.toList_append, List.getLast?_append, tail]
    rfl
  | _ => simp at same

end RuntimeError

namespace Except

variable {ε α β : Type} {first : Except ε α} {next : α → Except ε β}

theorem bind_eq_ok {value : β} : (first >>= next) = .ok value ↔
    ∃ middle, first = .ok middle ∧ next middle = .ok value := by
  cases first <;> simp [bind, Except.bind]

theorem bind_eq_error {error : ε} : (first >>= next) = .error error ↔
    first = .error error ∨ ∃ middle, first = .ok middle ∧ next middle = .error error := by
  cases first <;> simp [bind, Except.bind]

end Except

theorem checkedIndex_eq_ok {index : Int64} {length position : Nat} :
    checkedIndex index length = .ok position ↔ index.toInt = position ∧ position < length := by
  unfold checkedIndex
  split
  · simp only [pure, Except.pure, Except.ok.injEq]
    omega
  · simp only [throw, throwThe, MonadExceptOf.throw, reduceCtorEq, false_iff]
    omega

theorem Heap.item_eq_ok {heap : Heap} {ref : SliceRef} {index : Int64} {value : Value} :
    heap.item ref index = .ok value ↔
      ∃ position : Nat, index.toInt = position ∧ (heap.items ref)[position]? = some value := by
  simp only [item, Except.bind_eq_ok, checkedIndex_eq_ok, Array.getElem?_eq_some_iff, pure, Except.pure,
    Except.ok.injEq]
  constructor
  · rintro ⟨position, ⟨isIndex, bound⟩, same⟩
    exact ⟨position, isIndex, bound, by simpa [Array.getD, bound] using same⟩
  · rintro ⟨position, isIndex, bound, same⟩
    exact ⟨position, ⟨isIndex, bound⟩, by simpa [Array.getD, bound] using same⟩

theorem Const.intOp_spec {op : BinaryOp} (noLogical : op.isLogical = false) (left right : Int64) :
    (∃ value, Const.intOp op left right = .ok value ∧
      value.type = if op.isComparison then .bool else .int) ∨
      Const.intOp op left right = .error .divisionByZero := by
  cases op <;> cases noLogical
  case div.refl | rem.refl =>
    simp only [Const.intOp]
    split
    · exact Or.inr rfl
    · exact Or.inl ⟨_, rfl, rfl⟩
  all_goals exact Or.inl ⟨_, rfl, rfl⟩

namespace Value

theorem is_self (value : Value) : value.Is value.dynamicType := Ty.assignableTo_refl _

theorem binary_spec {op : BinaryOp} {left right : Value} {leftType rightType result : Ty}
    (takes : op.Takes leftType rightType result) (leftIs : left.Is leftType)
    (rightIs : right.Is rightType) :
    (∃ value, Value.binary op left right = .ok value ∧ value.Is result) ∨
      Value.binary op left right = .error .divisionByZero := by
  cases takes with
  | equality isEquality =>
    cases op <;> simp [BinaryOp.isEquality] at isEquality
    all_goals exact Or.inl ⟨_, rfl, is_self _⟩
  | same noEquality noLogical allowed =>
    have kinds : leftType = .int ∨ leftType = .float ∨ leftType = .string := by
      cases op <;> cases leftType <;>
        simp_all [BinaryOp.isEquality, BinaryOp.isLogical, Operand.allows, Ty.isNumeric]
    rcases kinds with rfl | rfl | rfl
    · obtain ⟨first, rfl⟩ := leftIs.eq_int
      obtain ⟨second, rfl⟩ := rightIs.eq_int
      have applied : Value.binary op (.int first) (.int second) =
          (Const.intOp op first second).map Value.const := by
        cases op <;> cases noEquality <;> rfl
      rw [applied]
      rcases Const.intOp_spec noLogical first second with ⟨value, ok, type⟩ | failed
      · exact Or.inl ⟨.const value, by rw [ok]; rfl, by simp [Is, dynamicType, type,
          Ty.assignableTo_refl]⟩
      · exact Or.inr (by rw [failed]; rfl)
    · obtain ⟨first, rfl⟩ := leftIs.eq_float
      obtain ⟨second, rfl⟩ := rightIs.eq_float
      cases op <;> cases noEquality <;> cases noLogical <;> cases allowed
      all_goals exact Or.inl ⟨_, rfl, is_self _⟩
    · obtain ⟨first, rfl⟩ := leftIs.eq_str
      obtain ⟨second, rfl⟩ := rightIs.eq_str
      cases op <;> cases noEquality <;> cases noLogical <;> cases allowed
      all_goals exact Or.inl ⟨_, rfl, is_self _⟩

theorem binary_known [Natives] {shape : Shape strict} {op : BinaryOp} {left right value : Value}
    (ok : Value.binary op left right = .ok value) : value.Known shape := by
  unfold Value.binary at ok
  split at ok
  · obtain rfl := Except.ok.inj ok
    trivial
  · obtain rfl := Except.ok.inj ok
    trivial
  · split at ok
    · simp only [bind, Except.bind] at ok
      split at ok
      · simp at ok
      · obtain rfl := Except.ok.inj ok
        trivial
    · simp [throw, throwThe, MonadExceptOf.throw] at ok

theorem unary_spec {op : UnaryOp} {operand : Value} {type : Ty} (takes : op.Takes type)
    (is : operand.Is type) : ∃ value, Value.unary op operand = .ok value ∧ value.Is type := by
  cases takes with
  | neg numeric =>
    cases type <;> simp [Ty.isNumeric] at numeric
    · obtain ⟨number, rfl⟩ := is.eq_int
      exact ⟨_, rfl, is_self _⟩
    · obtain ⟨number, rfl⟩ := is.eq_float
      exact ⟨_, rfl, is_self _⟩
  | not =>
    obtain ⟨truth, rfl⟩ := is.eq_bool
    exact ⟨_, rfl, is_self _⟩

theorem unary_known [Natives] {shape : Shape strict} {op : UnaryOp} {operand value : Value}
    (ok : Value.unary op operand = .ok value) :
    value.Known shape := by
  unfold Value.unary at ok
  split at ok
  · simp only [bind, Except.bind] at ok
    split at ok
    · simp at ok
    · obtain rfl := Except.ok.inj ok
      trivial
  · simp [throw, throwThe, MonadExceptOf.throw] at ok

theorem convert_is {operand : Value} {source target : Ty} (converts : source.Converts target)
    (is : operand.Is source) : (operand.convert target).Is target := by
  cases converts with
  | number fromNumeric toNumeric =>
    cases source <;> simp [Ty.isNumeric] at fromNumeric
    · obtain ⟨number, rfl⟩ := is.eq_int
      cases target <;> simp [Ty.isNumeric] at toNumeric
      all_goals exact is_self _
    · obtain ⟨number, rfl⟩ := is.eq_float
      cases target <;> simp [Ty.isNumeric] at toNumeric
      all_goals exact is_self _
  | codePoint =>
    obtain ⟨number, rfl⟩ := is.eq_int
    exact is_self _

theorem Known.convert [Natives] {shape : Shape strict} {operand : Value}
    (known : operand.Known shape) (target : Ty) :
    (operand.convert target).Known shape := by
  cases operand with
  | const constant => trivial
  | _ => exact known

end Value

section Operations

variable [Natives] {start : Config strict} {task : ThreadRef} {floor : Nat}

namespace Run

theorem binary_meets {op : BinaryOp} {left right : Value} {leftType rightType result : Ty}
    (quiet : start.Quiet task) (takes : op.Takes leftType rightType result)
    (leftIs : strict → left.Is leftType) (rightIs : strict → right.Is rightType) :
    (ofExcept (Value.binary op left right)).Meets start task floor
      fun now value => value.Inhabits now.shape result := by
  refine ofExcept_meets quiet (fun value ok => ⟨Value.binary_known ok, fun isStrict => ?_⟩)
    fun error failed isStrict => ?_
  · rcases Value.binary_spec takes (leftIs isStrict) (rightIs isStrict) with
      ⟨found, isFound, is⟩ | failed
    · obtain rfl := Except.ok.inj (isFound.symm.trans ok)
      exact is
    · simp [failed] at ok
  · rcases Value.binary_spec takes (leftIs isStrict) (rightIs isStrict) with
      ⟨found, isFound, is⟩ | divides
    · simp [isFound] at failed
    · obtain rfl := Except.error.inj (divides.symm.trans failed)
      exact RuntimeError.allowed_divisionByZero isStrict

theorem unary_meets {op : UnaryOp} {operand : Value} {type : Ty} (quiet : start.Quiet task)
    (takes : op.Takes type) (is : strict → operand.Is type) :
    (ofExcept (Value.unary op operand)).Meets start task floor
      fun now value => value.Inhabits now.shape type := by
  refine ofExcept_meets quiet (fun value ok => ⟨Value.unary_known ok, fun isStrict => ?_⟩)
    fun error failed isStrict => ?_
  · obtain ⟨found, isFound, isType⟩ := Value.unary_spec takes (is isStrict)
    obtain rfl := Except.ok.inj (isFound.symm.trans ok)
    exact isType
  · obtain ⟨found, isFound, _⟩ := Value.unary_spec takes (is isStrict)
    simp [isFound] at failed

theorem asBool_meets {value : Value} (post : Config strict → Bool → Prop) (quiet : start.Quiet task)
    (is : strict → value.Is .bool) (holds : ∀ truth, value = .bool truth → post start truth) :
    (asBool value).Meets start task floor post := by
  refine ofExcept_meets quiet (fun truth ok => holds truth ?_) fun error failed isStrict => ?_
  · unfold Value.asBool at ok
    split at ok
    · obtain rfl := Except.ok.inj ok
      rfl
    · simp [Value.expected, throw, throwThe, MonadExceptOf.throw] at ok
  · obtain ⟨truth, rfl⟩ := (is isStrict).eq_bool
    simp [Value.asBool, pure, Except.pure] at failed

theorem asInt_meets {value : Value} (post : Config strict → Int64 → Prop) (quiet : start.Quiet task)
    (is : strict → value.Is .int) (holds : ∀ number, value = .int number → post start number) :
    (asInt value).Meets start task floor post := by
  refine ofExcept_meets quiet (fun number ok => holds number ?_) fun error failed isStrict => ?_
  · unfold Value.asInt at ok
    split at ok
    · obtain rfl := Except.ok.inj ok
      rfl
    · simp [Value.expected, throw, throwThe, MonadExceptOf.throw] at ok
  · obtain ⟨number, rfl⟩ := (is isStrict).eq_int
    simp [Value.asInt, pure, Except.pure] at failed

theorem asStr_meets {value : Value} (post : Config strict → String → Prop) (quiet : start.Quiet task)
    (is : strict → value.Is .string) (holds : ∀ text, value = .str text → post start text) :
    (ofExcept value.asStr).Meets start task floor post := by
  refine ofExcept_meets quiet (fun text ok => holds text ?_) fun error failed isStrict => ?_
  · unfold Value.asStr at ok
    split at ok
    · obtain rfl := Except.ok.inj ok
      rfl
    · simp [Value.expected, throw, throwThe, MonadExceptOf.throw] at ok
  · obtain ⟨text, rfl⟩ := (is isStrict).eq_str
    simp [Value.asStr, pure, Except.pure] at failed

theorem checkedSize_meets {size : Int64} {failure : String} (quiet : start.Quiet task) :
    (ofExcept (checkedSize size failure)).Meets start task floor fun _ _ => True := by
  refine ofExcept_meets quiet (fun _ _ => trivial) fun error failed => ?_
  unfold checkedSize at failed
  split at failed
  · simp [pure, Except.pure] at failed
  · obtain rfl := Except.error.inj failed
    exact RuntimeError.allowed_panic _

theorem newSliceRef_meets {elem : Ty} {items : Heap → Array Value} (quiet : start.Quiet task)
    (inhabit : ∀ value ∈ items start.world.heap, value.Inhabits start.shape elem) :
    (updateHeap fun heap => heap.newSlice (items heap)).Meets start task floor
      fun now ref => now.shape.slice ref = some elem := by
  have sound := start.sound.heap.newSlice inhabit
  have grown := start.shape.grows_withSlice elem start.sound.heap.slice_fresh
  refine .calm (start.withHeap _ _ grown ⟨rfl, rfl, rfl, rfl, rfl, rfl⟩ sound) rfl
    Config.calm_withHeap quiet ?_
  simp [Config.withHeap, Shape.withSlice]

theorem newSlice_meets {elem : Ty} {items : List Value} (quiet : start.Quiet task)
    (inhabit : ∀ value ∈ items, value.Inhabits start.shape elem) :
    (newSlice elem items).Meets start task floor
      fun now value => value.Inhabits now.shape (.slice elem) := by
  refine (newSliceRef_meets quiet (by simpa using inhabit)).bind ?_
  intro now ref _ quiet known
  exact pure_meets quiet ⟨known, fun _ => Value.is_self _⟩

theorem newMapRef_meets {key : Ty} (elem : Ty) (quiet : start.Quiet task)
    (isKey : strict → key.isKey = true) :
    (updateHeap Heap.newMap).Meets start task floor
      fun now ref => now.shape.map ref = some (key, elem) := by
  have sound := @Heap.Sound.newMap _ _ _ _ start.sound.heap _ elem isKey
  have grown := start.shape.grows_withMap (key, elem) start.sound.heap.map_fresh
  refine .calm (start.withHeap _ _ grown ⟨rfl, rfl, rfl, rfl, rfl, rfl⟩ sound) rfl
    Config.calm_withHeap quiet ?_
  simp [Config.withHeap, Shape.withMap]

theorem newMap_meets {key elem : Ty} (quiet : start.Quiet task)
    (isKey : strict → key.isKey = true) :
    (newMap key elem).Meets start task floor
      fun now value => value.Inhabits now.shape (.map key elem) := by
  refine (newMapRef_meets elem quiet isKey).bind ?_
  intro now ref _ quiet known
  exact pure_meets quiet ⟨known, fun _ => Value.is_self _⟩

theorem newChan_meets {elem : Ty} {capacity : Nat} (quiet : start.Quiet task) :
    (newChan elem capacity).Meets start task floor
      fun now value => value.Inhabits now.shape (.chan .both elem) := by
  have sound := start.sound.exchange.newChannel elem capacity
  have grown := start.shape.grows_withChan elem start.sound.exchange.chan_fresh
  have made : (updateExchange (·.newChannel capacity)).Meets start task floor
      fun now ref => now.shape.chan ref = some elem := by
    refine .calm (start.withExchange _ _ grown ⟨rfl, rfl, rfl, rfl, rfl, rfl⟩ sound) rfl
      Config.calm_withExchange quiet ?_
    simp [Config.withExchange, Shape.withChan]
  refine made.bind ?_
  intro now ref _ quiet known
  exact pure_meets quiet ⟨known, fun _ => Value.is_self _⟩

theorem tryHeap_meets {change : Heap → Except RuntimeError Heap} (quiet : start.Quiet task)
    (sound : ∀ heap, change start.world.heap = .ok heap → heap.Sound start.shape)
    (allowed : ∀ error, change start.world.heap = .error error → error.Allowed strict) :
    (tryHeap change).Meets start task floor fun now _ => now.shape = start.shape := by
  cases result : change start.world.heap with
  | ok heap =>
    let now := start.withHeap heap start.shape (.refl _) ⟨rfl, rfl, rfl, rfl, rfl, rfl⟩
      (sound heap result)
    have ends : tryHeap change start.world = .done () now.world := by
      simp [tryHeap, result, now, Config.withHeap]
    exact .calm now ends Config.calm_withHeap quiet rfl
  | error error => exact .fails (by simp [tryHeap, result]) quiet (allowed error result)

omit [Natives] in
theorem checkedIndex_allowed {index : Int64} {length : Nat} {error : RuntimeError}
    (failed : checkedIndex index length = .error error) : error.Allowed strict := by
  unfold checkedIndex at failed
  split at failed
  · simp [pure, Except.pure] at failed
  · obtain rfl := Except.error.inj failed
    exact RuntimeError.allowed_indexOutOfRange _ _

omit [Natives] in
theorem checkedIndex_lt {index : Int64} {length position : Nat}
    (ok : checkedIndex index length = .ok position) : position < length := (checkedIndex_eq_ok.mp ok).2

theorem item_meets {ref : SliceRef} {elem : Ty} {index : Int64} (quiet : start.Quiet task)
    (known : start.shape.slice ref = some elem) :
    (tryRead (·.heap.item ref index)).Meets start task floor
      fun now value => value.Inhabits now.shape elem := by
  refine tryRead_meets quiet (fun value ok => ?_) fun error failed => ?_
  · obtain ⟨position, -, found⟩ := Heap.item_eq_ok.mp ok
    exact start.sound.heap.items known _ (Array.mem_of_getElem? found)
  · rcases Except.bind_eq_error.mp failed with outside | ⟨_, _, impossible⟩
    · exact checkedIndex_allowed outside
    · cases impossible

theorem setItem_meets {ref : SliceRef} {elem : Ty} {index : Int64} {value : Value}
    (quiet : start.Quiet task) (known : start.shape.slice ref = some elem)
    (inhabits : value.Inhabits start.shape elem) :
    (tryHeap (·.setItem ref index value)).Meets start task floor
      fun now _ => now.shape = start.shape := by
  refine tryHeap_meets quiet (fun heap ok => start.sound.heap.setItem known inhabits ok) ?_
  intro error failed
  rcases Except.bind_eq_error.mp failed with outside | ⟨_, _, impossible⟩
  · exact checkedIndex_allowed outside
  · cases impossible

theorem isKey_of_known {ref : MapRef} {key elem : Ty}
    (known : start.shape.map ref = some (key, elem)) : strict → key.isKey = true :=
  (start.sound.heap.maps ref key elem known).1

theorem entry_meets {ref : MapRef} {keyType elem : Ty} {key : Value} (quiet : start.Quiet task)
    (known : start.shape.map ref = some (keyType, elem)) (is : strict → key.Is keyType) :
    (tryRead (·.heap.entry? ref key)).Meets start task floor
      fun now found => ∀ value ∈ found, value.Inhabits now.shape elem := by
  refine tryRead_meets quiet (fun found ok value isValue => ?_) fun error failed => ?_
  · obtain ⟨_, _, same⟩ := Except.bind_eq_ok.mp ok
    obtain rfl := Except.ok.inj same
    exact (start.sound.heap.entries known).get? isValue
  · rcases Except.bind_eq_error.mp failed with noKey | ⟨_, _, impossible⟩
    · exact MapKey.ofValue_allowed is (isKey_of_known known) noKey
    · cases impossible

theorem insertEntry_meets {ref : MapRef} {keyType elem : Ty} {key value : Value}
    (quiet : start.Quiet task) (known : start.shape.map ref = some (keyType, elem))
    (is : strict → key.Is keyType) (inhabits : value.Inhabits start.shape elem) :
    (tryHeap (·.insertEntry ref key value)).Meets start task floor
      fun now _ => now.shape = start.shape := by
  refine tryHeap_meets quiet (fun heap ok => ?_) fun error failed => ?_
  · obtain ⟨found, isKey, same⟩ := Except.bind_eq_ok.mp ok
    obtain rfl := Except.ok.inj same
    refine start.sound.heap.setEntries known ((start.sound.heap.entries known).insert ?_ inhabits)
      ((start.sound.heap.ascending ref).insert _ _)
    rw [MapKey.toValue_of_ofValue isKey]
    exact is
  · rcases Except.bind_eq_error.mp failed with noKey | ⟨_, _, impossible⟩
    · exact MapKey.ofValue_allowed is (isKey_of_known known) noKey
    · cases impossible

theorem eraseEntry_meets {ref : MapRef} {keyType elem : Ty} {key : Value}
    (quiet : start.Quiet task) (known : start.shape.map ref = some (keyType, elem))
    (is : strict → key.Is keyType) :
    (tryHeap (·.eraseEntry ref key)).Meets start task floor
      fun now _ => now.shape = start.shape := by
  refine tryHeap_meets quiet (fun heap ok => ?_) fun error failed => ?_
  · obtain ⟨_, _, same⟩ := Except.bind_eq_ok.mp ok
    obtain rfl := Except.ok.inj same
    exact start.sound.heap.setEntries known ((start.sound.heap.entries known).erase _)
      ((start.sound.heap.ascending ref).erase _)
  · rcases Except.bind_eq_error.mp failed with noKey | ⟨_, _, impossible⟩
    · exact MapKey.ofValue_allowed is (isKey_of_known known) noKey
    · cases impossible

theorem updateExchange_meets {α : Type} {change : Exchange → α × Exchange}
    (post : Config strict → α → Prop) (quiet : start.Quiet task)
    (sound : (change start.world.exchange).2.Sound start.shape)
    (holds : ∀ now : Config strict, now.shape = start.shape → post now (change start.world.exchange).1) :
    (updateExchange change).Meets start task floor post :=
  .calm (start.withExchange _ start.shape (.refl _) ⟨rfl, rfl, rfl, rfl, rfl, rfl⟩ sound)
    rfl Config.calm_withExchange quiet (holds _ rfl)

theorem tryExchange_meets {α : Type} {change : Exchange → Except RuntimeError (α × Exchange)}
    (quiet : start.Quiet task)
    (sound : ∀ value exchange, change start.world.exchange = .ok (value, exchange) →
      exchange.Sound start.shape)
    (allowed : ∀ error, change start.world.exchange = .error error → error.Allowed strict) :
    (tryExchange change).Meets start task floor fun now _ => now.shape = start.shape := by
  cases result : change start.world.exchange with
  | ok found =>
    let now := start.withExchange found.2 start.shape (.refl _)
      ⟨rfl, rfl, rfl, rfl, rfl, rfl⟩ (sound found.1 found.2 result)
    have ends : tryExchange change start.world = .done found.1 now.world := by
      simp [tryExchange, result, now, Config.withExchange]
    exact .calm now ends Config.calm_withExchange quiet rfl
  | error error => exact .fails (by simp [tryExchange, result]) quiet (allowed error result)

theorem send_meets {ref : ChanRef} {elem : Ty} {value : Value} (quiet : start.Quiet task)
    (known : start.shape.chan ref = some elem) (inhabits : value.Inhabits start.shape elem) :
    (send ref value).Meets start task floor fun _ _ => True := by
  refine (waitFor_meets (fun now _ => start.Waits task now) quiet fun _ waits => waits).bind ?_
  intro now _ _ quiet waits
  refine (tryExchange_meets quiet ?_ ?_).bind ?_
  · intro ticket exchange ok
    exact now.sound.exchange.send (waits.grows.chan _ _ known) (inhabits.grows waits.grows) ok
  · intro error failed
    simp only [Exchange.send] at failed
    split at failed
    · obtain rfl := Except.error.inj failed
      exact RuntimeError.allowed_closedChannel _
    · cases failed
  · intro now ticket _ quiet _
    refine (read_meets (fun _ _ => True) quiet trivial).bind ?_
    intro now capacity _ quiet _
    split
    · exact waitFor_meets _ quiet fun _ _ => trivial
    · exact pure_meets quiet trivial

theorem recv_meets {ref : ChanRef} {elem : Ty} (quiet : start.Quiet task)
    (known : start.shape.chan ref = some elem) :
    (recv elem ref).Meets start task floor
      fun now received => received.1.Inhabits now.shape elem := by
  have entered : (modify fun world => { world with exchange := world.exchange.enterRecv ref }).Meets
      start task floor fun now _ => now.shape = start.shape := by
    exact .calm (start.withExchange _ start.shape (.refl _)
      ⟨rfl, rfl, rfl, rfl, rfl, rfl⟩ start.sound.exchange.enterRecv) rfl
      Config.calm_withExchange quiet rfl
  refine entered.bind ?_
  intro now _ _ quiet same
  have stillKnown : now.shape.chan ref = some elem := same ▸ known
  refine (waitFor_meets (fun later _ => now.Waits task later) quiet
    fun _ waits => waits).bind ?_
  intro later _ _ quiet waits
  have left := later.sound.exchange.leaveRecv (waits.grows.chan _ _ stillKnown)
  refine (updateExchange_meets (fun last found => ∀ value ∈ found,
    value.Inhabits last.shape elem) quiet left.1 ?_).bind ?_
  · intro last sameShape value isValue
    rw [sameShape]
    exact left.2 value isValue
  · intro last found _ quiet inhabit
    exact pure_meets quiet (received_inhabits inhabit)

theorem close_meets {ref : ChanRef} (quiet : start.Quiet task) :
    (close ref).Meets start task floor fun _ _ => True := by
  refine (tryExchange_meets quiet ?_ ?_).mono fun _ _ _ _ _ => trivial
  · intro value exchange ok
    obtain ⟨changed, closed, same⟩ := Except.bind_eq_ok.mp ok
    obtain ⟨_, rfl⟩ := Prod.mk.inj (Except.ok.inj same)
    exact start.sound.exchange.close closed
  · intro error failed
    rcases Except.bind_eq_error.mp failed with closed | ⟨_, _, impossible⟩
    · simp only [Exchange.close] at closed
      split at closed
      · obtain rfl := Except.error.inj closed
        exact RuntimeError.allowed_closedChannel _
      · cases closed
    · cases impossible

theorem selectRounds_meets {fuel : Nat} {select : Selecting} (quiet : start.Quiet task)
    (sound : select.Sound start.shape) :
    (selectRounds fuel select).Meets start task floor
      fun now selected => selected.Of now.shape select.cases select.hasDefault := by
  induction fuel generalizing start select with
  | zero => exact exhausted_meets
  | succ fuel ih =>
    have stepped := sound.step start.sound.exchange
    refine (updateExchange_meets (fun now ending => now.shape = start.shape ∧
      Selecting.Sound.Round start.shape select ending) quiet stepped.1
      fun now same => ⟨same, stepped.2⟩).bind ?_
    rintro now ending _ quiet ⟨same, round⟩
    cases ending with
    | error error => exact Run.Meets.fails rfl quiet round
    | ok ending =>
      refine (@Run.ofExcept_meets _ _ _ _ _ _ (fun later found => now = later ∧ ending = found) _
        quiet (fun value ok => ⟨rfl, Except.ok.inj ok⟩) (by simp)).bind ?_
      rintro _ _ _ quiet ⟨rfl, rfl⟩
      cases ending with
      | chosen selected => exact pure_meets quiet (same ▸ round)
      | sleep since next =>
        obtain ⟨nextSound, cases, hasDefault⟩ := round
        refine (waitFor_meets (fun later _ => now.Waits task later) quiet
          fun _ waits => waits).bind ?_
        intro later _ _ quiet waits
        rw [← cases, ← hasDefault]
        exact ih quiet ((same ▸ nextSound : next.Sound now.shape).grows waits.grows)

theorem select_meets {fuel : Nat} {cases : List SelectCase} {hasDefault : Bool}
    (quiet : start.Quiet task) (sound : ∀ case ∈ cases, case.Sound start.shape) :
    (select fuel cases hasDefault).Meets start task floor
      fun now selected => selected.Of now.shape cases hasDefault := by
  unfold select
  split
  · exact fail_meets quiet (RuntimeError.allowed_panic _)
  · have grown := start.shape.grows_withClaim (SelectCase.sends cases)
      start.sound.exchange.claim_fresh
    have claimed : (updateExchange Exchange.newClaim).Meets start task floor fun now claim =>
        start.shape.Grows now.shape ∧ now.shape.claim claim = some (SelectCase.sends cases) := by
      refine .calm (start.withExchange _ _ grown ⟨rfl, rfl, rfl, rfl, rfl, rfl⟩
        (start.sound.exchange.newClaim _)) rfl Config.calm_withExchange quiet ⟨grown, ?_⟩
      simp [Config.withExchange, Shape.withClaim]
    refine claimed.bind ?_
    rintro now claim _ quiet ⟨grows, known⟩
    refine (selectRounds_meets quiet
      ⟨fun case member => (sound case member).grows grows, known⟩).bind ?_
    intro later selected _ quiet chosen
    cases selected with
    | case index received => exact pure_meets quiet chosen
    | default =>
      refine (yield_meets (fun _ _ => True) quiet fun _ _ => trivial).bind ?_
      intro last _ _ quiet _
      exact pure_meets quiet chosen

end Run

end Operations

end MiniGo
