import MiniGo.Proofs.Typing
/-!
Typing of pieces of instruction lists, and how the pieces of a statement fit together: each lands
inside itself or right after its end, except for the exits of statements around it.
-/

namespace MiniGo

variable {strict : Prop} {base : Nat} {lands lands' : Nat → List Layer → Prop}
  {out out' : Nat → ExitKind → List Layer → Prop} {here : Nat} {ctx : Ctx strict}

theorem InstrTyped.mono {instr : Instr} (typed : InstrTyped strict base lands out here ctx instr)
    (more : ∀ position layers, lands position layers → lands' position layers)
    (moreOut : ∀ level kind layers, out level kind layers → out' level kind layers) :
    InstrTyped strict base lands' out' here ctx instr := by
  cases typed with
  | skip next => exact .skip (more _ _ next)
  | interrupt => exact .interrupt
  | eval values next => exact .eval values (more _ _ next)
  | goto next => exact .goto (more _ _ next)
  | jumpUnless cond next other => exact .jumpUnless cond (more _ _ next) (more _ _ other)
  | push next => exact .push (more _ _ next)
  | pop same deep next => exact .pop same deep (more _ _ next)
  | leave deep next => exact .leave deep (more _ _ next)
  | exit next => exact .exit (moreOut _ _ _ next)
  | ret found inside values fit => exact .ret found inside values fit
  | defer call next => exact .defer call (more _ _ next)
  | go call next => exact .go call (more _ _ next)
  | send channel value next => exact .send channel value (more _ _ next)
  | assign places values fit next => exact .assign places values fit (more _ _ next)
  | update place operand takes next => exact .update place operand takes (more _ _ next)
  | init found inside values fit next => exact .init found inside values fit (more _ _ next)
  | bind found inside function same next => exact .bind found inside function same (more _ _ next)
  | callInit function none next => exact .callInit function none (more _ _ next)
  | switch tag codes cases next =>
    exact .switch tag codes (fun entry member => more _ _ (cases entry member)) (more _ _ next)
  | typeSwitch subject cases next =>
    exact .typeSwitch subject (fun entry member => more _ _ (cases entry member)) (more _ _ next)
  | typeSwitchParked subject found parks cases next =>
    refine .typeSwitchParked subject found parks (fun entry member => ?_) (more _ _ next)
    obtain ⟨known, which, next⟩ := cases entry member
    exact ⟨known, which, more _ _ next⟩
  | select comms cases next =>
    exact .select comms (fun entry member => more _ _ (cases entry member))
      (fun dest same => more _ _ (next dest same))
  | selectParked comms found parks flag cases next =>
    exact .selectParked comms found parks flag (cases.imp fun _ _ => more _ _)
      (fun dest same => more _ _ (next dest same))
  | adopt same pairs next => exact .adopt same pairs (more _ _ next)
  | unpark found parks known flag place stores flags flagStores next =>
    exact .unpark found parks known flag place stores flags flagStores (more _ _ next)
  | rangeStart found ranged inside subject next =>
    exact .rangeStart found ranged inside subject (more _ _ next)
  | rangeNext found ranged inside ready key keyStores value valueStores next finish =>
    exact .rangeNext found ranged inside ready key keyStores value valueStores (more _ _ next)
      (more _ _ finish)
  | rangeStep found inside next => exact .rangeStep found inside (more _ _ next)

theorem InstrTyped.close {line : Line} {level breakTo continueTo : Nat}
    (typed : InstrTyped strict base lands out here ctx line.instr)
    (breaks : ∀ layers, out level .break layers → base < layers.length ∧ lands breakTo layers)
    (continues : ∀ layers, out level .continue layers →
      base < layers.length ∧ lands continueTo layers)
    (others : ∀ level' kind layers, level' ≠ level → out level' kind layers →
      out' level' kind layers) :
    InstrTyped strict base lands out' here ctx (line.close level breakTo continueTo).instr := by
  rcases line with ⟨instr, span⟩
  cases typed with
  | @exit _ _ _ _ _ hops level' kind next =>
    simp only [Line.close, Dest.close]
    by_cases same : level' = level
    · subst same
      cases kind with
      | «break» => simpa using InstrTyped.leave (breaks _ next).1 (breaks _ next).2
      | «continue» => simpa using InstrTyped.leave (continues _ next).1 (continues _ next).2
    · simpa [same] using InstrTyped.exit (others _ _ _ same next)
  | leave deep next => exact .leave deep next
  | skip next => exact .skip next
  | interrupt => exact .interrupt
  | eval values next => exact .eval values next
  | goto next => exact .goto next
  | jumpUnless cond next other => exact .jumpUnless cond next other
  | push next => exact .push next
  | pop same deep next => exact .pop same deep next
  | ret found inside values fit => exact .ret found inside values fit
  | defer call next => exact .defer call next
  | go call next => exact .go call next
  | send channel value next => exact .send channel value next
  | assign places values fit next => exact .assign places values fit next
  | update place operand takes next => exact .update place operand takes next
  | init found inside values fit next => exact .init found inside values fit next
  | bind found inside function same next => exact .bind found inside function same next
  | callInit function none next => exact .callInit function none next
  | switch tag codes cases next => exact .switch tag codes cases next
  | typeSwitch subject cases next => exact .typeSwitch subject cases next
  | typeSwitchParked subject found parks cases next =>
    exact .typeSwitchParked subject found parks cases next
  | select comms cases next => exact .select comms cases next
  | selectParked comms found parks flag cases next =>
    exact .selectParked comms found parks flag cases next
  | adopt same pairs next => exact .adopt same pairs next
  | unpark found parks known flag place stores flags flagStores next =>
    exact .unpark found parks known flag place stores flags flagStores next
  | rangeStart found ranged inside subject next => exact .rangeStart found ranged inside subject next
  | rangeNext found ranged inside ready key keyStores value valueStores next finish =>
    exact .rangeNext found ranged inside ready key keyStores value valueStores next finish
  | rangeStep found inside next => exact .rangeStep found inside next

/-- Instructions in a row, each typed in the context of its own position. -/
inductive Flows (strict : Prop) (base : Nat) (lands : Nat → List Layer → Prop)
    (out : Nat → ExitKind → List Layer → Prop) : Nat → List Line → List (Ctx strict) → Prop
  | nil {here : Nat} : Flows strict base lands out here [] []
  | cons {here : Nat} {line : Line} {lines : List Line} {ctx : Ctx strict}
      {positions : List (Ctx strict)} :
    InstrTyped strict base lands out here ctx line.instr →
    Flows strict base lands out (here + 1) lines positions →
    Flows strict base lands out here (line :: lines) (ctx :: positions)

namespace Flows

variable {lines : List Line} {positions : List (Ctx strict)}

theorem length_eq (flows : Flows strict base lands out here lines positions) :
    positions.length = lines.length := by
  induction flows with
  | nil => rfl
  | cons _ _ ih => simp [ih]

theorem mono (flows : Flows strict base lands out here lines positions)
    (more : ∀ position layers, lands position layers → lands' position layers)
    (moreOut : ∀ level kind layers, out level kind layers → out' level kind layers) :
    Flows strict base lands' out' here lines positions := by
  induction flows with
  | nil => exact .nil
  | cons typed _ ih => exact .cons (typed.mono more moreOut) ih

theorem append {more : List Line} {others : List (Ctx strict)}
    (flows : Flows strict base lands out here lines positions)
    (rest : Flows strict base lands out (here + lines.length) more others) :
    Flows strict base lands out here (lines ++ more) (positions ++ others) := by
  induction flows with
  | nil => simpa using rest
  | cons typed _ ih =>
    refine .cons typed (ih ?_)
    simpa [Nat.add_comm, Nat.add_left_comm] using rest

theorem close {level breakTo continueTo : Nat}
    (flows : Flows strict base lands out here lines positions)
    (breaks : ∀ layers, out level .break layers → base < layers.length ∧ lands breakTo layers)
    (continues : ∀ layers, out level .continue layers →
      base < layers.length ∧ lands continueTo layers)
    (others : ∀ level' kind layers, level' ≠ level → out level' kind layers →
      out' level' kind layers) :
    Flows strict base lands out' here (lines.map (·.close level breakTo continueTo)) positions := by
  induction flows with
  | nil => exact .nil
  | cons typed _ ih => exact .cons (typed.close breaks continues others) ih

theorem get (flows : Flows strict base lands out here lines positions) {index : Nat} {line : Line}
    {ctx : Ctx strict} (found : lines[index]? = some line) (known : positions[index]? = some ctx) :
    InstrTyped strict base lands out (here + index) ctx line.instr := by
  induction flows generalizing index with
  | nil => simp at found
  | cons typed _ ih =>
    cases index with
    | zero =>
      simp only [List.getElem?_cons_zero, Option.some.injEq] at found known
      subst found known
      exact typed
    | succ index =>
      have step := ih (by simpa using found) (by simpa using known)
      simpa [Nat.add_comm, Nat.add_left_comm] using step

end Flows

namespace Lands

variable {stops before after : List (List Layer)} {exit inner layers : List Layer}
  {position : Nat}

theorem serves {source : List Layer} (landing : Lands here stops exit position layers)
    (served : Serves source layers) : Lands here stops exit position source := by
  rcases landing with ⟨index, target, same, found, serves⟩ | ⟨same, serves⟩
  · exact .inl ⟨index, target, same, found, served.trans serves⟩
  · exact .inr ⟨same, served.trans serves⟩

theorem finish (serves : Serves layers exit) : Lands here stops exit (here + stops.length) layers :=
  .inr ⟨rfl, serves⟩

theorem within (landing : Lands (here + before.length) stops inner position layers)
    (ending : Lands here (before ++ stops ++ after) exit (here + before.length + stops.length)
      inner) :
    Lands here (before ++ stops ++ after) exit position layers := by
  rcases landing with ⟨index, target, same, found, serves⟩ | ⟨same, serves⟩
  · refine .inl ⟨before.length + index, target, by omega, ?_, serves⟩
    rw [List.append_assoc, List.getElem?_append_right (by omega)]
    rw [show before.length + index - before.length = index by omega]
    exact List.getElem?_append_left (List.getElem?_eq_some_iff.mp found).1 ▸ found
  · subst same
    exact ending.serves serves

theorem left (landing : Lands here stops inner position layers)
    (next : Lands (here + stops.length) after exit (here + stops.length) inner) :
    Lands here (stops ++ after) exit position layers := by
  have ending : Lands here ([] ++ stops ++ after) exit (here + stops.length) inner := by
    rcases next with ⟨index, target, same, found, serves⟩ | ⟨same, serves⟩
    · obtain rfl : index = 0 := by omega
      refine .inl ⟨stops.length, target, rfl, ?_, serves⟩
      simpa [List.getElem?_append_right] using found
    · exact .inr ⟨by simpa [Nat.add_assoc] using same, serves⟩
  simpa using @Lands.within _ _ [] _ _ _ _ _ (by simpa using landing) (by simpa using ending)

theorem right (landing : Lands (here + before.length) stops exit position layers) :
    Lands here (before ++ stops) exit position layers := by
  have ending : Lands here (before ++ stops ++ []) exit (here + before.length + stops.length)
      exit := by
    refine .inr ⟨by simp [Nat.add_assoc], .refl _⟩
  simpa using @Lands.within _ _ _ [] _ _ _ _ landing ending

end Lands

/-- Lines that are typed, and where each of them is compiled. -/
def Runs (strict : Prop) (base : Nat) (out : Nat → ExitKind → List Layer → Prop) (here : Nat)
    (lines : List Line) (sites : List Site) (entry exit : List Layer) : Prop :=
  ∃ positions : List (Ctx strict), positions.map Ctx.site = sites ∧
    Flows strict base (Lands here (positions.map (·.layers)) exit) out here lines positions ∧
      Lands here (positions.map (·.layers)) exit here entry

namespace Runs

variable {lines more : List Line} {sites others : List Site} {entry mid exit : List Layer}

theorem nil (serves : Serves entry exit) : Runs strict base out here [] [] entry exit :=
  ⟨[], rfl, .nil, Lands.finish serves⟩

theorem one {instr : Instr} {span : Span} (ctx : Ctx strict)
    (typed : InstrTyped strict base (fun position layers => position = here + 1 ∧
      Serves layers exit) out here ctx instr) :
    Runs strict base out here [⟨instr, span⟩] [ctx.site] ctx.layers exit := by
  refine ⟨[ctx], rfl, .cons (typed.mono ?_ fun _ _ _ same => same) .nil, ?_⟩
  · intro position layers landing
    exact .inr ⟨landing.1, landing.2⟩
  · exact .inl ⟨0, ctx.layers, rfl, rfl, .refl _⟩

theorem enter {source : List Layer} (runs : Runs strict base out here lines sites entry exit)
    (serves : Serves source entry) : Runs strict base out here lines sites source exit := by
  obtain ⟨positions, same, flows, enter⟩ := runs
  exact ⟨positions, same, flows, enter.serves serves⟩

theorem finish {target : List Layer} (runs : Runs strict base out here lines sites entry exit)
    (serves : Serves exit target) : Runs strict base out here lines sites entry target := by
  obtain ⟨positions, same, flows, enter⟩ := runs
  have more : ∀ position layers, Lands here (positions.map (·.layers)) exit position layers →
      Lands here (positions.map (·.layers)) target position layers := by
    rintro position layers (inside | ⟨same, ends⟩)
    · exact .inl inside
    · exact .inr ⟨same, ends.trans serves⟩
  exact ⟨positions, same, flows.mono more fun _ _ _ same => same, more _ _ enter⟩

theorem append (first : Runs strict base out here lines sites entry mid)
    (second : Runs strict base out (here + lines.length) more others mid exit) :
    Runs strict base out here (lines ++ more) (sites ++ others) entry exit := by
  obtain ⟨positions, same, flows, enter⟩ := first
  obtain ⟨others, same', flows', enter'⟩ := second
  have length := flows.length_eq
  have left : ∀ position layers, Lands here (positions.map (·.layers)) mid position layers →
      Lands here ((positions ++ others).map (·.layers)) exit position layers := by
    intro position layers landing
    rw [List.map_append]
    exact landing.left (by simpa [length] using enter')
  have right : ∀ position layers,
      Lands (here + lines.length) (others.map (·.layers)) exit position layers →
      Lands here ((positions ++ others).map (·.layers)) exit position layers := by
    intro position layers landing
    rw [List.map_append]
    exact Lands.right (by simpa [length] using landing)
  refine ⟨positions ++ others, by rw [List.map_append, same, same'], ?_, left _ _ enter⟩
  exact (flows.mono left fun _ _ _ same => same).append (flows'.mono right fun _ _ _ same => same)

end Runs

@[simp] theorem Compiled.bind_eq_ok {α β : Type} {first : Compiled α} {next : α → Compiled β}
    {result : β} : (first >>= next) = .ok result ↔
      ∃ value, first = .ok value ∧ next value = .ok result := by
  cases first <;> simp [bind, Except.bind]

@[simp] theorem Compiled.map_eq_ok {α β : Type} {first : Compiled α} {change : α → β}
    {result : β} : (change <$> first) = .ok result ↔
      ∃ value, first = .ok value ∧ change value = result := by
  cases first <;> simp [Functor.map, Except.map]

@[simp] theorem Compiled.pure_eq_ok {α : Type} {value result : α} :
    (pure value : Compiled α) = .ok result ↔ value = result := by
  simp [pure, Except.pure]

@[simp] theorem fault_eq_ok {α : Type} {cause : Cause} {span : Span} {result : α} :
    (fault cause span : Compiled α) = .ok result ↔ False := by
  simp [fault]

end MiniGo
