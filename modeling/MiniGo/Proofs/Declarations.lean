import MiniGo.Proofs.Flow
/-!
Declarations. A frame grows as names are declared in it, and the level that describes its slots
grows along.
-/

namespace MiniGo

namespace Level

def empty (frame : Frame) (objects : frame.objects = 0) (words : frame.words = 0)
    (symbols : frame.symbols = []) : Level :=
  { frame, objects := [], words := [], hidden := []
    objects_length := objects.symm, words_length := words.symm
    objects_boxed := Level.none.objects_boxed, words_scalar := Level.none.words_scalar
    hidden_inside := by simp, sealed_among := Level.none.sealed_among
    named := by simp [symbols], sound := by simp [symbols] }

theorem exists_reframed (level : Level) (frame : Frame) (owned : frame.owned = level.frame.owned)
    (symbols : frame.symbols = level.frame.symbols) (objects : frame.objects = level.frame.objects)
    (words : frame.words = level.frame.words) :
    ∃ after : Level, after.frame = frame ∧ level.Grows after :=
  ⟨{ level with
      frame
      objects_length := level.objects_length.trans objects.symm
      words_length := level.words_length.trans words.symm
      hidden_inside := by simpa [objects] using level.hidden_inside
      sealed_among := level.sealed_among
      named := by simpa [symbols] using level.named
      sound := by simpa [symbols] using level.sound },
    rfl,
    ⟨owned, by simp [symbols], List.prefix_refl _, List.prefix_refl _, fun _ member => member,
      fun _ member => member, fun has => has, fun _ shared => shared⟩⟩

theorem among_more {slot : Slot} {objects words moreObjects moreWords : List Ty}
    (among : slot.Among objects words) (someObjects : objects <+: moreObjects)
    (someWords : words <+: moreWords) : slot.Among moreObjects moreWords := by
  obtain ⟨objects, rfl⟩ := someObjects
  obtain ⟨words, rfl⟩ := someWords
  unfold Slot.Among at *
  split <;> rename_i slotClass <;> simp only [slotClass] at among
  all_goals
    rw [List.getElem?_append_left (List.getElem?_eq_some_iff.mp among).1]
    exact among

theorem shared_among {level : Level} {slot : Slot} {objects words : List Ty} {hidden : List Nat}
    (shared : level.Shared slot) (moreObjects : level.objects <+: objects)
    (moreWords : level.words <+: words)
    (later : ∀ index ∈ hidden, index ∈ level.hidden ∨ level.frame.objects ≤ index) :
    (slot.Among objects words ∧ slot ∉ level.sealed) ∧
      (slot.slotClass = .object → slot.index ∉ hidden) := by
  obtain ⟨⟨among, unsealed⟩, apart⟩ := shared
  refine ⟨⟨among_more among moreObjects moreWords, unsealed⟩, ?_⟩
  · intro object member
    rcases later _ member with before | after
    · exact apart object before
    · simp only [Slot.Among, object] at among
      have inside := (List.getElem?_eq_some_iff.mp among).1
      rw [level.objects_length] at inside
      omega

theorem exists_allocated (level : Level) (type : Ty) (symbols : List (String × Symbol))
    (hidden : List Nat) (grown : level.frame.symbols <:+ symbols)
    (fresh : ∀ entry ∈ symbols, entry ∈ level.frame.symbols ∨
      (∃ name, entry = (name, .var (level.frame.allocate type).1)) ∧
        (type.isScalar = false → level.frame.objects ∉ hidden))
    (kept : level.hidden ⊆ hidden)
    (added : ∀ index ∈ hidden, index ∈ level.hidden ∨
      index = level.frame.objects ∧ type.isScalar = false) :
    ∃ after : Level, after.frame = { (level.frame.allocate type).2 with symbols } ∧
      level.Grows after ∧ after.hidden = hidden ∧ after.sealed = level.sealed ∧
      after.Has (level.frame.allocate type).1 := by
  have later : ∀ index ∈ hidden, index ∈ level.hidden ∨ level.frame.objects ≤ index := by
    intro index member
    rcases added index member with old | ⟨rfl, -⟩
    · exact .inl old
    · exact .inr (Nat.le_refl _)
  have known : ∀ entry ∈ level.frame.symbols, entry.2.Sound := level.sound
  by_cases scalar : type.isScalar = true
  · have allocated : level.frame.allocate type =
        (⟨.word, level.frame.words, type⟩, { level.frame with words := level.frame.words + 1 }) := by
      simp [Frame.allocate, scalar]
    rw [allocated] at fresh ⊢
    have has : Slot.Among ⟨.word, level.frame.words, type⟩ level.objects
        (level.words ++ [type]) ∧ ⟨.word, level.frame.words, type⟩ ∉ level.sealed := by
      refine ⟨by simp [Slot.Among, ← level.words_length], fun member => ?_⟩
      simpa [Slot.Among, ← level.words_length] using level.sealed_among _ member
    have among {slot : Slot} (among : slot.Among level.objects level.words) :=
      among_more among (List.prefix_refl _) (List.prefix_append level.words [type])
    have old := fun slot (shared : level.Shared slot) =>
      shared_among shared (List.prefix_refl _) (List.prefix_append level.words [type]) later
    refine ⟨{
      frame := { level.frame with words := level.frame.words + 1, symbols }
      objects := level.objects, words := level.words ++ [type], hidden
      sealed := level.sealed
      sealed_among := fun slot member => among (level.sealed_among slot member)
      objects_length := level.objects_length
      words_length := by simp [level.words_length]
      objects_boxed := level.objects_boxed
      words_scalar := by
        intro other member
        rcases List.mem_append.mp member with before | last
        · exact level.words_scalar other before
        · simp only [List.mem_singleton] at last
          exact last ▸ scalar
      hidden_inside := by
        intro index member
        rcases added index member with before | ⟨-, boxed⟩
        · exact level.hidden_inside index before
        · simp [scalar] at boxed
      named := by
        intro name slot member
        rcases fresh _ member with before | ⟨⟨name', same⟩, -⟩
        · exact old slot (level.named name slot before)
        · simp only [Prod.mk.injEq, Symbol.var.injEq] at same
          obtain ⟨-, rfl⟩ := same
          exact ⟨has, by simp⟩
      sound := by
        intro entry member
        rcases fresh entry member with before | ⟨⟨name, rfl⟩, -⟩
        · exact known entry before
        · trivial }, rfl,
      ⟨rfl, grown, List.prefix_refl _, List.prefix_append _ _, kept, fun _ member => member,
        fun has => ⟨among has.1, has.2⟩, old⟩, rfl, rfl, has⟩
  · have boxed : type.isScalar = false := by simpa using scalar
    have allocated : level.frame.allocate type =
        (⟨.object, level.frame.objects, type⟩,
          { level.frame with objects := level.frame.objects + 1 }) := by
      simp [Frame.allocate, boxed]
    rw [allocated] at fresh ⊢
    have has : Slot.Among ⟨.object, level.frame.objects, type⟩ (level.objects ++ [type])
        level.words ∧ ⟨.object, level.frame.objects, type⟩ ∉ level.sealed := by
      refine ⟨by simp [Slot.Among, ← level.objects_length], fun member => ?_⟩
      simpa [Slot.Among, ← level.objects_length] using level.sealed_among _ member
    have among {slot : Slot} (among : slot.Among level.objects level.words) :=
      among_more among (List.prefix_append level.objects [type]) (List.prefix_refl _)
    have old := fun slot (shared : level.Shared slot) =>
      shared_among shared (List.prefix_append level.objects [type]) (List.prefix_refl _) later
    refine ⟨{
      frame := { level.frame with objects := level.frame.objects + 1, symbols }
      objects := level.objects ++ [type], words := level.words, hidden
      sealed := level.sealed
      sealed_among := fun slot member => among (level.sealed_among slot member)
      objects_length := by simp [level.objects_length]
      words_length := level.words_length
      objects_boxed := by
        intro other member
        rcases List.mem_append.mp member with before | last
        · exact level.objects_boxed other before
        · simp only [List.mem_singleton] at last
          exact last ▸ boxed
      words_scalar := level.words_scalar
      hidden_inside := by
        intro index member
        rcases added index member with before | ⟨rfl, -⟩
        · exact Nat.lt_succ_of_lt (level.hidden_inside index before)
        · exact Nat.lt_succ_self _
      named := by
        intro name slot member
        rcases fresh _ member with before | ⟨⟨name', same⟩, apart⟩
        · exact old slot (level.named name slot before)
        · simp only [Prod.mk.injEq, Symbol.var.injEq] at same
          obtain ⟨-, rfl⟩ := same
          exact ⟨has, fun _ => apart boxed⟩
      sound := by
        intro entry member
        rcases fresh entry member with before | ⟨⟨name, rfl⟩, -⟩
        · exact known entry before
        · trivial }, rfl,
      ⟨rfl, grown, List.prefix_append _ _, List.prefix_refl _, kept, fun _ member => member,
        fun has => ⟨among has.1, has.2⟩, old⟩, rfl, rfl, has⟩

theorem exists_plain (level : Level) (type : Ty) :
    ∃ after : Level, after.frame = (level.frame.allocate type).2 ∧ level.Grows after ∧
      after.Shared (level.frame.allocate type).1 ∧
      (level.frame.allocate type).1.type = type := by
  have kept : (level.frame.allocate type).2.symbols = level.frame.symbols := by
    unfold Frame.allocate
    split <;> rfl
  obtain ⟨after, frame, grows, hidden, -, has⟩ := level.exists_allocated type
    level.frame.symbols level.hidden (List.suffix_refl _)
    (fun _ member => .inl member) (fun _ member => member) (fun _ member => .inl member)
  refine ⟨after, by rw [frame, ← kept], grows, ⟨has, fun object member => ?_⟩, ?_⟩
  · rw [hidden] at member
    have inside := level.hidden_inside _ member
    unfold Frame.allocate at object inside
    split at object <;> simp_all
  · unfold Frame.allocate
    split <;> rfl

theorem exists_parking (level : Level) :
    ∃ after : Level, after.frame = (level.frame.allocate .any).2 ∧ level.Grows after ∧
      after.Parks (level.frame.allocate .any).1 := by
  have kept : (level.frame.allocate .any).2.symbols = level.frame.symbols := rfl
  obtain ⟨after, frame, grows, hidden, -, has⟩ := level.exists_allocated .any
    level.frame.symbols (level.frame.objects :: level.hidden)
    (List.suffix_refl _) (fun _ member => .inl member) (fun _ member => by simp [member])
    (fun index member => by
      rcases List.mem_cons.mp member with rfl | before
      · exact .inr ⟨rfl, rfl⟩
      · exact .inl before)
  exact ⟨after, by rw [frame, ← kept], grows, has, rfl, rfl, by simp [hidden, Frame.allocate,
    Ty.isScalar]⟩

theorem allocated_outside (level : Level) (type : Ty) :
    ¬(level.frame.allocate type).1.Among level.objects level.words := by
  unfold Frame.allocate
  split <;> simp [Slot.Among, ← level.objects_length, ← level.words_length]

theorem exists_sealed (level : Level) (type : Ty) :
    ∃ after : Level, after.frame = (level.frame.allocate type).2 ∧ level.Grows after ∧
      (level.frame.allocate type).1 ∈ after.sealed := by
  obtain ⟨mid, frame, grows, shared, -⟩ := level.exists_plain type
  have outside := level.allocated_outside type
  set taken := (level.frame.allocate type).1 with isTaken
  have symbols : mid.frame.symbols = level.frame.symbols := by
    rw [frame]
    unfold Frame.allocate
    split <;> rfl
  have has {slot : Slot} (has : level.Has slot) (unsealed : slot ∉ mid.sealed) :
      slot ∉ taken :: mid.sealed := by
    rintro (_ | ⟨_, member⟩)
    · exact outside has.1
    · exact unsealed member
  refine ⟨{ mid with
    sealed := taken :: mid.sealed
    sealed_among := List.forall_mem_cons.mpr ⟨shared.1.1, mid.sealed_among⟩
    named := fun name slot member => ?_ }, frame, ⟨grows.owned, grows.symbols, grows.objects, grows.words,
      grows.hidden, fun slot member => .tail _ (grows.sealed member), fun old => ?_, fun slot old => ?_⟩,
    .head _⟩
  · have old := level.named name slot (symbols ▸ member)
    have later := mid.named name slot member
    exact ⟨⟨later.1.1, has old.1 later.1.2⟩, later.2⟩
  · exact ⟨(grows.has old).1, has old (grows.has old).2⟩
  · have later := grows.shared slot old
    exact ⟨⟨later.1.1, has old.1 later.1.2⟩, later.2⟩

end Level

/-- Declarations that turn one frame into another and give some slots names. -/
structure Declares (before after : Frame) (slots : List Slot) : Prop where
  owned : after.owned = before.owned
  loop : after.loop = before.loop
  func : after.func = before.func
  symbols : before.symbols <:+ after.symbols
  objects : before.objects ≤ after.objects
  words : before.words ≤ after.words
  named : ∀ slot ∈ slots, ∃ name, (name, Symbol.var slot) ∈ after.symbols
  fresh : ∀ name slot, (name, Symbol.var slot) ∈ after.symbols →
    (name, Symbol.var slot) ∈ before.symbols ∨ slot ∈ slots
  level : ∀ level : Level, level.frame = before →
    ∃ grown : Level, grown.frame = after ∧ level.Grows grown

namespace Declares

theorem refl (frame : Frame) : Declares frame frame [] :=
  ⟨rfl, rfl, rfl, List.suffix_refl _, Nat.le_refl _, Nat.le_refl _, by simp,
    fun _ _ member => .inl member, fun level same => ⟨level, same, .refl level⟩⟩

theorem trans {first second third : Frame} {slots others : List Slot}
    (left : Declares first second slots) (right : Declares second third others) :
    Declares first third (others ++ slots) := by
  refine ⟨right.owned.trans left.owned, right.loop.trans left.loop, right.func.trans left.func,
    left.symbols.trans right.symbols, Nat.le_trans left.objects right.objects,
    Nat.le_trans left.words right.words, ?_, ?_, ?_⟩
  · intro slot member
    rcases List.mem_append.mp member with late | early
    · exact right.named slot late
    · obtain ⟨name, found⟩ := left.named slot early
      exact ⟨name, right.symbols.subset found⟩
  · intro name slot member
    rcases right.fresh name slot member with before | late
    · rcases left.fresh name slot before with older | early
      · exact .inl older
      · exact .inr (List.mem_append_right _ early)
    · exact .inr (List.mem_append_left _ late)
  · intro level same
    obtain ⟨mid, midFrame, midGrows⟩ := left.level level same
    obtain ⟨last, lastFrame, lastGrows⟩ := right.level mid midFrame
    exact ⟨last, lastFrame, midGrows.trans lastGrows⟩

theorem covers {before after : Frame} {slots : List Slot} {level : Level}
    (declares : Declares before after slots) (covers : level.Covers after) :
    level.Covers before :=
  ⟨declares.owned ▸ covers.owned, declares.symbols.trans covers.symbols,
    Nat.le_trans declares.objects covers.objects, Nat.le_trans declares.words covers.words⟩

theorem none_of_empty {before after : Frame} {slots : List Slot} {level : Level}
    (declares : Declares before after slots) (same : level.frame = before)
    (objects : after.objects = 0) (words : after.words = 0) :
    slots = [] ∧ (∀ name slot, (name, Symbol.var slot) ∉ after.symbols) ∧
      ∀ entry ∈ after.symbols, entry.2.Sound := by
  obtain ⟨grown, rfl, -⟩ := declares.level level same
  have none : ∀ name slot, (name, Symbol.var slot) ∉ grown.frame.symbols := by
    intro name slot member
    have among := (grown.named name slot member).1.1
    have noObjects : grown.objects = [] := List.length_eq_zero_iff.mp
      (grown.objects_length.trans objects)
    have noWords : grown.words = [] := List.length_eq_zero_iff.mp (grown.words_length.trans words)
    unfold Slot.Among at among
    split at among <;> simp [noObjects, noWords] at among
  refine ⟨?_, none, grown.sound⟩
  cases slots with
  | nil => rfl
  | cons slot rest =>
    obtain ⟨name, member⟩ := declares.named slot (by simp)
    exact absurd member (none name slot)

end Declares

namespace Frame

variable {frame after : Frame} {span : Span}

theorem declareSymbol_declares {name : String} (symbol : Symbol) (sound : symbol.Sound)
    (constant : ∀ slot, symbol ≠ .var slot)
    (compiled : frame.declareSymbol name symbol span = .ok after) : Declares frame after [] := by
  unfold declareSymbol at compiled
  split at compiled
  · simp only [Compiled.pure_eq_ok] at compiled
    exact compiled ▸ .refl frame
  split at compiled
  · simp at compiled
  simp only [Compiled.pure_eq_ok] at compiled
  subst compiled
  have old : ∀ name' slot, (name', Symbol.var slot) ∈ (name, symbol) :: frame.symbols →
      (name', Symbol.var slot) ∈ frame.symbols := by
    intro name' slot member
    rcases List.mem_cons.mp member with same | before
    · simp only [Prod.mk.injEq] at same
      exact absurd same.2.symm (constant slot)
    · exact before
  refine ⟨rfl, rfl, rfl, List.suffix_cons _ _, Nat.le_refl _, Nat.le_refl _, by simp,
    fun name' slot member => .inl (old name' slot member), ?_⟩
  rintro level rfl
  refine ⟨{ level with
    frame := { level.frame with symbols := (name, symbol) :: level.frame.symbols }
    named := fun name' slot member => level.named name' slot (old name' slot member)
    sound := by
      intro entry member
      rcases List.mem_cons.mp member with rfl | before
      · exact sound
      · exact level.sound entry before }, rfl, ?_⟩
  exact ⟨rfl, List.suffix_cons _ _, List.prefix_refl _, List.prefix_refl _,
    fun _ member => member, fun _ member => member, fun has => has, fun _ shared => shared⟩

theorem allocate_type (frame : Frame) (type : Ty) : (frame.allocate type).1.type = type := by
  unfold allocate
  split <;> rfl

theorem allocate_declares (frame : Frame) (type : Ty) :
    Declares frame (frame.allocate type).2 [] := by
  have kept : (frame.allocate type).2.symbols = frame.symbols ∧
      (frame.allocate type).2.owned = frame.owned ∧ (frame.allocate type).2.loop = frame.loop ∧
      (frame.allocate type).2.func = frame.func ∧ frame.objects ≤ (frame.allocate type).2.objects ∧
      frame.words ≤ (frame.allocate type).2.words := by
    unfold allocate
    split <;> simp
  obtain ⟨symbols, owned, loop, func, objects, words⟩ := kept
  refine ⟨owned, loop, func, symbols ▸ List.suffix_refl _, objects, words, by simp,
    fun name slot member => .inl (symbols ▸ member), fun level same => ?_⟩
  subst same
  obtain ⟨after, sameAfter, grows, -⟩ := level.exists_plain type
  exact ⟨after, sameAfter, grows⟩

theorem declareVar_declares {name : String} {type : Ty} {slot : Option Slot}
    (compiled : frame.declareVar name type span = .ok (slot, after)) :
    Declares frame after slot.toList ∧ ∀ found, slot = some found → found.type = type := by
  unfold declareVar at compiled
  split at compiled
  · simp only [Compiled.pure_eq_ok, Prod.mk.injEq] at compiled
    obtain ⟨rfl, rfl⟩ := compiled
    exact ⟨.refl frame, by simp⟩
  split at compiled
  · simp at compiled
  simp only [Compiled.pure_eq_ok, Prod.mk.injEq] at compiled
  obtain ⟨rfl, rfl⟩ := compiled
  have kept : (frame.allocate type).2.owned = frame.owned ∧
      (frame.allocate type).2.loop = frame.loop ∧ (frame.allocate type).2.func = frame.func ∧
      (frame.allocate type).2.symbols = frame.symbols ∧
      frame.objects ≤ (frame.allocate type).2.objects ∧
      frame.words ≤ (frame.allocate type).2.words := by
    unfold allocate
    split <;> simp
  obtain ⟨owned, loop, func, symbols, objects, words⟩ := kept
  constructor
  · refine ⟨owned, loop, func, by simp [symbols], objects, words, by simp, ?_, ?_⟩
    · intro name' slot member
      rcases List.mem_cons.mp member with same | before
      · simp only [Prod.mk.injEq, Symbol.var.injEq] at same
        exact .inr (by simp [same.2])
      · exact .inl (symbols ▸ before)
    · rintro level rfl
      obtain ⟨grown, grownFrame, grows, -⟩ := level.exists_allocated type
        ((name, .var (level.frame.allocate type).1) :: level.frame.symbols)
        level.hidden (List.suffix_cons _ _)
        (fun entry member => by
          rcases List.mem_cons.mp member with same | before
          · exact .inr ⟨⟨name, same⟩, fun _ inside =>
              absurd (level.hidden_inside _ inside) (Nat.lt_irrefl _)⟩
          · exact .inl before)
        (fun _ member => member) (fun _ member => .inl member)
      exact ⟨grown, by rw [grownFrame, symbols], grows⟩
  · intro found same
    simp only [Option.some.injEq] at same
    exact same ▸ frame.allocate_type type

theorem declareVars_declares {names : List (Ident × Ty)} {slots : List (Option Slot)}
    (compiled : frame.declareVars names = .ok (slots, after)) :
    (∃ declared, Declares frame after declared ∧ ∀ slot, slot ∈ declared ↔ some slot ∈ slots) ∧
      List.Forall₂ (fun (slot : Option Slot) (entry : Ident × Ty) =>
        ∀ found, slot = some found → found.type = entry.2) slots names := by
  induction names generalizing frame slots with
  | nil =>
    simp only [declareVars, Compiled.pure_eq_ok, Prod.mk.injEq] at compiled
    obtain ⟨rfl, rfl⟩ := compiled
    exact ⟨⟨[], .refl _, by simp⟩, .nil⟩
  | cons entry names ih =>
    simp only [declareVars, Compiled.bind_eq_ok, Prod.exists, Compiled.pure_eq_ok,
      Prod.mk.injEq] at compiled
    obtain ⟨slot, mid, first, rest, last, others, rfl, rfl⟩ := compiled
    obtain ⟨declares, type⟩ := declareVar_declares first
    obtain ⟨⟨declared, more, same⟩, types⟩ := ih others
    refine ⟨⟨_, declares.trans more, ?_⟩, .cons type types⟩
    intro found
    cases slot <;> simp [same, or_comm]

theorem declareParams_declares {params : List (Option Ident × Ty)} {slots : List (Option Slot)}
    (compiled : frame.declareParams params = .ok (slots, after)) :
    (∃ declared, Declares frame after declared ∧ ∀ slot, slot ∈ declared ↔ some slot ∈ slots) ∧
      List.Forall₂ (fun (slot : Option Slot) (entry : Option Ident × Ty) =>
        ∀ found, slot = some found → found.type = entry.2) slots params := by
  induction params generalizing frame slots with
  | nil =>
    simp only [declareParams, Compiled.pure_eq_ok, Prod.mk.injEq] at compiled
    obtain ⟨rfl, rfl⟩ := compiled
    exact ⟨⟨[], .refl _, by simp⟩, .nil⟩
  | cons entry params ih =>
    obtain ⟨name, type⟩ := entry
    cases name with
    | none =>
      simp only [declareParams, Compiled.bind_eq_ok, Prod.exists, Compiled.pure_eq_ok,
        Prod.mk.injEq] at compiled
      obtain ⟨rest, last, others, rfl, rfl⟩ := compiled
      obtain ⟨⟨declared, more, same⟩, types⟩ := ih others
      exact ⟨⟨declared, more, by simp [same]⟩, .cons (by simp) types⟩
    | some ident =>
      simp only [declareParams, Compiled.bind_eq_ok, Prod.exists, Compiled.pure_eq_ok,
        Prod.mk.injEq] at compiled
      obtain ⟨slot, mid, first, rest, last, others, rfl, rfl⟩ := compiled
      obtain ⟨declares, type⟩ := declareVar_declares first
      obtain ⟨⟨declared, more, same⟩, types⟩ := ih others
      refine ⟨⟨_, declares.trans more, ?_⟩, .cons type types⟩
      intro found
      cases slot <;> simp [same, or_comm]

/-- A slot for the result of a function, as a level of its frame knows it. -/
structure Results (frame after : Frame) (level : Level) (slot : Slot) (type : Ty) : Prop where
  level : ∃ grown : Level, grown.frame = after ∧ level.Grows grown ∧ grown.Shared slot
  type : slot.type = type
  fresh : ∀ name found, (name, Symbol.var found) ∈ after.symbols →
    (name, Symbol.var found) ∈ frame.symbols ∨ found = slot
  owned : after.owned = frame.owned
  loop : after.loop = frame.loop

theorem allocate_results {type : Ty} {slot : Slot} {level : Level} (same : level.frame = frame)
    (allocated : frame.allocate type = (slot, after)) : Results frame after level slot type := by
  subst same
  obtain ⟨grown, grownFrame, grows, shared, slotType⟩ := level.exists_plain type
  rw [allocated] at grownFrame shared slotType
  have kept : (level.frame.allocate type).2.symbols = level.frame.symbols ∧
      (level.frame.allocate type).2.owned = level.frame.owned ∧
      (level.frame.allocate type).2.loop = level.frame.loop := by
    unfold allocate
    split <;> simp
  rw [allocated] at kept
  exact ⟨⟨grown, grownFrame, grows, shared⟩, slotType,
    fun name slot' member => .inl (kept.1 ▸ member), kept.2.1, kept.2.2⟩

theorem declareResult_results {name : Option Ident} {type : Ty} {slot : Slot} {level : Level}
    (same : level.frame = frame)
    (compiled : frame.declareResult type name = .ok (slot, after)) :
    Results frame after level slot type := by
  subst same
  cases name with
  | none =>
    simp only [declareResult, Compiled.pure_eq_ok] at compiled
    exact allocate_results rfl compiled
  | some ident =>
    simp only [declareResult, Compiled.bind_eq_ok, Prod.exists] at compiled
    obtain ⟨found, mid, declared, compiled⟩ := compiled
    cases found with
    | none =>
      have unchanged : mid = level.frame := by
        unfold declareVar at declared
        split at declared
        · simp only [Compiled.pure_eq_ok, Prod.mk.injEq] at declared
          exact declared.2.symm
        · split at declared <;> simp at declared
      simp only [Compiled.pure_eq_ok, unchanged] at compiled
      exact allocate_results rfl compiled
    | some found =>
      simp only [Compiled.pure_eq_ok, Prod.mk.injEq] at compiled
      obtain ⟨rfl, rfl⟩ := compiled
      obtain ⟨declares, foundType⟩ := declareVar_declares declared
      obtain ⟨grown, rfl, grows⟩ := declares.level level rfl
      obtain ⟨name, member⟩ := declares.named found (by simp)
      refine ⟨⟨grown, rfl, grows, grown.named name found member⟩, foundType found rfl, ?_,
        declares.owned, declares.loop⟩
      intro name slot' member
      rcases declares.fresh name slot' member with before | new
      · exact .inl before
      · exact .inr (by simpa using new)

theorem declareResults_level {results : List (Option Ident × Ty)} {slots : List Slot}
    (compiled : frame.declareResults results = .ok (slots, after)) {level : Level}
    (same : level.frame = frame) :
    (∃ grown : Level, grown.frame = after ∧ level.Grows grown ∧
      (∀ slot ∈ slots, grown.Shared slot)) ∧
      List.Forall₂ (fun (slot : Slot) (entry : Option Ident × Ty) => slot.type = entry.2) slots
        results ∧
      (∀ name slot, (name, Symbol.var slot) ∈ after.symbols →
        (name, Symbol.var slot) ∈ frame.symbols ∨ slot ∈ slots) ∧
      after.owned = frame.owned ∧ after.loop = frame.loop := by
  induction results generalizing frame slots level with
  | nil =>
    simp only [declareResults, Compiled.pure_eq_ok, Prod.mk.injEq] at compiled
    obtain ⟨rfl, rfl⟩ := compiled
    exact ⟨⟨level, same, .refl level, by simp⟩, .nil, fun _ _ member => .inl member, rfl, rfl⟩
  | cons entry results ih =>
    simp only [declareResults, Compiled.bind_eq_ok, Prod.exists, Compiled.pure_eq_ok,
      Prod.mk.injEq] at compiled
    obtain ⟨slot, mid, first, rest, last, others, rfl, rfl⟩ := compiled
    obtain ⟨⟨grown, grownFrame, grows, shared⟩, slotType, fresh, owned, loop⟩ :=
      declareResult_results same first
    obtain ⟨⟨final, finalFrame, finalGrows, allShared⟩, types, allFresh, allOwned, allLoop⟩ :=
      ih others grownFrame
    refine ⟨⟨final, finalFrame, grows.trans finalGrows, ?_⟩, .cons slotType types, ?_,
      allOwned.trans owned, allLoop.trans loop⟩
    · intro found member
      rcases List.mem_cons.mp member with rfl | member
      · exact finalGrows.shared _ shared
      · exact allShared found member
    · intro name found member
      rcases allFresh name found member with before | late
      · rcases fresh name found before with older | rfl
        · exact .inl older
        · exact .inr (by simp)
      · exact .inr (by simp [late])

end Frame

namespace Compile

theorem functionFrame_level {head : FuncHead} {signature : Signature}
    {params : List (Option Slot)} {results : List Slot} {frame : Frame}
    (paramCount : head.params.length = signature.params.length)
    (resultCount : head.results.length = signature.results.length)
    (compiled : functionFrame head signature = .ok (params, results, frame)) :
    ∃ level : Level, level.frame = frame ∧ frame.owned = true ∧ frame.loop = none ∧
      (∃ named, frame.func = some ⟨results, named⟩) ∧
      List.Forall₂ (fun (slot : Option Slot) type => ∀ found, slot = some found →
        level.Shared found ∧ found.type = type) params signature.params ∧
      List.Forall₂ (fun (slot : Slot) type => level.Shared slot ∧ slot.type = type) results
        signature.results ∧
      ∀ name slot, (name, Symbol.var slot) ∈ frame.symbols →
        slot ∈ params.filterMap id ++ results := by
  simp only [functionFrame, Compiled.bind_eq_ok, Prod.exists, Compiled.pure_eq_ok,
    Prod.mk.injEq] at compiled
  obtain ⟨params, mid, declared, results, last, declaredResults, rfl, rfl, rfl⟩ := compiled
  obtain ⟨⟨slots, declares, same⟩, paramTypes⟩ := Frame.declareParams_declares declared
  obtain ⟨first, firstFrame, firstGrows⟩ := declares.level
    (.empty { owned := true } rfl rfl rfl) rfl
  obtain ⟨⟨second, secondFrame, secondGrows, shared⟩, resultTypes, fresh, owned, loop⟩ :=
    Frame.declareResults_level declaredResults firstFrame
  obtain ⟨level, levelFrame, levelGrows⟩ := second.exists_reframed
    { last with func := some ⟨results, head.results.any (·.name.isSome)⟩ }
    (by rw [secondFrame]) (by rw [secondFrame]) (by rw [secondFrame]) (by rw [secondFrame])
  have grown := secondGrows.trans levelGrows
  refine ⟨level, levelFrame, ?_, ?_, ⟨_, rfl⟩, ?_, ?_, ?_⟩
  · exact owned.trans declares.owned
  · exact loop.trans declares.loop
  · have sharedParams : ∀ slot, some slot ∈ params → level.Shared slot := by
      intro slot member
      obtain ⟨name, found⟩ := declares.named slot ((same slot).mpr member)
      exact grown.shared slot (first.named name slot (firstFrame ▸ found))
    have zipped : ((head.params.map (·.name)).zip signature.params).map (·.2) =
        signature.params := by
      rw [List.map_snd_zip]
      simp [paramCount]
    rw [← zipped, List.forall₂_map_right_iff]
    refine (List.forall₂_iff_get.mpr ?_)
    obtain ⟨length, each⟩ := List.forall₂_iff_get.mp paramTypes
    refine ⟨length, fun index left right found known => ?_⟩
    exact ⟨sharedParams found (known ▸ List.get_mem _ _), each index left right found known⟩
  · have zipped : ((head.results.map (·.name)).zip signature.results).map (·.2) =
        signature.results := by
      rw [List.map_snd_zip]
      simp [resultCount]
    rw [← zipped, List.forall₂_map_right_iff]
    obtain ⟨length, each⟩ := List.forall₂_iff_get.mp resultTypes
    refine List.forall₂_iff_get.mpr ⟨length, fun index left right => ?_⟩
    exact ⟨levelGrows.shared _ (shared _ (List.get_mem _ _)), each index left right⟩
  · intro name slot member
    rcases fresh name slot member with before | late
    · rcases declares.fresh name slot before with older | early
      · simp at older
      · refine List.mem_append_left _ (List.mem_filterMap.mpr ⟨some slot, ?_, rfl⟩)
        exact (same slot).mp early
    · exact List.mem_append_right _ late

end Compile

end MiniGo
