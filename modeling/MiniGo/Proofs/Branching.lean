import MiniGo.Proofs.Nesting
import MiniGo.Proofs.Shells
/-!
Two compilations that differ in one statement. One has a branch where the other has a statement that
does nothing, with one instruction each; everything around goes the same way on both sides, so the two
results differ in one instruction, or one side stops at its branch.

What is known of the instruction of the branch is an aim. It is kept by everything that puts other
instructions around it, and changes where exits get their positions.
-/

namespace MiniGo

abbrev View := Nat → Line → Prop

namespace View

def of (here : Nat) (lines : List Line) : View := fun position line =>
  ∃ index, position = here + index ∧ lines[index]? = some line

theorem of_left {here position : Nat} {lines more : List Line} {line : Line}
    (found : of here lines position line) : of here (lines ++ more) position line := by
  obtain ⟨index, same, found⟩ := found
  exact ⟨index, same, by rw [List.getElem?_append_left (List.getElem?_eq_some_iff.mp found).1, found]⟩

theorem of_right {here position : Nat} {first lines : List Line} {line : Line}
    (found : of (here + first.length) lines position line) :
    of here (first ++ lines) position line := by
  obtain ⟨index, same, found⟩ := found
  refine ⟨first.length + index, by omega, ?_⟩
  rw [List.getElem?_append_right (Nat.le_add_right _ _), Nat.add_sub_cancel_left, found]

theorem of_close {here position level breakTo continueTo : Nat} {lines : List Line} {line : Line}
    (found : of here lines position line) :
    of here (lines.map (·.close level breakTo continueTo)) position
      (line.close level breakTo continueTo) := by
  obtain ⟨index, same, found⟩ := found
  exact ⟨index, same, by rw [List.getElem?_map, found]; rfl⟩

end View

/-- What is known of the instruction of a branch, given the instructions around it. -/
structure Aim where
  /-- Faults that the branch itself stops with. -/
  stops : CompileError → Prop
  /-- The branch may stand where no code is kept. -/
  drops : Prop
  fits : View → Nat → Line → Prop
  mono : ∀ {view more : View} {position : Nat} {line : Line},
    (∀ position line, view position line → more position line) → fits view position line →
      fits more position line

namespace Aim

def closed (aim : Aim) (level breakTo continueTo : Nat) : Aim where
  stops := aim.stops
  drops := aim.drops
  fits view position line := ∃ (inner : View) (open' : Line),
    (∀ position line, inner position line → view position (line.close level breakTo continueTo)) ∧
    aim.fits inner position open' ∧ line = open'.close level breakTo continueTo
  mono more := fun ⟨inner, line, inside, fits, same⟩ =>
    ⟨inner, line, fun position line found => more _ _ (inside position line found), fits, same⟩

def Possible (aim : Aim) : Prop := aim.drops ∨ ∃ view position line, aim.fits view position line

def idle (span : Span) : Line :=
  ⟨.eval (.call (.closure (.mk ⟨[], [], false⟩ {} [] [] 0 0)) (.each []) false), span⟩

/-- Lines that are the same except for one, with the environments pushed before it. -/
def Hole (aim : Aim) (span : Span) (here : Nat) (depth : Int) (left right : List Line) : Prop :=
  ∃ before line after, left = before ++ line :: after ∧ right = before ++ idle span :: after ∧
    nesting before = depth ∧ aim.fits (.of here left) (here + before.length) line

def Differ (aim : Aim) (span : Span) (here : Nat) (depth : Int) (left right : List Line) : Prop :=
  (aim.drops ∧ left = right) ∨ aim.Hole span here depth left right

variable {aim : Aim} {span : Span} {here : Nat} {depth : Int} {left right : List Line}

namespace Hole

theorem length_eq (hole : aim.Hole span here depth left right) : left.length = right.length := by
  obtain ⟨before, line, after, rfl, rfl, -⟩ := hole
  simp

theorem append_left (first : List Line)
    (hole : aim.Hole span (here + first.length) depth left right) :
    aim.Hole span here (nesting first + depth) (first ++ left) (first ++ right) := by
  obtain ⟨before, line, after, rfl, rfl, rfl, fits⟩ := hole
  refine ⟨first ++ before, line, after, by simp, by simp, nesting_append _ _, ?_⟩
  rw [List.length_append, ← Nat.add_assoc]
  exact aim.mono (fun _ _ => View.of_right) fits

theorem append_right (hole : aim.Hole span here depth left right) (more : List Line) :
    aim.Hole span here depth (left ++ more) (right ++ more) := by
  obtain ⟨before, line, after, rfl, rfl, same, fits⟩ := hole
  exact ⟨before, line, after ++ more, by simp, by simp, same, aim.mono (fun _ _ => View.of_left) fits⟩

theorem close (hole : aim.Hole span here depth left right) (level breakTo continueTo : Nat) :
    (aim.closed level breakTo continueTo).Hole span here depth
      (left.map (·.close level breakTo continueTo))
      (right.map (·.close level breakTo continueTo)) := by
  obtain ⟨before, line, after, rfl, rfl, same, fits⟩ := hole
  refine ⟨before.map (·.close level breakTo continueTo), line.close level breakTo continueTo,
    after.map (·.close level breakTo continueTo), by simp, ?_, by simpa using same, ?_⟩
  · rw [List.map_append, List.map_cons]
    rfl
  · rw [List.length_map]
    exact ⟨_, line, fun _ _ => View.of_close, fits, rfl⟩

end Hole

namespace Differ

theorem length_eq (differ : aim.Differ span here depth left right) : left.length = right.length := by
  obtain ⟨-, rfl⟩ | hole := differ
  · rfl
  · exact hole.length_eq

theorem possible (differ : aim.Differ span here depth left right) : aim.Possible := by
  obtain ⟨drops, -⟩ | ⟨_, _, _, _, _, _, fits⟩ := differ
  · exact .inl drops
  · exact .inr ⟨_, _, _, fits⟩

theorem append_left (first : List Line)
    (differ : aim.Differ span (here + first.length) depth left right) :
    aim.Differ span here (nesting first + depth) (first ++ left) (first ++ right) :=
  differ.imp (fun ⟨drops, same⟩ => ⟨drops, by rw [same]⟩) (.append_left first)

theorem append_right (differ : aim.Differ span here depth left right) (more : List Line) :
    aim.Differ span here depth (left ++ more) (right ++ more) :=
  differ.imp (fun ⟨drops, same⟩ => ⟨drops, by rw [same]⟩) (·.append_right more)

end Differ

end Aim

/-- Two compilations that stop with the same fault, or of which the first stops at its branch, or that
give related results. -/
inductive Compared {α β : Type} (stops : CompileError → Prop) (related : α → β → Prop) :
    Compiled α → Compiled β → Prop
  | same (error : CompileError) : Compared stops related (.error error) (.error error)
  | stop {error : CompileError} (right : Compiled β) : stops error →
    Compared stops related (.error error) right
  | ok {left : α} {right : β} : related left right → Compared stops related (.ok left) (.ok right)

namespace Compared

variable {α β γ δ : Type} {stops : CompileError → Prop} {related : α → β → Prop}
  {relatedNext : γ → δ → Prop} {left : Compiled α} {right : Compiled β}

theorem bind {next : α → Compiled γ} {other : β → Compiled δ}
    (compared : Compared stops related left right)
    (rest : ∀ first second, related first second →
      Compared stops relatedNext (next first) (other second)) :
    Compared stops relatedNext (left >>= next) (right >>= other) := by
  cases compared with
  | same error => exact .same error
  | stop right stopped => exact .stop _ stopped
  | ok related => exact rest _ _ related

theorem shared {first : Compiled α} {next : α → Compiled γ} {other : α → Compiled δ}
    (rest : ∀ value, first = .ok value → Compared stops relatedNext (next value) (other value)) :
    Compared stops relatedNext (first >>= next) (first >>= other) := by
  cases first with
  | error error => exact .same error
  | ok value => exact rest value rfl

theorem fault (cause : Cause) (span : Span) :
    Compared stops related (MiniGo.fault cause span) (MiniGo.fault cause span) := .same _

theorem imp {weaker : α → β → Prop} (compared : Compared stops related left right)
    (more : ∀ first second, left = .ok first → related first second → weaker first second) :
    Compared stops weaker left right := by
  cases compared with
  | same error => exact .same error
  | stop right stopped => exact .stop _ stopped
  | ok related => exact .ok (more _ _ rfl related)

end Compared

namespace Aim

structure Apart (aim : Aim) (span : Span) (here : Nat) (depth : Int) (left right : Fragment) : Prop where
  defers : left.defers = right.defers
  lines : aim.Differ span here depth left.lines right.lines

structure Split (aim : Aim) (span : Span) (here : Nat) (depth : Int) (left right : Piece) : Prop extends
    aim.Apart span here depth left.toFragment right.toFragment where
  frame : left.frame = right.frame

variable {aim : Aim} {at' : Span} {here : Nat} {depth : Int}

namespace Apart

variable {left right : Fragment}

theorem length_eq (apart : aim.Apart at' here depth left right) : left.length = right.length :=
  apart.lines.length_eq

theorem append_left (first : Fragment) (apart : aim.Apart at' (here + first.length) depth left right) :
    aim.Apart at' here (nesting first.lines + depth) (first ++ left) (first ++ right) :=
  ⟨congrArg (first.defers || ·) apart.defers, apart.lines.append_left first.lines⟩

theorem append_right (apart : aim.Apart at' here depth left right) (more : Fragment) :
    aim.Apart at' here depth (left ++ more) (right ++ more) :=
  ⟨congrArg (· || more.defers) apart.defers, apart.lines.append_right more.lines⟩

theorem after {first : Fragment} (balanced : first.Balanced)
    (apart : aim.Apart at' (here + first.length) depth left right) :
    aim.Apart at' here depth (first ++ left) (first ++ right) := by
  have moved := apart.append_left first
  rwa [show nesting first.lines = 0 from balanced, Int.zero_add] at moved

theorem dead (apart : aim.Apart at' here depth left right) (drops : aim.Possible → aim.drops)
    (here' : Nat) (depth' : Int) : aim.Apart at' here' depth' left.dead right.dead :=
  ⟨apart.defers, .inl ⟨drops apart.lines.possible, rfl⟩⟩

end Apart

end Aim

section Constructs

variable {aim : Aim} {at' span condSpan : Span} {here : Nat} {depth : Int}

def wrapped (owned : Bool) (span : Span) (piece : Piece) : Fragment :=
  if owned then
    Fragment.one (.push piece.frame.objects piece.frame.words) span ++ piece.toFragment ++
      Fragment.one .pop span
  else piece.toFragment

theorem inScope_compared {owned : Bool} {left right : Frame → Nat → Compiled Piece}
    {related : Piece → Piece → Prop} {stops : CompileError → Prop}
    (inside : Compared stops related (left { owned } (here + owned.toNat))
      (right { owned } (here + owned.toNat)))
    (frames : ∀ first second, related first second → first.frame = second.frame) :
    Compared stops (fun first second => ∃ inner other, related inner other ∧
        first = wrapped owned span inner ∧ second = wrapped owned span other)
      (inScope owned span here left) (inScope owned span here right) := by
  have position : (if owned then here + 1 else here) = here + owned.toNat := by cases owned <;> rfl
  unfold inScope
  rw [position]
  refine inside.bind fun first second linked => ?_
  have same := frames first second linked
  dsimp only
  rw [← same]
  cases owned with
  | true =>
    simp only [if_true]
    split
    · exact .same _
    · refine .ok ⟨first, second, linked, rfl, ?_⟩
      simp only [wrapped, if_true, same]
  | false =>
    simp only [Bool.false_eq_true, if_false]
    split
    · exact .same _
    · exact .ok ⟨first, second, linked, rfl, rfl⟩

theorem Aim.Apart.wrapped {owned : Bool} {left right : Piece}
    (split : aim.Split at' (here + owned.toNat) depth left right) :
    aim.Apart at' here (owned.toNat + depth) (wrapped owned span left) (wrapped owned span right) := by
  unfold MiniGo.wrapped
  rw [← split.frame]
  cases owned with
  | false => simpa using split.toApart
  | true =>
    have opened := split.toApart.append_left
      (.one (.push left.frame.objects left.frame.words) span)
    exact opened.append_right _

theorem inScope_apart {owned : Bool} {left right : Frame → Nat → Compiled Piece}
    (inside : Compared aim.stops (aim.Split at' (here + owned.toNat) depth)
      (left { owned } (here + owned.toNat)) (right { owned } (here + owned.toNat))) :
    Compared aim.stops (aim.Apart at' here (owned.toNat + depth)) (inScope owned span here left)
      (inScope owned span here right) := by
  refine (inScope_compared inside fun _ _ split => split.frame).imp ?_
  rintro _ _ - ⟨first, second, split, rfl, rfl⟩
  exact .wrapped split

theorem branches_then {cond : Cond} {left right : Nat → Compiled Fragment}
    {elsePart : Option (Nat → Compiled Fragment)} (drops : cond = .const false → aim.Possible → aim.drops)
    (inside : ∀ here, Compared aim.stops (aim.Apart at' here depth) (left here) (right here)) :
    Compared aim.stops (aim.Apart at' here depth) (branches cond here condSpan span left elsePart)
      (branches cond here condSpan span right elsePart) := by
  cases cond with
  | const value =>
    simp only [branches]
    refine (inside here).bind fun first second apart => ?_
    have kept : aim.Apart at' here depth (if value then first else first.dead)
        (if value then second else second.dead) := by
      cases value
      · exact apart.dead (drops rfl) here depth
      · exact apart
    have length := kept.length_eq
    cases elsePart with
    | none => exact .ok kept
    | some other =>
      dsimp only
      rw [length]
      exact .shared fun last _ => .ok (kept.append_right _)
  | code cond =>
    simp only [branches]
    refine (inside (here + 1)).bind fun first second apart => ?_
    have length := apart.length_eq
    cases elsePart with
    | none =>
      rw [length]
      exact .ok (Aim.Apart.after (.one rfl) apart)
    | some other =>
      dsimp only
      rw [length]
      refine .shared fun last _ => .ok ?_
      exact ((Aim.Apart.after (.one rfl) apart).append_right _).append_right _

theorem branches_else {cond : Cond} {thenPart left right : Nat → Compiled Fragment}
    (drops : cond = .const true → aim.Possible → aim.drops)
    (balanced : ∀ here part, thenPart here = .ok part → part.Balanced)
    (inside : ∀ here, Compared aim.stops (aim.Apart at' here depth) (left here) (right here)) :
    Compared aim.stops (aim.Apart at' here depth)
      (branches cond here condSpan span thenPart (some left))
      (branches cond here condSpan span thenPart (some right)) := by
  cases cond with
  | const value =>
    simp only [branches]
    refine .shared fun first found => (inside _).bind fun second other apart => .ok ?_
    cases value with
    | true => exact .after (balanced _ _ found) (apart.dead (drops rfl) _ depth)
    | false => exact .after (.dead _) apart
  | code cond =>
    simp only [branches]
    refine .shared fun first found => (inside _).bind fun second other apart => ?_
    have length := apart.length_eq
    rw [length]
    refine .ok ?_
    refine .after (((Fragment.Balanced.one rfl).append (balanced _ _ found)).append (.one rfl)) ?_
    simpa [Nat.add_assoc, Nat.add_comm, Nat.add_left_comm] using apart

/-- How a loop goes on: with its post statement, then with a jump back to its test. -/
structure Cycle (cond : Cond) (level back : Nat) (span : Span) (post : Nat → Compiled Piece)
    (view : View) (breakTo continueTo : Nat) : Prop where
  test : ∀ code, cond = .code code → view back ⟨.jumpUnless code breakTo, span⟩
  post : ∃ after, post continueTo = .ok after ∧ continueTo + after.length + 1 = breakTo ∧
    (∀ position line, View.of continueTo after.lines position line →
      view position (line.close level breakTo continueTo)) ∧
    view (continueTo + after.length) ⟨.goto back, span⟩

theorem Cycle.mono {cond : Cond} {level back breakTo continueTo : Nat} {post : Nat → Compiled Piece}
    {view other : View} (cycle : Cycle cond level back span post view breakTo continueTo)
    (more : ∀ position line, view position line → other position line) :
    Cycle cond level back span post other breakTo continueTo := by
  obtain ⟨test, after, found, length, same, goes⟩ := cycle
  exact ⟨fun code isCode => more _ _ (test code isCode), after, found, length,
    fun position line inside => more _ _ (same position line inside), more _ _ goes⟩

/-- How a range loop goes on: it takes a step, unless it receives, and then tries to advance. -/
structure Rounds (kind : RangeKind) (next : Nat) (span : Span) (view : View)
    (breakTo continueTo : Nat) : Prop where
  goes : ∃ position, position + 1 = breakTo ∧ view position ⟨.goto next, span⟩
  advances : ∃ slots key value, view next ⟨.rangeNext kind slots key value breakTo, span⟩ ∧
    (kind ≠ .chan → continueTo + 2 = breakTo ∧ view continueTo ⟨.rangeStep slots, span⟩)
  receives : kind = .chan → continueTo = next

theorem Rounds.mono {kind : RangeKind} {next breakTo continueTo : Nat} {view other : View}
    (rounds : Rounds kind next span view breakTo continueTo)
    (more : ∀ position line, view position line → other position line) :
    Rounds kind next span other breakTo continueTo := by
  obtain ⟨⟨position, last, goes⟩, ⟨slots, key, value, advances, steps⟩, receives⟩ := rounds
  refine ⟨⟨position, last, more _ _ goes⟩, ⟨slots, key, value, more _ _ advances, ?_⟩, receives⟩
  intro other
  exact ⟨(steps other).1, more _ _ (steps other).2⟩

/-- Pieces that differ in the branch, once the exits of a statement around it have their positions. -/
structure Aim.Turned (aim : Aim) (at' : Span) (level here : Nat) (depth : Int)
    (layout : Piece → Nat → Nat → Prop) (left right : Piece) : Prop where
  frame : left.frame = right.frame
  defers : left.defers = right.defers
  lines : (aim.drops ∧ left.lines = right.lines) ∨ ∃ breakTo continueTo,
    layout left breakTo continueTo ∧
      (aim.closed level breakTo continueTo).Hole at' here depth left.lines right.lines

theorem Aim.Turned.around {level : Nat} {layout wider : Piece → Nat → Nat → Prop}
    {left right outer other : Piece} {before after : List Line}
    (turned : aim.Turned at' level (here + before.length) depth layout left right)
    (frame : outer.frame = other.frame) (defers : outer.defers = other.defers)
    (same : outer.lines = before ++ left.lines ++ after)
    (too : other.lines = before ++ right.lines ++ after)
    (widen : ∀ breakTo continueTo, layout left breakTo continueTo → wider outer breakTo continueTo) :
    aim.Turned at' level here (nesting before + depth) wider outer other := by
  refine ⟨frame, defers, turned.lines.imp ?_ ?_⟩
  · rintro ⟨drops, equal⟩
    exact ⟨drops, by rw [same, too, equal]⟩
  · rintro ⟨breakTo, continueTo, laid, hole⟩
    refine ⟨breakTo, continueTo, widen _ _ laid, ?_⟩
    rw [same, too]
    exact (hole.append_left before).append_right after

def loopLayout (cond : Cond) (level here : Nat) (span : Span) (post : Nat → Compiled Piece)
    (piece : Piece) (breakTo continueTo : Nat) : Prop :=
  breakTo = here + piece.length ∧
    Cycle cond level here span post (.of here piece.lines) breakTo continueTo

def Cond.entry (cond : Cond) (breakTo : Nat) (span : Span) : Fragment :=
  match cond with
  | .code cond => .one (.jumpUnless cond breakTo) span
  | .const _ => {}

theorem Cond.entry_balanced (cond : Cond) (breakTo : Nat) (span : Span) :
    (cond.entry breakTo span).Balanced := by
  cases cond
  · exact .nil
  · exact .one rfl

theorem Cond.entry_length (cond : Cond) (breakTo other : Nat) (span : Span) :
    (cond.entry breakTo span).length = (cond.entry other span).length := by
  cases cond <;> rfl

def cycled (cond : Cond) (level here : Nat) (span : Span) (breakTo continueTo : Nat) (inner : Fragment)
    (frame : Frame) : Piece :=
  (cond.entry breakTo span ++ inner.close level breakTo continueTo ++
    Fragment.one (.goto here) span).within frame

theorem loop_eq {cond : Cond} (runs : cond ≠ .const false) {start : Nat}
    (isStart : start = here + (cond.entry 0 span).length) (level : Nat)
    (body : Nat → Compiled Fragment) (post : Nat → Compiled Piece) :
    loop cond level here span body post =
      (body start >>= fun part => post (start + part.length) >>= fun last =>
        pure (cycled cond level here span (start + part.length + last.length + 1)
          (start + part.length) (part ++ last.toFragment) last.frame)) := by
  subst isStart
  cases cond with
  | const value =>
    cases value
    · exact absurd rfl runs
    · rfl
  | code code => rfl

theorem cycled_layout {cond : Cond} {level start breakTo continueTo : Nat}
    {post : Nat → Compiled Piece} {body : Fragment} {last : Piece} {frame : Frame}
    (isStart : start = here + (cond.entry 0 span).length)
    (isContinue : start + body.length = continueTo) (isBreak : continueTo + last.length + 1 = breakTo)
    (found : post continueTo = .ok last) :
    loopLayout cond level here span post
      (cycled cond level here span breakTo continueTo (body ++ last.toFragment) frame) breakTo
      continueTo := by
  have lines : (cycled cond level here span breakTo continueTo (body ++ last.toFragment) frame).lines =
      (cond.entry breakTo span).lines ++ body.lines.map (·.close level breakTo continueTo) ++
        last.lines.map (·.close level breakTo continueTo) ++ [⟨.goto here, span⟩] := by
    simp [cycled, Fragment.close]
  have before : here + ((cond.entry breakTo span).lines ++
      body.lines.map (·.close level breakTo continueTo)).length = continueTo := by
    have entry := cond.entry_length 0 breakTo span
    simp only [Fragment.length_lines, List.length_append, List.length_map] at isContinue isStart entry ⊢
    omega
  refine ⟨?_, ⟨?_, last, found, isBreak, ?_, ?_⟩⟩
  · simp only [Fragment.length_lines, lines, List.length_append, List.length_map,
      List.length_singleton] at before isBreak ⊢
    omega
  · intro code isCode
    refine ⟨0, rfl, ?_⟩
    rw [lines, isCode]
    rfl
  · intro position line inside
    rw [lines]
    refine View.of_left (View.of_right ?_)
    rw [before]
    exact View.of_close inside
  · rw [lines]
    refine View.of_right ⟨0, ?_, rfl⟩
    rw [List.length_append, ← Nat.add_assoc, before, List.length_map]
    rfl

theorem cycled_turned {cond : Cond} {level start breakTo continueTo : Nat} {post : Nat → Compiled Piece}
    {left right : Fragment} {frame : Frame} (isStart : start = here + (cond.entry 0 span).length)
    (apart : aim.Apart at' start depth left right)
    (layout : loopLayout cond level here span post
      (cycled cond level here span breakTo continueTo left frame) breakTo continueTo) :
    aim.Turned at' level here depth (loopLayout cond level here span post)
      (cycled cond level here span breakTo continueTo left frame)
      (cycled cond level here span breakTo continueTo right frame) := by
  refine ⟨rfl, ?_, ?_⟩
  · exact congrArg (fun flag => ((cond.entry breakTo span).defers || flag) || false) apart.defers
  obtain ⟨drops, same⟩ | hole := apart.lines
  · exact .inl ⟨drops, by simp [cycled, Fragment.close, same]⟩
  · refine .inr ⟨breakTo, continueTo, layout, ?_⟩
    have closed := hole.close level breakTo continueTo
    rw [isStart, cond.entry_length 0 breakTo] at closed
    have placed := (closed.append_left (cond.entry breakTo span).lines).append_right
      [⟨.goto here, span⟩]
    rwa [show nesting (cond.entry breakTo span).lines = 0 from cond.entry_balanced _ _,
      Int.zero_add] at placed

theorem loop_body {cond : Cond} {level : Nat} {left right : Nat → Compiled Fragment}
    {post : Nat → Compiled Piece} (drops : cond = .const false → aim.Possible → aim.drops)
    (inside : ∀ here, Compared aim.stops (aim.Apart at' here depth) (left here) (right here)) :
    Compared aim.stops (aim.Turned at' level here depth (loopLayout cond level here span post))
      (loop cond level here span left post) (loop cond level here span right post) := by
  by_cases never : cond = .const false
  · subst never
    simp only [loop]
    refine (inside here).bind fun first second apart => ?_
    rw [apart.length_eq]
    refine .shared fun last _ => .ok ⟨rfl, ?_, .inl ⟨drops rfl apart.lines.possible, rfl⟩⟩
    exact congrArg (· || last.defers) apart.defers
  · rw [loop_eq never rfl, loop_eq never rfl]
    refine (inside _).bind fun first second apart => ?_
    rw [← apart.length_eq]
    exact .shared fun last found => .ok (cycled_turned rfl (apart.append_right last.toFragment)
      (cycled_layout rfl rfl rfl found))

theorem loop_post {cond : Cond} {level : Nat} {body : Nat → Compiled Fragment}
    {left right : Nat → Compiled Piece} (drops : cond = .const false → aim.Possible → aim.drops)
    (balanced : ∀ here part, body here = .ok part → part.Balanced)
    (inside : ∀ here, Compared aim.stops (aim.Split at' here depth) (left here) (right here)) :
    Compared aim.stops (aim.Turned at' level here depth (loopLayout cond level here span left))
      (loop cond level here span body left) (loop cond level here span body right) := by
  by_cases never : cond = .const false
  · subst never
    simp only [loop]
    refine .shared fun part _ => (inside _).bind fun first second split =>
      .ok ⟨split.frame, ?_, .inl ⟨drops rfl split.lines.possible, rfl⟩⟩
    exact congrArg (part.defers || ·) split.defers
  · rw [loop_eq never rfl, loop_eq never rfl]
    refine .shared fun part found => ?_
    have known := (inside (here + (cond.entry 0 span).length + part.length)).imp
      fun first second isLeft split => (⟨isLeft, split⟩ : _ ∧ _)
    refine known.bind fun first second both => ?_
    obtain ⟨isLeft, split⟩ := both
    rw [← show first.length = second.length from split.length_eq, ← split.frame]
    exact .ok (cycled_turned rfl (.after (balanced _ _ found) split.toApart)
      (cycled_layout rfl rfl rfl isLeft))

def rangeLayout (kind : RangeKind) (here : Nat) (span : Span) (piece : Piece)
    (breakTo continueTo : Nat) : Prop :=
  breakTo = here + piece.length ∧
    Rounds kind (here + 1) span (.of here piece.lines) breakTo continueTo

def rangeStepping (kind : RangeKind) (slots : RangeSlots) (span : Span) : Fragment :=
  if kind == .chan then {} else .one (.rangeStep slots) span

theorem rangeLoop_turned {kind : RangeKind} {keyType : Ty} {slots : RangeSlots} {subject : Code}
    {key value : Option Place} {level : Nat} {left right : Fragment} {frame : Frame}
    (apart : aim.Apart at' (here + 2) depth left right) :
    aim.Turned at' level here depth (rangeLayout kind here span)
      ((Compile.rangeLoop kind keyType slots subject key value left level here span).within frame)
      ((Compile.rangeLoop kind keyType slots subject key value right level here span).within frame) := by
  have length := apart.length_eq
  generalize isFinish : here + 2 + left.length = finish
  generalize isContinue : (if kind == .chan then here + 1 else finish) = continueTo
  generalize isBreak : finish + (rangeStepping kind slots span).length + 1 = breakTo
  have shape (body : Fragment) (same : body.length = left.length) :
      Compile.rangeLoop kind keyType slots subject key value body level here span =
        Fragment.one (.rangeStart kind keyType slots subject) span ++
          Fragment.one (.rangeNext kind slots key value breakTo) span ++
          body.close level breakTo continueTo ++ rangeStepping kind slots span ++
          Fragment.one (.goto (here + 1)) span := by
    simp only [Compile.rangeLoop, same, isFinish, isContinue]
    rw [← isBreak]
    rfl
  rw [shape left rfl, shape right length.symm]
  refine ⟨rfl, ?_, ?_⟩
  · exact congrArg (fun flag => (((false || false) || flag) ||
      (rangeStepping kind slots span).defers) || false) apart.defers
  obtain ⟨drops, same⟩ | hole := apart.lines
  · exact .inl ⟨drops, by simp [Fragment.close, same]⟩
  refine .inr ⟨breakTo, continueTo, ⟨?_, ?_, ?_, ?_⟩, ?_⟩
  · simp only [Fragment.length_lines, Fragment.within_lines, Fragment.append_lines, Fragment.one_lines,
      Fragment.close, List.length_append, List.length_map, List.length_singleton] at isFinish isBreak ⊢
    omega
  · refine ⟨finish + (rangeStepping kind slots span).length, isBreak, ?_⟩
    refine View.of_right ⟨0, ?_, rfl⟩
    simp only [Fragment.length_lines, Fragment.append_lines, Fragment.one_lines, Fragment.close,
      List.length_append, List.length_map, List.length_singleton] at isFinish ⊢
    omega
  · refine ⟨slots, key, value, ⟨1, rfl, rfl⟩, fun other => ?_⟩
    have steps : rangeStepping kind slots span = .one (.rangeStep slots) span := by
      simp [rangeStepping, other]
    have isFinish' : continueTo = finish := by simp [← isContinue, other]
    rw [steps] at isBreak ⊢
    rw [isFinish']
    refine ⟨isBreak, View.of_left (View.of_right ⟨0, ?_, rfl⟩)⟩
    simp only [Fragment.length_lines, Fragment.append_lines, Fragment.one_lines, Fragment.close,
      List.length_append, List.length_map, List.length_singleton] at isFinish ⊢
    omega
  · intro receives
    simp [← isContinue, receives]
  · have placed := ((@Aim.Hole.append_left _ _ here _ _ _
      [⟨.rangeStart kind keyType slots subject, span⟩, ⟨.rangeNext kind slots key value breakTo, span⟩]
      (hole.close level breakTo continueTo)).append_right
        (rangeStepping kind slots span).lines).append_right [⟨.goto (here + 1), span⟩]
    simpa [Line.opens, Fragment.close] using placed

def ClauseCode.Row (here : Nat) : List ClauseCode → Prop
  | [] => True
  | code :: rest => code.start = here ∧ Row code.next rest

theorem ClauseCode.Row.finish_eq {codes : List ClauseCode} (row : Row here codes) (breakTo : Nat) :
    ClauseCode.finish here codes = here + (ClauseCode.join breakTo codes).length := by
  induction codes generalizing here with
  | nil => rfl
  | cons code rest ih =>
    obtain ⟨rfl, following⟩ := row
    rw [ClauseCode.finish, ih following]
    simp only [ClauseCode.join, ClauseCode.next, Fragment.length_lines, Fragment.append_lines,
      Fragment.one_lines, List.length_append, List.length_singleton]
    omega

/-- Clauses that differ in the branch, which stands in one of them. -/
inductive Aim.Clauses (aim : Aim) (at' : Span) (depth : Int) :
    Nat → List ClauseCode → List ClauseCode → Prop
  | this {here : Nat} {left right : Fragment} {falls : Bool} {span : Span} {rest : List ClauseCode} :
    aim.Apart at' here depth left right → ClauseCode.Row (here + left.length + 1) rest →
    Clauses aim at' depth here (⟨here, left, falls, span⟩ :: rest) (⟨here, right, falls, span⟩ :: rest)
  | later {here : Nat} {body : Fragment} {falls : Bool} {span : Span} {left right : List ClauseCode} :
    body.Balanced → Clauses aim at' depth (here + body.length + 1) left right →
    Clauses aim at' depth here (⟨here, body, falls, span⟩ :: left) (⟨here, body, falls, span⟩ :: right)

namespace Aim.Clauses

variable {left right : List ClauseCode}

theorem row (clauses : aim.Clauses at' depth here left right) :
    ClauseCode.Row here left ∧ ClauseCode.Row here right := by
  induction clauses with
  | this apart following =>
    refine ⟨⟨rfl, following⟩, rfl, ?_⟩
    rw [apart.length_eq] at following
    exact following
  | later _ _ ih => exact ⟨⟨rfl, ih.1⟩, rfl, ih.2⟩

theorem starts_eq (clauses : aim.Clauses at' depth here left right) :
    left.map (·.start) = right.map (·.start) := by
  induction clauses with
  | this => rfl
  | later _ _ ih => rw [List.map_cons, List.map_cons, ih]

theorem join (clauses : aim.Clauses at' depth here left right) (breakTo : Nat) :
    aim.Apart at' here depth (ClauseCode.join breakTo left) (ClauseCode.join breakTo right) := by
  induction clauses with
  | this apart following =>
    simp only [ClauseCode.join, ClauseCode.next, apart.length_eq]
    exact (apart.append_right _).append_right _
  | later balanced _ ih =>
    refine .after (balanced.append (.one rfl)) ?_
    simpa [Nat.add_assoc] using ih

end Aim.Clauses

/-- The layout of a statement that chooses a clause: its exits lead to the end. -/
def choiceLayout (here : Nat) (piece : Piece) (breakTo _continueTo : Nat) : Prop :=
  breakTo = here + piece.length

theorem dispatched_turned {level : Nat} {left right : List ClauseCode} {frame : Frame}
    {dispatch : List Nat → Nat → Instr} (clauses : aim.Clauses at' depth (here + 1) left right)
    (flat : ∀ starts breakTo, Line.opens ⟨dispatch starts breakTo, span⟩ = 0) :
    aim.Turned at' level here depth (choiceLayout here)
      ((dispatched level here span left dispatch).within frame)
      ((dispatched level here span right dispatch).within frame) := by
  obtain ⟨leftRow, rightRow⟩ := clauses.row
  have apart := clauses.join (ClauseCode.finish (here + 1) left)
  have ends : ClauseCode.finish (here + 1) left = ClauseCode.finish (here + 1) right := by
    rw [leftRow.finish_eq (ClauseCode.finish (here + 1) left),
      rightRow.finish_eq (ClauseCode.finish (here + 1) left), apart.length_eq]
  have isBreak := leftRow.finish_eq (ClauseCode.finish (here + 1) left)
  unfold dispatched
  dsimp only
  rw [← ends, ← clauses.starts_eq]
  generalize ClauseCode.finish (here + 1) left = breakTo at apart isBreak
  refine ⟨rfl, congrArg (false || ·) apart.defers, ?_⟩
  obtain ⟨drops, same⟩ | hole := apart.lines
  · exact .inl ⟨drops, by simp [Fragment.close, same]⟩
  refine .inr ⟨breakTo, 0, ?_, ?_⟩
  · simp only [choiceLayout, Fragment.length_lines, Fragment.within_lines, Fragment.append_lines,
      Fragment.one_lines, Fragment.close, List.length_append, List.length_map,
      List.length_singleton] at isBreak ⊢
    omega
  · have placed := @Aim.Hole.append_left _ _ here _ _ _
      [⟨dispatch (left.map (·.start)) breakTo, span⟩] (hole.close level breakTo 0)
    rwa [nesting_cons, flat, nesting_nil, Int.add_zero, Int.zero_add] at placed

/-- The part of a statement that repeats or is chosen, after the code of its init statement and in the
scope of the statement. -/
def placed (owned : Bool) (span : Span) (frame : Frame) (before : Fragment) (piece : Piece) : Piece :=
  (wrapped owned span ((before ++ piece.toFragment).within piece.frame)).within frame

def opening (owned : Bool) (span : Span) (frame : Frame) : List Line :=
  if owned then [⟨.push frame.objects frame.words, span⟩] else []

def closing (owned : Bool) (span : Span) : List Line := if owned then [⟨.pop, span⟩] else []

theorem opening_length (owned : Bool) (span : Span) (frame : Frame) :
    (opening owned span frame).length = owned.toNat := by
  cases owned <;> rfl

theorem opening_nesting (owned : Bool) (span : Span) (frame : Frame) :
    nesting (opening owned span frame) = owned.toNat := by
  cases owned <;> rfl

theorem closing_length (owned : Bool) (span : Span) : (closing owned span).length = owned.toNat := by
  cases owned <;> rfl

theorem wrapped_lines (owned : Bool) (span : Span) (piece : Piece) :
    (wrapped owned span piece).lines =
      opening owned span piece.frame ++ piece.lines ++ closing owned span := by
  cases owned
  · simp [wrapped, opening, closing]
  · rfl

theorem wrapped_defers (owned : Bool) (span : Span) (piece : Piece) :
    (wrapped owned span piece).defers = piece.defers := by
  cases owned
  · rfl
  · simp only [wrapped, if_true]
    exact (Bool.or_false _).trans (Bool.false_or _)

theorem placed_lines (owned : Bool) (span : Span) (frame : Frame) (before : Fragment) (piece : Piece) :
    (placed owned span frame before piece).lines =
      opening owned span piece.frame ++ before.lines ++ piece.lines ++ closing owned span := by
  simp [placed, wrapped_lines]

theorem placed_view {owned : Bool} {frame : Frame} {before : Fragment} {piece : Piece} {position : Nat}
    {line : Line} (found : View.of (here + owned.toNat + before.length) piece.lines position line) :
    View.of here (placed owned span frame before piece).lines position line := by
  rw [placed_lines]
  refine View.of_left (View.of_right ?_)
  rwa [List.length_append, opening_length, ← Nat.add_assoc]

theorem placed_finish {owned : Bool} {frame : Frame} {before : Fragment} {piece : Piece} {breakTo : Nat}
    (finish : breakTo = here + owned.toNat + before.length + piece.length) :
    breakTo + owned.toNat = here + (placed owned span frame before piece).length ∧
      (owned = true → View.of here (placed owned span frame before piece).lines breakTo
        ⟨.pop, span⟩) := by
  simp only [Fragment.length_lines, placed_lines] at finish ⊢
  refine ⟨?_, fun isOwned => ?_⟩
  · simp only [List.length_append, opening_length, closing_length]
    omega
  · refine View.of_right ⟨0, ?_, by rw [isOwned]; rfl⟩
    simp only [List.length_append, opening_length]
    omega

theorem Aim.Turned.placed {owned : Bool} {frame : Frame} {before : Fragment} {level : Nat}
    {layout wider : Piece → Nat → Nat → Prop} {left right : Piece}
    (turned : aim.Turned at' level (here + owned.toNat + before.length) depth layout left right)
    (balanced : before.Balanced)
    (widen : ∀ breakTo continueTo, layout left breakTo continueTo →
      wider (placed owned span frame before left) breakTo continueTo) :
    aim.Turned at' level here (owned.toNat + depth) wider (placed owned span frame before left)
      (placed owned span frame before right) := by
  have start : nesting (opening owned span left.frame ++ before.lines) = owned.toNat := by
    rw [nesting_append, opening_nesting, show nesting before.lines = 0 from balanced, Int.add_zero]
  have position : here + (opening owned span left.frame ++ before.lines).length =
      here + owned.toNat + before.length := by
    rw [List.length_append, opening_length, Nat.add_assoc]
    rfl
  rw [← position] at turned
  have moved := @Aim.Turned.around _ _ _ _ _ _ wider _ _ (MiniGo.placed owned span frame before left)
    (MiniGo.placed owned span frame before right) _ (closing owned span) turned rfl ?_
    (placed_lines ..) ?_ widen
  · rwa [start] at moved
  · simp only [MiniGo.placed, Fragment.within, wrapped_defers]
    exact congrArg (before.defers || ·) turned.defers
  · rw [placed_lines, turned.frame]

def Aim.Following (aim : Aim) (at' : Span) (level here : Nat) (depth : Int)
    (layout : Fragment → Piece → Nat → Nat → Prop) (left right : Piece) : Prop :=
  ∃ (before : Fragment) (first second : Piece), before.Balanced ∧
    aim.Turned at' level (here + before.length) depth (layout before) first second ∧
    left = (before ++ first.toFragment).within first.frame ∧
    right = (before ++ second.toFragment).within second.frame

theorem Aim.Following.plain {level : Nat} {layout : Fragment → Piece → Nat → Nat → Prop}
    {left right : Piece} (turned : aim.Turned at' level here depth (layout {}) left right) :
    aim.Following at' level here depth layout left right :=
  ⟨{}, left, right, .nil, turned, rfl, rfl⟩

theorem inScope_following {owned : Bool} {frame : Frame} {level : Nat}
    {layout : Fragment → Piece → Nat → Nat → Prop} {wider : Piece → Nat → Nat → Prop}
    {left right : Frame → Nat → Compiled Piece}
    (inside : Compared aim.stops (aim.Following at' level (here + owned.toNat) depth layout)
      (left { owned } (here + owned.toNat)) (right { owned } (here + owned.toNat)))
    (widen : ∀ before piece breakTo continueTo, layout before piece breakTo continueTo →
      wider (placed owned span frame before piece) breakTo continueTo) :
    Compared aim.stops (aim.Turned at' level here (owned.toNat + depth) wider)
      (inScope owned span here left >>= fun fragment => pure (fragment.within frame))
      (inScope owned span here right >>= fun fragment => pure (fragment.within frame)) := by
  refine (inScope_compared inside ?_).bind ?_
  · rintro _ _ ⟨before, first, second, -, turned, rfl, rfl⟩
    exact turned.frame
  · rintro _ _ ⟨_, _, ⟨before, first, second, balanced, turned, rfl, rfl⟩, rfl, rfl⟩
    exact .ok (turned.placed balanced (widen before first))

theorem Aim.Turned.imp {level : Nat} {layout wider : Piece → Nat → Nat → Prop} {left right : Piece}
    (turned : aim.Turned at' level here depth layout left right)
    (widen : ∀ breakTo continueTo, layout left breakTo continueTo → wider left breakTo continueTo) :
    aim.Turned at' level here depth wider left right :=
  ⟨turned.frame, turned.defers, turned.lines.imp id fun ⟨breakTo, continueTo, laid, hole⟩ =>
    ⟨breakTo, continueTo, widen _ _ laid, hole⟩⟩

end Constructs

end MiniGo
