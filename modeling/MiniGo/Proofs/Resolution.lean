import MiniGo.Proofs.Enclosures
/-!
Where a `break` or a `continue` leads. The statement that it belongs to is read off the statements
around it, inside one function; it compiles if there is one, and its jump leaves the environments
entered since that statement began to go to the end of its code, or to where it goes on.
-/

namespace MiniGo

namespace Compile

variable {aim : Aim} {at' : Span} {here : Nat} {depth : Int} {left right : Stmt} {kind : ExitKind}
  {label : Option String} {labels : List String} {outer : Scope} {frame : Frame}

theorem shell_outside (shell : Shell) (plain : shell.offers .break = false) (twins : left.Twins right)
    (excludes : shell.Excludes outer frame labels → aim.Possible → aim.drops)
    (inside : Inside aim at' depth kind label labels outer frame shell left right) :
    Outside aim at' here depth labels outer frame shell left right := by
  cases shell with
  | labeled name span => exact labeled_split inside
  | block row span => exact block_split twins inside
  | ifInit => exact ifInit_split twins inside
  | ifThen => exact ifThen_split twins excludes inside
  | ifElse => exact ifElse_split twins excludes inside
  | forInit => exact forInit_split twins inside
  | switchInit => exact switchInit_split twins inside
  | typeSwitchInit => exact typeSwitchInit_split twins inside
  | forBody | forPost | rangeBody | switchClause | typeSwitchClause | selectClause => cases plain

theorem shell_closes (shell : Shell) (offers : shell.offers .break = true) (twins : left.Twins right)
    (excludes : shell.Excludes outer frame labels → aim.Possible → aim.drops)
    (inside : Inside aim at' depth kind label labels outer frame shell left right) :
    Closes aim at' here depth labels outer frame shell left right := by
  cases shell with
  | forBody => exact forBody_closes twins excludes inside
  | forPost => exact forPost_closes twins excludes inside
  | rangeBody => exact rangeBody_closes twins inside
  | switchClause => exact switchClause_closes twins inside
  | typeSwitchClause => exact typeSwitchClause_closes twins inside
  | selectClause => exact selectClause_closes twins inside
  | labeled | block | ifInit | ifThen | ifElse | forInit | switchInit | typeSwitchInit => cases offers

end Compile

/-- An instruction once the exits of some statements around it have their positions. -/
inductive Line.Settles (line : Line) : Line → Prop
  | refl : Settles line line
  | close {other : Line} (level breakTo continueTo : Nat) : Settles line other →
    Settles line (other.close level breakTo continueTo)

def ExitKind.keyword : ExitKind → Keyword
  | .break => .break
  | .continue => .continue

def ExitKind.branch : ExitKind → BranchKind
  | .break => .break
  | .continue => .continue

def ExitKind.pick (kind : ExitKind) (breakTo continueTo : Nat) : Nat :=
  match kind with
  | .break => breakTo
  | .continue => continueTo

def ExitKind.unresolved (kind : ExitKind) (label : Option Ident) (span : Span) : CompileError :=
  match label with
  | some label => ⟨.undefinedLabel kind.keyword label.name, span⟩
  | none => ⟨.outsideContext kind.keyword, span⟩

/-- A jump leads out of a statement or to where the statement goes on: the code of the statement is in
place around the jump, which stands below as many environments of the statement as it leaves, apart
from the one of the statement itself. -/
def Arrives (view : View) (position : Nat) (kind : ExitKind) (target : Stmt) (hops dest : Nat) : Prop :=
  ∃ outer frame here labels piece breakTo continueTo before after,
    Compile.stmt outer frame here labels target = .ok piece ∧
    Compile.Layout outer frame here labels target piece breakTo continueTo ∧
    (∀ index line, View.of here piece.lines index line → ∃ other, view index other ∧ line.Settles other) ∧
    dest = kind.pick breakTo continueTo ∧
    piece.lines = before ++ after ∧ after ≠ [] ∧ position = here + before.length ∧
    nesting before = target.ownsEnv.toNat + hops

namespace Aim

def nowhere (error : CompileError) : Aim where
  stops := (· = error)
  drops := False
  fits _ _ _ := False
  mono _ := id

def outward (dropped : Prop) (span : Span) (hops level : Nat) (kind : ExitKind) : Aim where
  stops _ := False
  drops := dropped
  fits _ _ line := line = ⟨.leave hops (.exit level kind), span⟩
  mono _ := id

def inward (dropped : Prop) (span : Span) (kind : ExitKind) (target : Stmt) (hops : Nat) : Aim where
  stops _ := False
  drops := dropped
  fits view position line := ∃ dest, line = ⟨.leave hops (.line dest), span⟩ ∧
    Arrives view position kind target hops dest
  mono more := fun ⟨dest, same, outer, frame, here, labels, piece, breakTo, continueTo, before, after,
      compiled, layout, inside, rest⟩ =>
    ⟨dest, same, outer, frame, here, labels, piece, breakTo, continueTo, before, after, compiled, layout,
      fun index line found =>
        let ⟨other, there, settles⟩ := inside index line found
        ⟨other, more _ _ there, settles⟩, rest⟩

/-- What is known of a branch, given the statements around it and the scope around them. -/
def ofPath (dropped : Prop) (kind : ExitKind) (label : Option Ident) (span : Span) (scope : Scope)
    (labels : List String) (path : Path) : Aim :=
  match path.target? kind (label.map (·.name)) labels with
  | some target =>
    inward dropped span kind (target.fill (.branch kind.branch label span)) target.hops
  | none =>
    match scope.exit? kind (label.map (·.name)) with
    | some (hops, level) => outward dropped span (path.depth + hops) level kind
    | none => nowhere (kind.unresolved label span)

/-- What is known of the branch stays so when the statement at a level closes its exits. -/
def Stable (aim : Aim) (level : Nat) : Prop :=
  ∀ breakTo continueTo view position line, (aim.closed level breakTo continueTo).fits view position line →
    aim.fits view position line

variable {aim : Aim} {dropped : Prop} {kind : ExitKind} {label : Option Ident} {span : Span}

theorem outward_stable {hops level level' : Nat} (other : level ≠ level') :
    (outward dropped span hops level kind).Stable level' := by
  rintro breakTo continueTo view position _ ⟨inner, _, -, rfl, rfl⟩
  simp [outward, Line.close, Dest.close, other]

theorem inward_stable {target : Stmt} {hops level : Nat} :
    (inward dropped span kind target hops).Stable level := by
  rintro breakTo continueTo view position _ ⟨inner, _, inside, ⟨dest, rfl, outer, frame, here, labels,
    piece, ends, goesOn, before, after, compiled, layout, there, rest⟩, rfl⟩
  refine ⟨dest, rfl, outer, frame, here, labels, piece, ends, goesOn, before, after, compiled, layout,
    fun index line found => ?_, rest⟩
  obtain ⟨other, placed, settles⟩ := there index line found
  exact ⟨_, inside _ _ placed, settles.close level breakTo continueTo⟩

theorem Turned.settle {level here : Nat} {depth : Int} {layout : Piece → Nat → Nat → Prop}
    {left right : Piece} (stable : aim.Stable level)
    (turned : aim.Turned span level here depth layout left right) :
    aim.Split span here depth left right := by
  refine ⟨⟨turned.defers, turned.lines.imp id ?_⟩, turned.frame⟩
  rintro ⟨breakTo, continueTo, -, before, line, after, same, other, nested, fits⟩
  exact ⟨before, line, after, same, other, nested, stable _ _ _ _ _ fits⟩

end Aim

theorem Scope.exit?_level {kind : ExitKind} {label : Option String} {scope : Scope} {hops level : Nat}
    (found : scope.exit? kind label = some (hops, level)) : level < scope.length := by
  induction scope generalizing hops with
  | nil => cases found
  | cons frame outer ih =>
    simp only [exit?] at found
    split at found
    · cases found
      exact Nat.lt_succ_self _
    · split at found
      · cases found
      · obtain ⟨⟨hops, level⟩, inner, same⟩ := Option.map_eq_some_iff.mp found
        cases same
        exact Nat.lt_succ_of_lt (ih inner)

namespace Path

variable {dropped : Prop} {kind : ExitKind} {label : Option Ident} {span : Span} {labels : List String}
  {scope around : Scope} {shell : Shell} {rest : Path}

/-- The statement that a shell makes is not the one that a branch deep inside belongs to. -/
def Passes (kind : ExitKind) (label : Option String) (labels : List String) (shell : Shell)
    (rest : Path) : Prop :=
  (shell.offers kind && label.all labels.contains) = true →
    (rest.target? kind label (shell.labels labels)).isSome = true

theorem ofPath_cons (passes : Passes kind (label.map (·.name)) labels shell rest)
    (exit : around.exit? kind (label.map (·.name)) = shell.exit? kind (label.map (·.name)) labels scope) :
    Aim.ofPath dropped kind label span around (shell.labels labels) rest =
      Aim.ofPath dropped kind label span scope labels (shell :: rest) := by
  unfold Aim.ofPath
  rw [target?]
  cases target : rest.target? kind (label.map (·.name)) (shell.labels labels) with
  | some found => rfl
  | none =>
    have offers : (shell.offers kind && (label.map (·.name)).all labels.contains) = false := by
      by_contra offers
      have found := passes (by simpa using offers)
      rw [target] at found
      cases found
    rw [exit, Shell.exit?, offers]
    cases scope.exit? kind (label.map (·.name)) with
    | none => rfl
    | some found =>
      have same : depth rest + (shell.depth + found.1) = depth (shell :: rest) + found.1 := by
        simp only [depth, List.map_cons, List.sum_cons]
        omega
      simp only [Bool.false_eq_true, if_false, Option.or_none, Option.map_some, same]

theorem ofPath_congr {path : Path}
    (exit : around.exit? kind (label.map (·.name)) = scope.exit? kind (label.map (·.name))) :
    Aim.ofPath dropped kind label span around labels path =
      Aim.ofPath dropped kind label span scope labels path := by
  unfold Aim.ofPath
  rw [exit]

theorem ofPath_stable {path : Path} :
    (Aim.ofPath dropped kind label span scope labels path).Stable scope.length := by
  unfold Aim.ofPath
  split
  · exact Aim.inward_stable
  · split
    · rename_i found
      exact Aim.outward_stable (Nat.ne_of_lt (Scope.exit?_level found))
    · rintro _ _ _ _ _ ⟨_, _, _, fits, _⟩
      exact fits

end Path

theorem Aim.Turned.arrive {dropped : Prop} {kind : ExitKind} {span : Span} {hops level here : Nat}
    {depth : Int} {outer : Scope} {frame : Frame} {labels : List String} {target : Stmt}
    {left right : Piece} (compiled : Compile.stmt outer frame here labels target = .ok left)
    (turned : (outward dropped span hops level kind).Turned span level here depth
      (Compile.Layout outer frame here labels target) left right)
    (deep : depth = target.ownsEnv.toNat + hops) :
    (inward dropped span kind target hops).Split span here depth left right := by
  refine ⟨⟨turned.defers, turned.lines.imp id ?_⟩, turned.frame⟩
  rintro ⟨breakTo, continueTo, layout, before, line, after, same, other, nested, inner, _, -, rfl, rfl⟩
  refine ⟨before, _, after, same, other, nested, kind.pick breakTo continueTo, ?_, outer, frame,
    here, labels, left, breakTo, continueTo, before, _,
    compiled, layout, fun index line found => ⟨line, found, .refl⟩, rfl, same, by simp, rfl,
    nested.trans deep⟩
  cases kind <;> simp [Line.close, Dest.close, ExitKind.pick]

theorem Shell.fill_ownsEnv {shell : Shell} {node : Stmt} (offers : shell.offers .break = true) :
    (shell.fill node).ownsEnv = shell.owned := by
  cases shell with
  | selectClause first comm row clause last span =>
    simp only [fill, Stmt.ownsEnv, owned, List.any_append, List.any_cons]
    rfl
  | forBody | forPost | rangeBody | switchClause | typeSwitchClause => rfl
  | labeled | block | ifInit | ifThen | ifElse | forInit | switchInit | typeSwitchInit => cases offers

theorem Compile.stmt_idle (outer : Scope) (frame : Frame) (here : Nat) (labels : List String)
    (span : Span) :
    stmt outer frame here labels (.idle span) = .ok ({ lines := [Aim.idle span], frame } : Piece) := by
  simp only [Stmt.idle, stmt, expr, function, stmts, operands]
  rfl

theorem Compile.stmt_branch (outer : Scope) (frame : Frame) (here : Nat) (labels : List String)
    (kind : ExitKind) (label : Option Ident) (span : Span) :
    stmt outer frame here labels (.branch kind.branch label span) =
      match Scope.exit? kind (label.map (·.name)) (frame :: outer) with
      | some (hops, level) =>
        .ok ({ lines := [⟨.leave hops (.exit level kind), span⟩], frame } : Piece)
      | none => .error (kind.unresolved label span) := by
  have exits : branchStmt (frame :: outer) kind.branch label span =
      exitStmt (frame :: outer) kind label span := by
    cases kind <;> rfl
  simp only [stmt, exits, exitStmt]
  cases Scope.exit? kind (label.map (·.name)) (frame :: outer) with
  | none => cases kind <;> cases label <;> rfl
  | some found => rfl

namespace Path

variable {dropped : Prop} {kind : ExitKind} {label : Option Ident} {span : Span}

theorem fill_twins (path : Path) :
    (path.fill (.branch kind.branch label span)).Twins (path.fill (.idle span)) := by
  cases path with
  | nil => cases kind <;> exact ⟨rfl, rfl, rfl, rfl, rfl, rfl, rfl, rfl⟩
  | cons shell rest => exact shell.fill_twins

theorem ofPath_drops {scope : Scope} {labels : List String} {path : Path} (drops : dropped)
    (possible : (Aim.ofPath dropped kind label span scope labels path).Possible) :
    (Aim.ofPath dropped kind label span scope labels path).drops := by
  unfold Aim.ofPath at possible ⊢
  split
  · exact drops
  · rename_i none
    rw [none] at possible
    dsimp only at possible
    split
    · exact drops
    · rename_i nowhere
      rw [nowhere] at possible
      obtain ⟨⟨⟩⟩ | ⟨_, _, _, ⟨⟩⟩ := possible

/-- What is inside the path is compiled and dropped: the condition of a statement of the path, in the
scope that it is compiled in, is constant and excludes it. -/
inductive Drops : Scope → Frame → List String → Path → Prop
  | here {outer frame labels shell rest} :
    Shell.Excludes outer frame labels shell → Drops outer frame labels (shell :: rest)
  | inside {outer frame labels shell rest around inner} :
    Compile.Content outer frame labels shell around inner →
    Drops around inner (shell.labels labels) rest → Drops outer frame labels (shell :: rest)

theorem compared (path : Path) (outer : Scope) (frame : Frame) (here : Nat) (labels : List String)
    (drops : path.Drops outer frame labels → dropped) :
    Compared (Aim.ofPath dropped kind label span (frame :: outer) labels path).stops
      ((Aim.ofPath dropped kind label span (frame :: outer) labels path).Split span here path.depth)
      (Compile.stmt outer frame here labels (path.fill (.branch kind.branch label span)))
      (Compile.stmt outer frame here labels (path.fill (.idle span))) := by
  induction path generalizing outer frame here labels with
  | nil =>
    simp only [fill, List.foldr_nil, Compile.stmt_idle, Compile.stmt_branch, Aim.ofPath, target?]
    cases Scope.exit? kind (label.map (·.name)) (frame :: outer) with
    | none => exact .stop _ rfl
    | some found =>
      refine .ok ⟨⟨rfl, .inr ⟨[], _, [], rfl, rfl, rfl, ?_⟩⟩, rfl⟩
      simp [Aim.outward, depth]
  | cons shell rest ih =>
    have later (around inner here) (content : Compile.Content outer frame labels shell around inner) :=
      ih around inner here (shell.labels labels) fun below => drops (.inside content below)
    have sum : ((depth (shell :: rest) : Nat) : Int) = shell.depth + (depth rest : Int) := by
      simp [depth]
    rw [sum]
    by_cases passes : Passes kind (label.map (·.name)) labels shell rest
    · have inside : Compile.Inside
          (Aim.ofPath dropped kind label span (frame :: outer) labels (shell :: rest)) span (depth rest)
          kind (label.map (·.name)) labels outer frame shell
          (fill (.branch kind.branch label span) rest) (fill (.idle span) rest) := by
        intro around inner here content exit
        rw [← ofPath_cons passes exit]
        exact later around inner here content
      cases offers : shell.offers .break with
      | false =>
        exact Compile.shell_outside shell offers (fill_twins rest)
          (fun excluded => ofPath_drops (drops (.here excluded))) inside
      | true =>
        exact (Compile.shell_closes shell offers (fill_twins rest)
          (fun excluded => ofPath_drops (drops (.here excluded))) inside).imp
            fun first second _ turned => turned.settle ofPath_stable
    · obtain ⟨offering, missing⟩ := Classical.not_imp.mp passes
      have none : target? kind (label.map (·.name)) (shell.labels labels) rest = none := by
        simpa using missing
      have aim : Aim.ofPath dropped kind label span (frame :: outer) labels (shell :: rest) =
          .inward dropped span kind (shell.fill (fill (.branch kind.branch label span) rest))
            (hops (shell :: rest)) := by
        simp only [Aim.ofPath, target?, none, offering, if_true, Option.none_or]
        rfl
      have inside : Compile.Inside (.outward dropped span (hops (shell :: rest)) (outer.length + 1) kind)
          span (depth rest) kind (label.map (·.name)) labels outer frame shell
          (fill (.branch kind.branch label span) rest) (fill (.idle span) rest) := by
        intro around inner here content exit
        have same : Aim.ofPath dropped kind label span (inner :: around) (shell.labels labels) rest =
            .outward dropped span (hops (shell :: rest)) (outer.length + 1) kind := by
          simp only [Aim.ofPath, none, exit, Shell.exit?, offering, if_true, hops, List.length_cons,
            Nat.add_comm (depth rest)]
        rw [← same]
        exact later around inner here content
      have offers : shell.offers .break = true := by
        rw [Bool.and_eq_true] at offering
        have some := offering.1
        cases shell <;> first | rfl | cases some
      have closed : Compile.Closes _ span here (depth rest) labels outer frame shell _ _ :=
        Compile.shell_closes shell offers (fill_twins rest)
          (fun excluded _ => drops (.here excluded)) inside
      have deep : (shell.depth : Int) + depth rest =
          (shell.fill (fill (.branch kind.branch label span) rest)).ownsEnv.toNat +
            hops (shell :: rest) := by
        simp only [Shell.fill_ownsEnv offers, hops, Shell.depth]
        omega
      rw [aim]
      exact closed.imp fun first second compiled turned => turned.arrive compiled deep

def chain (labels : List String) (path : Path) : List String :=
  path.foldl (fun labels shell => shell.labels labels) labels

/-- Some statement of the path has an exit of a kind, and carries a label if one is asked for. -/
def Encloses (kind : ExitKind) (label : Option String) (labels : List String) (path : Path) : Prop :=
  ∃ before shell rest, path = before ++ shell :: rest ∧ shell.offers kind = true ∧
    label.all (chain labels before).contains = true

theorem encloses_cons {kind : ExitKind} {label : Option String} {labels : List String} {shell : Shell}
    {rest : Path} : Encloses kind label labels (shell :: rest) ↔
      (shell.offers kind && label.all labels.contains) = true ∨
        Encloses kind label (shell.labels labels) rest := by
  constructor
  · rintro ⟨_ | ⟨first, before⟩, found, last, same, offers, carries⟩
    · cases same
      exact .inl (Bool.and_eq_true_iff.mpr ⟨offers, carries⟩)
    · cases same
      exact .inr ⟨before, found, last, rfl, offers, carries⟩
  · rintro (here | ⟨before, found, last, rfl, offers, carries⟩)
    · obtain ⟨offers, carries⟩ := Bool.and_eq_true_iff.mp here
      exact ⟨[], shell, rest, rfl, offers, carries⟩
    · exact ⟨shell :: before, found, last, rfl, offers, carries⟩

theorem target?_isSome {kind : ExitKind} {label : Option String} {labels : List String} {path : Path} :
    (path.target? kind label labels).isSome = true ↔ Encloses kind label labels path := by
  induction path generalizing labels with
  | nil => simp [target?, Encloses]
  | cons shell rest ih =>
    rw [target?, encloses_cons, ← ih, Option.isSome_or, Bool.or_eq_true, or_comm]
    split <;> simp_all

theorem target?_innermost {kind : ExitKind} {label : Option String} {labels : List String}
    {before rest : Path} {shell : Shell} (offers : shell.offers kind = true)
    (carries : label.all (chain labels before).contains = true)
    (innermost : ¬ Encloses kind label (shell.labels (chain labels before)) rest) :
    target? kind label labels (before ++ shell :: rest) = some (shell :: rest) := by
  induction before generalizing labels with
  | nil =>
    rw [← target?_isSome, Option.not_isSome_iff_eq_none] at innermost
    simp only [List.nil_append, target?]
    rw [show shell.labels labels = shell.labels (chain labels []) from rfl, innermost]
    simp only [chain, List.foldl_nil] at carries
    simp [offers, carries]
  | cons first before ih =>
    rw [List.cons_append, target?, ih carries innermost]
    rfl

end Path

/-- Two functions of which the first has a jump where the second has a call that does nothing. The jump
leaves the environments that the target statement has entered, up to the jump, to where the statement
ends or goes on. A branch in a part of the function that is compiled and dropped has no code. -/
structure Resolved (dropped : Prop) (kind : ExitKind) (span : Span) (target : Stmt) (hops : Nat)
    (left right : Template) : Prop where
  head : left.signature = right.signature ∧ left.params = right.params ∧ left.results = right.results ∧
    left.objects = right.objects ∧ left.words = right.words
  defers : left.program.defers = right.program.defers
  jumps : (dropped ∧ left.program.lines = right.program.lines) ∨
    ∃ before after dest,
      left.program.lines.toList = before ++ ⟨.leave hops (.line dest), span⟩ :: after ∧
      right.program.lines.toList = before ++ Aim.idle span :: after ∧
      Arrives (.of 0 left.program.lines.toList) before.length kind target hops dest

namespace Compile

variable {scope : Scope} {head : FuncHead} {span body at' : Span} {row : Row} {kind : ExitKind}
  {label : Option Ident}

/-- A part of a function is compiled and dropped: the one inside a path, past some statements. -/
def Drops (scope : Scope) (head : FuncHead) (span : Span) (before : List Stmt) (path : Path) : Prop :=
  ∃ signature params results frame inner, scope.resolveHead span head = .ok signature ∧
    functionFrame head signature = .ok (params, results, frame) ∧ Past scope before frame inner ∧
    path.Drops scope inner []

theorem function_compared (path : Path) :
    Compared (Aim.ofPath (Drops scope head span row.before path) kind label at' [] [] path).stops
      (fun left right => ∃ signature params results piece other,
        (Aim.ofPath (Drops scope head span row.before path) kind label at' [] [] path).Split
          at' 0 path.depth piece other ∧
        left = template signature params results piece ∧ right = template signature params results other)
      (function scope head span (.mk (row.fill (path.fill (.branch kind.branch label at'))) body))
      (function scope head span (.mk (row.fill (path.fill (.idle at'))) body)) := by
  simp only [function]
  refine .shared fun signature isHead => .shared fun framed isFramed => ?_
  obtain ⟨params, results, frame⟩ := framed
  refine (stmts_split path.fill_twins fun inner here past => ?_).bind fun piece other split =>
    .ok ⟨signature, params, results, piece, other, split, rfl, rfl⟩
  have none : Scope.exit? kind (label.map (·.name)) (inner :: scope) = none := by
    obtain ⟨loop, func⟩ := functionFrame_loop isFramed
    simp [Scope.exit?, past.like.loop, past.like.func, loop, func]
  rw [← @Path.ofPath_congr _ kind label at' [] [] (inner :: scope) path none]
  exact path.compared _ _ _ _ fun dropped =>
    ⟨signature, params, results, frame, inner, isHead, isFramed, past, dropped⟩

theorem function_unresolved {path : Path} (missing : ¬ path.Encloses kind (label.map (·.name)) []) :
    function scope head span (.mk (row.fill (path.fill (.branch kind.branch label at'))) body) =
        .error (kind.unresolved label at') ∨
      ∃ error,
        function scope head span (.mk (row.fill (path.fill (.branch kind.branch label at'))) body) =
          .error error ∧
        function scope head span (.mk (row.fill (path.fill (.idle at'))) body) = .error error := by
  rw [← Path.target?_isSome, Option.not_isSome_iff_eq_none] at missing
  have compared := @function_compared scope head span body at' row kind label path
  simp only [Aim.ofPath, missing, Scope.exit?] at compared
  generalize function scope head span (.mk (row.fill (path.fill (.branch kind.branch label at'))) body) =
    jump at compared ⊢
  generalize function scope head span (.mk (row.fill (path.fill (.idle at'))) body) = idle at compared ⊢
  cases compared with
  | same error => exact .inr ⟨error, rfl, rfl⟩
  | stop right stopped => exact .inl (congrArg _ stopped)
  | ok related =>
    obtain ⟨_, _, _, _, _, split, -⟩ := related
    obtain ⟨⟨⟩⟩ | ⟨_, _, _, ⟨⟩⟩ := split.lines.possible

theorem function_resolved {path target : Path}
    (found : path.target? kind (label.map (·.name)) [] = some target) :
    (∃ error,
        function scope head span (.mk (row.fill (path.fill (.branch kind.branch label at'))) body) =
          .error error ∧
        function scope head span (.mk (row.fill (path.fill (.idle at'))) body) = .error error) ∨
      ∃ left right,
        function scope head span (.mk (row.fill (path.fill (.branch kind.branch label at'))) body) =
          .ok left ∧
        function scope head span (.mk (row.fill (path.fill (.idle at'))) body) = .ok right ∧
        Resolved (Drops scope head span row.before path) kind at'
          (target.fill (.branch kind.branch label at')) target.hops left right := by
  have compared := @function_compared scope head span body at' row kind label path
  simp only [Aim.ofPath, found] at compared
  generalize function scope head span (.mk (row.fill (path.fill (.branch kind.branch label at'))) body) =
    jump at compared ⊢
  generalize function scope head span (.mk (row.fill (path.fill (.idle at'))) body) = idle at compared ⊢
  cases compared with
  | same error => exact .inl ⟨error, rfl, rfl⟩
  | stop right stopped => cases stopped
  | ok related =>
    obtain ⟨signature, params, results, piece, other, split, rfl, rfl⟩ := related
    refine .inr ⟨_, _, rfl, rfl, ⟨rfl, rfl, rfl, ?_, ?_⟩, split.defers, ?_⟩
    · exact congrArg Frame.objects split.frame
    · exact congrArg Frame.words split.frame
    obtain ⟨dropped, same⟩ | ⟨before, line, after, same, too, nested, dest, rfl, arrives⟩ := split.lines
    · exact .inl ⟨dropped, congrArg List.toArray same⟩
    · refine .inr ⟨before, after, dest, same, too, ?_⟩
      rw [Nat.zero_add] at arrives
      exact arrives

/-- A `break` or `continue` compiles if and only if a statement around it inside the function has such
an exit, and the label that is asked for; it belongs to the innermost such statement. Otherwise the
compiler stops with the fault of the branch, unless it has stopped before. -/
theorem branch_resolves_lexically (path : Path) :
    let jump := function scope head span (.mk (row.fill (path.fill (.branch kind.branch label at'))) body)
    let idle := function scope head span (.mk (row.fill (path.fill (.idle at'))) body)
    ((∃ right, idle = .ok right) →
      ((∃ left, jump = .ok left) ↔ path.Encloses kind (label.map (·.name)) [])) ∧
    (¬ path.Encloses kind (label.map (·.name)) [] →
      jump = .error (kind.unresolved label at') ∨ ∃ error, jump = .error error ∧ idle = .error error) ∧
    (∀ before shell rest, path = before ++ shell :: rest → shell.offers kind = true →
      (label.map (·.name)).all (Path.chain [] before).contains = true →
      ¬ Path.Encloses kind (label.map (·.name)) (shell.labels (Path.chain [] before)) rest →
      (∃ error, jump = .error error ∧ idle = .error error) ∨
      ∃ left right, jump = .ok left ∧ idle = .ok right ∧
        Resolved (Drops scope head span row.before path) kind at'
          (Path.fill (.branch kind.branch label at') (shell :: rest)) (Path.hops (shell :: rest))
          left right) := by
  refine ⟨?_, function_unresolved, ?_⟩
  · rintro ⟨right, isRight⟩
    constructor
    · rintro ⟨left, isLeft⟩
      by_contra missing
      obtain failed | ⟨error, failed, -⟩ := @function_unresolved scope head span body at' row kind label
        path missing
      · rw [isLeft] at failed
        cases failed
      · rw [isLeft] at failed
        cases failed
    · intro encloses
      obtain ⟨target, found⟩ := Option.isSome_iff_exists.mp (Path.target?_isSome.mpr encloses)
      obtain ⟨error, -, failed⟩ | ⟨left, _, compiled, -⟩ := @function_resolved scope head span body
          at' row
        kind label path target found
      · rw [isRight] at failed
        cases failed
      · exact ⟨left, compiled⟩
  · rintro before shell rest rfl offers carries innermost
    exact function_resolved (Path.target?_innermost offers carries innermost)

def labeledLoop : Path :=
  [.labeled ⟨"l", {}⟩ {},
    .forBody none none none
      ⟨[.assign [.ident ⟨"x", {}⟩] .define [.int 0 {}] {}], []⟩ {} {},
    .switchClause none none [] (some []) ⟨[], []⟩ {} [] {}]

def labeledFunction (node : Stmt) : Compiled Template :=
  function [] {} {} (.mk (Row.fill ⟨[], []⟩ (labeledLoop.fill node)) {})

/-- A `continue` in a switch leads to the loop around it, and leaves the environment of its body; it
does not find a label that is not there. -/
theorem continue_resolves_past_switch :
    (∃ left right, labeledFunction (.branch .continue (some ⟨"l", {}⟩) {}) = .ok left ∧
      labeledFunction (.idle {}) = .ok right ∧
      Resolved (Drops [] {} {} [] labeledLoop) .continue {}
        (Path.fill (.branch .continue (some ⟨"l", {}⟩) {}) labeledLoop.tail) 1 left right) ∧
    labeledFunction (.branch .continue (some ⟨"m", {}⟩) {}) =
      .error (ExitKind.continue.unresolved (some ⟨"m", {}⟩) {}) := by
  obtain ⟨right, compiles⟩ : ∃ right, labeledFunction (.idle {}) = .ok right := ⟨_, rfl⟩
  have resolves (label : Ident) := @branch_resolves_lexically [] {} {} {} {} ⟨[], []⟩ .continue
    (some label) labeledLoop
  constructor
  · obtain ⟨error, -, failed⟩ | ⟨left, other, found⟩ := (resolves ⟨"l", {}⟩).2.2
      [.labeled ⟨"l", {}⟩ {}] _ _ rfl rfl (by decide) (by rw [← Path.target?_isSome]; decide)
    · cases compiles.symm.trans failed
    · exact ⟨left, other, found⟩
  · obtain failed | ⟨error, -, failed⟩ := (resolves ⟨"m", {}⟩).2.1
      (by rw [← Path.target?_isSome]; decide)
    · exact failed
    · cases compiles.symm.trans failed

end Compile

end MiniGo
