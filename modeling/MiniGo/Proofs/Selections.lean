import Mathlib.Data.List.Basic
import MiniGo.Proofs.Rendezvous
/-!
Selects under interleaving. A round of a select is a series of sections: it takes its offers back one
after the other, looks at its claim, tries its cases one after the other, and holds its offers out
again one after the other. Whatever sections others perform in between, exactly one communication has
been performed on behalf of a select that ends with a case, namely that case.
-/

namespace MiniGo

inductive SelectPhase
  /-- Begin a round. -/
  | rests
  /-- Take its offers on these channels back. -/
  | withdraws (left : List ChanRef)
  /-- Look whether somebody has taken one of them. -/
  | checks
  /-- Try these cases. -/
  | polls (left : List (Nat × SelectCase))
  /-- Hold these offers out, then sleep. -/
  | holds (left : List (ChanRef × Offer))
  | chosen (selected : Selected)
  | failed (error : RuntimeError)

def SelectCase.act? : SelectCase → Option Section
  | .send channel value => some (.trySend channel value)
  | .recv _ channel => some (.tryRecv channel)
  | .never => none

def SelectCase.received? : SelectCase → Report → Option (Value × Bool)
  | .recv elem _, report => report.receives.map (received elem)
  | _, _ => none

/-- The report tells that a value has passed, or that a receiver has come to the end. -/
def Report.isDeal : Report → Bool
  | .accepted .. | .taken .. | .handed .. | .ended _ => true
  | _ => false

/-- A select among other parties: the channels they share, how far it has come, and the
communications performed on its behalf so far, each with the number of its case. -/
structure Selection where
  exchange : Exchange
  select : Selecting
  phase : SelectPhase := .rests
  deals : List (Nat × Report) := []

namespace Selection

def tried (now : Selection) (index : Nat) (case : SelectCase) (left : List (Nat × SelectCase))
    (report : Report) (exchange : Exchange) : Selection :=
  { now with
    exchange
    phase := match report with
      | .refused error => .failed error
      | .notReady => .polls left
      | report => .chosen (.case index (case.received? report))
    deals := if report.isDeal then now.deals ++ [(index, report)] else now.deals }

def own (now : Selection) : Selection :=
  match now.phase with
  | .rests =>
    if now.select.offered then
      { now with phase := .withdraws ((now.select.offers now.exchange).map (·.1)) }
    else { now with phase := .polls now.select.rotated }
  | .withdraws [] => { now with phase := .checks }
  | .withdraws (ref :: left) =>
    { now with
      exchange := (now.exchange.perform (.withdraw ref now.select.claim)).2, phase := .withdraws left }
  | .checks =>
    match now.exchange.claimed? now.select.claim with
    | some index => { now with phase := .chosen (.case index none) }
    | none => { now with phase := .polls now.select.rotated }
  | .polls [] =>
    if now.select.hasDefault then { now with phase := .chosen .default }
    else { now with phase := .holds (now.select.offers now.exchange) }
  | .polls ((index, case) :: left) =>
    match case.act? with
    | none => { now with phase := .polls left }
    | some act =>
      now.tried index case left (now.exchange.perform act).1 (now.exchange.perform act).2
  | .holds [] =>
    let offered := !(now.select.offers now.exchange).isEmpty
    { now with
      phase := .rests
      select := { now.select with
        offered, announced := now.select.announced || offered, round := now.select.round + 1 } }
  | .holds ((ref, offer) :: left) =>
    { now with
      exchange := (now.exchange.perform (.offer ref offer (!now.select.announced))).2
      phase := .holds left }
  | .chosen _ | .failed _ => now

/-- A section of another party. Taking an offer of the select performs a communication for it. -/
def other (now : Selection) (act : Section) : Selection :=
  { now with
    exchange := (now.exchange.perform act).2
    deals := match (now.exchange.perform act).1 with
      | .handed ref offer =>
        if offer.claim = now.select.claim then now.deals ++ [(offer.case, .handed ref offer)]
        else now.deals
      | _ => now.deals }

def Foreign (claim : ClaimRef) (report : Report) : Prop :=
  ∀ ref offer, report = .held ref offer → offer.claim ≠ claim

inductive Run (start : Selection) : Selection → Prop
  | refl : Run start start
  | own {now : Selection} : Run start now → Run start now.own
  | other {now : Selection} (act : Section) : Run start now → now.exchange.Allows act →
    Foreign now.select.claim (now.exchange.perform act).1 → Run start (now.other act)

def begins (exchange : Exchange) (cases : List SelectCase) (hasDefault : Bool) : Selection :=
  { exchange := exchange.newClaim.2, select := { cases, hasDefault, claim := exchange.newClaim.1 } }

def held (now : Selection) : List ChanRef := (now.select.offers now.exchange).map (·.1)

def MayHold (now : Selection) (ref : ChanRef) : Prop :=
  match now.phase with
  | .rests => now.select.offered = true ∧ ref ∈ now.held
  | .withdraws left => ref ∈ left ∧ ref ∈ now.held
  | .holds _ => ref ∈ now.held
  | .checks | .polls _ | .chosen _ | .failed _ => False

end Selection

def SelectCase.Valid (exchange : Exchange) : SelectCase → Prop
  | .send ref _ | .recv _ ref => exchange.Has ref
  | .never => True

/-- The communication of a case, as it has been reported and as the select sees it. A send has gone
into the buffer, or a receiver has taken the offer; a receive has not got what the select holds out
itself. -/
def SelectCase.Performed (claim : ClaimRef) (index : Nat) (report : Report)
    (found : Option (Value × Bool)) : SelectCase → Prop
  | .send ref value => found = none ∧
    ((∃ ticket, report = .accepted ref value ticket) ∨ report = .handed ref ⟨index, value, claim⟩)
  | .recv elem ref => found = report.receives.map (received elem) ∧
    ((∃ value number, report = .taken ref value number) ∨
      (∃ offer, report = .handed ref offer ∧ offer.claim ≠ claim) ∨ report = .ended ref)
  | .never => False

namespace Selection

def Completed (now : Selection) (index : Nat) (found : Option (Value × Bool)) : Prop :=
  ∃ case report, now.select.cases[index]? = some case ∧ now.deals = [(index, report)] ∧
    case.Performed now.select.claim index report found

/-- Nothing has been performed for the select, or a receiver has taken one of its offers. -/
def Open (now : Selection) : Prop :=
  (now.exchange.claimed? now.select.claim = none ∧ now.deals = []) ∨
    ∃ index, now.exchange.claimed? now.select.claim = some index ∧ now.held ≠ [] ∧
      now.Completed index none

def Dealt (now : Selection) : Prop :=
  match now.phase with
  | .rests => now.Open ∧
    (now.select.offered = false → now.exchange.claimed? now.select.claim = none)
  | .withdraws _ | .checks | .holds _ => now.Open
  | .polls left => (now.exchange.claimed? now.select.claim = none ∧ now.deals = []) ∧
    ∀ entry ∈ left, now.select.cases[entry.1]? = some entry.2
  | .chosen (.case index found) => now.Completed index found
  | .chosen .default | .failed _ => now.deals = []

def Planned (now : Selection) : Prop :=
  match now.phase with
  | .withdraws left => left ⊆ now.held
  | .holds left => left ⊆ now.select.offers now.exchange
  | _ => True

/-- The select has offers only where it should, for its own sends, and the communications performed
for it are those it knows of. -/
structure Sound (now : Selection) : Prop where
  valid : ∀ case ∈ now.select.cases, case.Valid now.exchange
  bounds : ∀ ref, ∀ offer ∈ (now.exchange.channel ref).offers,
    offer.claim.index < now.exchange.claims.size
  inside : now.select.claim.index < now.exchange.claims.size
  offers : ∀ ref, ∀ offer ∈ (now.exchange.channel ref).offers, offer.claim = now.select.claim →
    now.select.cases[offer.case]? = some (.send ref offer.value) ∧ now.MayHold ref
  planned : now.Planned
  dealt : now.Dealt

end Selection

section Cases

variable {exchange later : Exchange} {act : Section} {report : Report}

theorem SelectCase.Valid.step {case : SelectCase} (valid : case.Valid exchange)
    (performs : exchange.Performs act report later) : case.Valid later := by
  cases case with
  | send | recv => exact performs.has valid
  | never => trivial

theorem SelectCase.Valid.allows {case : SelectCase} (valid : case.Valid exchange)
    (acts : case.act? = some act) : exchange.Allows act := by
  cases case with
  | send | recv =>
    cases acts
    exact valid
  | never => cases acts

theorem SelectCase.tried {case : SelectCase} (acts : case.act? = some act) {claim : ClaimRef}
    (others : (exchange.perform act).1.isHanded claim = false) (index : Nat) :
    (∃ error, (exchange.perform act).1 = .refused error) ∨ (exchange.perform act).1 = .notReady ∨
      (exchange.perform act).1.isDeal = true ∧ case.Performed claim index (exchange.perform act).1
        (case.received? (exchange.perform act).1) := by
  cases case with
  | send ref value =>
    cases acts
    rw [Exchange.perform_trySend]
    split
    · exact .inl ⟨_, rfl⟩
    · split
      · exact .inr (.inr ⟨rfl, rfl, .inl ⟨_, rfl⟩⟩)
      · exact .inr (.inl rfl)
  | recv elem ref =>
    cases acts
    have receives := Exchange.tryRecv_receives exchange ref
    simp only [Exchange.perform] at others ⊢
    generalize exchange.receipt ref = report, (exchange.tryRecv ref).1 = answer,
      (exchange.tryRecv ref).2 = later at receives others
    cases receives with
    | takes => exact .inr (.inr ⟨rfl, rfl, .inl ⟨_, _, rfl⟩⟩)
    | ends => exact .inr (.inr ⟨rfl, rfl, .inr (.inr rfl)⟩)
    | claims =>
      refine .inr (.inr ⟨rfl, rfl, .inr (.inl ⟨_, rfl, ?_⟩)⟩)
      simpa [Report.isHanded] using others
    | waits => exact .inr (.inl rfl)
  | never => cases acts

namespace Selecting

variable {select : Selecting} {entry : Nat × SelectCase} {ref : ChanRef} {offer : Offer}

theorem mem_indexed : entry ∈ select.indexed ↔ select.cases[entry.1]? = some entry.2 := by
  obtain ⟨index, case⟩ := entry
  simp only [indexed, List.mem_map, Prod.exists, List.mem_zipIdx_iff_getElem?, Prod.mk.injEq]
  constructor
  · rintro ⟨_, _, there, rfl, rfl⟩
    exact there
  · intro there
    exact ⟨_, _, there, rfl, rfl⟩

theorem mem_of_mem_rotated (member : entry ∈ select.rotated) :
    select.cases[entry.1]? = some entry.2 := by
  refine mem_indexed.mp ?_
  rcases List.mem_append.mp member with dropped | taken
  · exact List.mem_of_mem_drop dropped
  · exact List.mem_of_mem_take taken

theorem mem_offers : (ref, offer) ∈ select.offers exchange ↔
    select.cases[offer.case]? = some (.send ref offer.value) ∧ offer.claim = select.claim ∧
      (exchange.channel ref).capacity = 0 := by
  simp only [offers, List.mem_filterMap, mem_indexed, Prod.exists]
  constructor
  · rintro ⟨index, case, there, found⟩
    cases case with
    | send channel value =>
      dsimp only at found
      split at found
      · next unbuffered =>
        cases found
        exact ⟨there, rfl, unbuffered⟩
      · cases found
    | recv | never => cases found
  · rintro ⟨there, own, unbuffered⟩
    refine ⟨_, _, there, ?_⟩
    simp [unbuffered, ← own]

theorem offers_congr (same : ∀ ref value, .send ref value ∈ select.cases →
    (later.channel ref).capacity = (exchange.channel ref).capacity) :
    select.offers later = select.offers exchange := by
  refine List.filterMap_congr fun entry member => ?_
  obtain ⟨index, case⟩ := entry
  have there := List.mem_of_getElem? (mem_indexed.mp member)
  cases case with
  | send ref value => simp only [same ref value there]
  | recv | never => rfl

theorem offers_step (valid : ∀ case ∈ select.cases, case.Valid exchange)
    (performs : exchange.Performs act report later) :
    select.offers later = select.offers exchange :=
  offers_congr fun _ _ member => performs.capacity (valid _ member)

end Selecting

end Cases

namespace Selection

variable {now : Selection} {act : Section}

def NoOffers (now : Selection) : Prop :=
  ∀ ref, ∀ offer ∈ (now.exchange.channel ref).offers, offer.claim ≠ now.select.claim

theorem Sound.noOffers (sound : now.Sound) (none : ∀ ref, ¬now.MayHold ref) : now.NoOffers :=
  fun ref offer member own => none ref (sound.offers ref offer member own).2

/-- The select is sound after a section, if that is so for what the section can change: the offers of
the select, and what has been performed for it. -/
theorem Sound.after {later : Selection} {report : Report} (sound : now.Sound)
    (performs : now.exchange.Performs act report later.exchange)
    (same : later.select.cases = now.select.cases ∧ later.select.claim = now.select.claim)
    (offers : ∀ ref, ∀ offer ∈ (later.exchange.channel ref).offers,
      offer.claim = later.select.claim →
      later.select.cases[offer.case]? = some (.send ref offer.value) ∧ later.MayHold ref)
    (planned : later.Planned) (dealt : later.Dealt) : later.Sound where
  valid case member := (sound.valid case (same.1 ▸ member)).step performs
  bounds ref offer member := by
    refine Nat.lt_of_lt_of_le ?_ performs.changes.size_le
    rcases performs.offers member with older | rfl
    · exact sound.bounds ref offer older
    · exact performs.held.1
  inside := same.2 ▸ Nat.lt_of_lt_of_le sound.inside performs.changes.size_le
  offers := offers
  planned := planned
  dealt := dealt

section Dealt

variable {later : Selection} {ref : ChanRef}

theorem Dealt.congr (dealt : now.Dealt) (phase : later.phase = now.phase)
    (select : later.select = now.select) (deals : later.deals = now.deals)
    (held : later.held = now.held)
    (claimed : later.exchange.claimed? now.select.claim = now.exchange.claimed? now.select.claim) :
    later.Dealt := by
  unfold Dealt Open Completed at dealt ⊢
  rw [phase, select, deals, held, claimed]
  exact dealt

theorem Dealt.isOpen (dealt : now.Dealt) (mayHold : now.MayHold ref) : now.Open := by
  unfold Dealt at dealt
  unfold MayHold at mayHold
  cases phase : now.phase <;> simp only [phase] at dealt mayHold
  case rests => exact dealt.1
  all_goals exact dealt

theorem Dealt.of_isOpen (isOpen : now.Open) (mayHold : now.MayHold ref) : now.Dealt := by
  unfold Dealt
  unfold MayHold at mayHold
  cases phase : now.phase <;> simp only [phase] at mayHold ⊢
  case rests => exact ⟨isOpen, fun none => by simp [none] at mayHold⟩
  all_goals exact isOpen

theorem MayHold.held (mayHold : now.MayHold ref) : ref ∈ now.held := by
  unfold MayHold at mayHold
  cases phase : now.phase <;> simp only [phase] at mayHold
  case rests | withdraws => exact mayHold.2
  case holds => exact mayHold

theorem Open.deals_nil (isOpen : now.Open)
    (unclaimed : now.exchange.claimed? now.select.claim = none) : now.deals = [] := by
  rcases isOpen with ⟨-, none⟩ | ⟨index, claimed, -⟩
  · exact none
  · simp [unclaimed] at claimed

end Dealt

theorem Sound.other (sound : now.Sound) (allowed : now.exchange.Allows act)
    (foreign : Foreign now.select.claim (now.exchange.perform act).1) : (now.other act).Sound := by
  have performs := Exchange.performs allowed
  have offers := Selecting.offers_step sound.valid performs
  have held : (now.other act).held = now.held := congrArg (List.map Prod.fst) offers
  have mayHold (ref : ChanRef) (may : now.MayHold ref) : (now.other act).MayHold ref := by
    unfold MayHold at may ⊢
    rw [held]
    exact may
  refine sound.after performs ⟨rfl, rfl⟩ (fun ref offer member own => ?_) ?_ ?_
  · rcases performs.offers member with older | made
    · obtain ⟨there, may⟩ := sound.offers ref offer older own
      exact ⟨there, mayHold ref may⟩
    · exact absurd own (foreign ref offer made)
  · have planned := sound.planned
    unfold Planned at planned ⊢
    rw [held]
    exact offers.symm ▸ planned
  · rcases performs.changes.claimed sound.bounds now.select.claim with ⟨unhanded, same⟩ |
      ⟨ref, offer, handed, member, own, unclaimed, claimed⟩
    · refine sound.dealt.congr rfl rfl ?_ held same
      unfold Selection.other
      generalize (now.exchange.perform act).1 = report at unhanded
      cases report <;> simp_all [Report.isHanded]
    · -- the receiver has completed the case whose value it has taken
      obtain ⟨there, may⟩ := sound.offers ref offer member own
      have none := (sound.dealt.isOpen may).deals_nil unclaimed
      refine Dealt.of_isOpen (.inr ⟨offer.case, claimed, ?_, _, .handed ref offer, there, ?_, rfl, ?_⟩)
        (mayHold ref may)
      · exact List.ne_nil_of_mem (mayHold ref may).held
      · simp [Selection.other, handed, own, none]
      · have same : (now.other act).select.claim = offer.claim := own.symm
        rw [same]
        exact .inr rfl

theorem Sound.turn (sound : now.Sound) {later : Selection} (exchange : later.exchange = now.exchange)
    (same : later.select.cases = now.select.cases ∧ later.select.claim = now.select.claim)
    (mayHold : ∀ ref, now.MayHold ref → later.MayHold ref)
    (planned : later.Planned) (dealt : later.Dealt) : later.Sound where
  valid := by
    rw [same.1, exchange]
    exact sound.valid
  bounds := by
    rw [exchange]
    exact sound.bounds
  inside := by
    rw [same.2, exchange]
    exact sound.inside
  offers := by
    rw [same.1, same.2, exchange]
    intro ref offer member own
    obtain ⟨there, may⟩ := sound.offers ref offer member own
    exact ⟨there, mayHold ref may⟩
  planned := planned
  dealt := dealt

theorem Sound.polls (sound : now.Sound) (none : ∀ ref, ¬now.MayHold ref)
    (unclaimed : now.exchange.claimed? now.select.claim = Option.none) (deals : now.deals = []) :
    Sound { now with phase := .polls now.select.rotated } :=
  sound.turn rfl ⟨rfl, rfl⟩ (fun ref may => absurd may (none ref)) trivial
    ⟨⟨unclaimed, deals⟩, fun _ => Selecting.mem_of_mem_rotated⟩

section Own

variable {exchange : Exchange} {select : Selecting} {deals : List (Nat × Report)}

theorem Sound.has {phase : SelectPhase} {ref : ChanRef}
    (sound : Sound ⟨exchange, select, phase, deals⟩)
    (member : ref ∈ (select.offers exchange).map (·.1)) : exchange.Has ref := by
  obtain ⟨⟨_, offer⟩, offered, rfl⟩ := List.mem_map.mp member
  exact sound.valid _ (List.mem_of_getElem? (Selecting.mem_offers.mp offered).1)

theorem Open.carry {phase next : SelectPhase} {later : Exchange}
    (isOpen : Open ⟨exchange, select, phase, deals⟩)
    (offers : select.offers later = select.offers exchange)
    (claims : later.claims = exchange.claims) : Open ⟨later, select, next, deals⟩ := by
  unfold Open Selection.held Exchange.claimed? at isOpen ⊢
  dsimp only at isOpen ⊢
  rw [offers, claims]
  exact isOpen

theorem Sound.withdraw {ref : ChanRef} {left : List ChanRef}
    (sound : Sound ⟨exchange, select, .withdraws (ref :: left), deals⟩) :
    Sound ⟨exchange.withdraw ref select.claim, select, .withdraws left, deals⟩ := by
  obtain ⟨here, rest⟩ := List.cons_subset.mp sound.planned
  have has := sound.has here
  have allowed : exchange.Allows (.withdraw ref select.claim) := has
  have performs := Exchange.performs allowed
  have offers : select.offers (exchange.withdraw ref select.claim) = select.offers exchange :=
    Selecting.offers_step sound.valid performs
  refine sound.after performs ⟨rfl, rfl⟩ (fun other offer member own => ?_) ?_
    (Open.carry sound.dealt offers rfl)
  · have older := (performs.offers member).resolve_right nofun
    obtain ⟨there, within, inHeld⟩ := sound.offers other offer older own
    refine ⟨there, (List.mem_cons.mp within).resolve_left ?_, ?_⟩
    · rintro rfl
      have kept : offer ∈ ((exchange.withdraw other select.claim).channel other).offers := member
      rw [Exchange.withdraw, Exchange.channel_update has] at kept
      simp [show offer.claim = select.claim from own] at kept
    · unfold Selection.held
      rw [offers]
      exact inHeld
  · unfold Planned Selection.held
    dsimp only
    rw [offers]
    exact rest

theorem Sound.hold {ref : ChanRef} {offer : Offer} {left : List (ChanRef × Offer)}
    (sound : Sound ⟨exchange, select, .holds ((ref, offer) :: left), deals⟩) :
    Sound ⟨exchange.offer ref offer (!select.announced), select, .holds left, deals⟩ := by
  obtain ⟨here, rest⟩ := List.cons_subset.mp sound.planned
  obtain ⟨there, own, -⟩ := Selecting.mem_offers.mp here
  have has : exchange.Has ref := sound.valid _ (List.mem_of_getElem? there)
  have allowed : exchange.Allows (.offer ref offer (!select.announced)) := ⟨has, own ▸ sound.inside⟩
  have performs := Exchange.performs allowed
  have offers : select.offers (exchange.offer ref offer (!select.announced)) =
      select.offers exchange := Selecting.offers_step sound.valid performs
  have claims : (exchange.offer ref offer (!select.announced)).claims = exchange.claims := by
    unfold Exchange.offer
    split
    · rfl
    · dsimp only
      split <;> rfl
  refine sound.after performs ⟨rfl, rfl⟩ (fun other made member own => ?_) ?_
    (Open.carry sound.dealt offers claims)
  · unfold MayHold Selection.held
    dsimp only
    rw [offers]
    rcases performs.offers member with older | held
    · exact sound.offers other made older own
    · simp only [Exchange.perform] at held
      split at held
      · cases held
      · cases held
        exact ⟨there, List.mem_map.mpr ⟨_, here, rfl⟩⟩
  · unfold Planned
    dsimp only
    rw [offers]
    exact rest

theorem tried_deal {index : Nat} {case : SelectCase} {left : List (Nat × SelectCase)}
    {report : Report} (deal : report.isDeal = true) : now.tried index case left report exchange =
      ⟨exchange, now.select, .chosen (.case index (case.received? report)),
        now.deals ++ [(index, report)]⟩ := by
  cases report <;> first | rfl | cases deal

theorem Sound.try {index : Nat} {case : SelectCase} {left : List (Nat × SelectCase)}
    (sound : Sound ⟨exchange, select, .polls ((index, case) :: left), deals⟩) :
    Sound (Selection.own ⟨exchange, select, .polls ((index, case) :: left), deals⟩) := by
  obtain ⟨⟨unclaimed, undealt⟩, entries⟩ := sound.dealt
  obtain ⟨there, rest⟩ := List.forall_mem_cons.mp entries
  have noOffers := sound.noOffers fun _ => id
  cases act? : case.act? with
  | none =>
    simp only [Selection.own, act?]
    exact sound.turn rfl ⟨rfl, rfl⟩ (fun _ => id) trivial ⟨⟨unclaimed, undealt⟩, rest⟩
  | some act =>
    have performs := Exchange.performs ((sound.valid case (List.mem_of_getElem? there)).allows act?)
    have unoffered : ∀ ref, ∀ offer ∈ ((exchange.perform act).2.channel ref).offers,
        offer.claim ≠ select.claim := by
      intro ref offer member
      refine noOffers ref offer ((performs.offers member).resolve_right fun held => ?_)
      obtain ⟨-, announce, rfl⟩ := (held ▸ performs).held
      cases case <;> cases act?
    obtain ⟨others, claimed⟩ : (exchange.perform act).1.isHanded select.claim = false ∧
        (exchange.perform act).2.claimed? select.claim = none := by
      rcases performs.changes.claimed sound.bounds select.claim with ⟨unhanded, same⟩ |
        ⟨ref, offer, -, member, own, -⟩
      · exact ⟨unhanded, same.trans unclaimed⟩
      · exact absurd own (noOffers ref offer member)
    simp only [Selection.own, act?]
    rcases case.tried act? others index with ⟨error, refused⟩ | notReady | ⟨deal, performed⟩
    · rw [refused] at performs ⊢
      exact sound.after performs ⟨rfl, rfl⟩
        (fun ref offer member own => absurd own (unoffered ref offer member)) trivial undealt
    · rw [notReady] at performs ⊢
      exact sound.after performs ⟨rfl, rfl⟩
        (fun ref offer member own => absurd own (unoffered ref offer member)) trivial
        ⟨⟨claimed, undealt⟩, rest⟩
    · rw [tried_deal deal]
      refine sound.after performs ⟨rfl, rfl⟩
        (fun ref offer member own => absurd own (unoffered ref offer member)) trivial
        ⟨case, _, there, ?_, performed⟩
      exact congrArg (· ++ _) undealt

theorem Sound.own (sound : now.Sound) : now.own.Sound := by
  obtain ⟨exchange, select, phase, deals⟩ := now
  have dealt := sound.dealt
  cases phase with
  | rests =>
    unfold Selection.own
    dsimp only
    split
    · exact sound.turn rfl ⟨rfl, rfl⟩ (fun ref may => ⟨may.2, may.2⟩) (List.Subset.refl _) dealt.1
    · next offered =>
      have unclaimed := dealt.2 (eq_false_of_ne_true offered)
      exact sound.polls (fun ref may => offered may.1) unclaimed (dealt.1.deals_nil unclaimed)
  | withdraws left =>
    cases left with
    | nil =>
      exact sound.turn rfl ⟨rfl, rfl⟩ (fun ref may => absurd may.1 List.not_mem_nil) trivial dealt
    | cons ref left => exact sound.withdraw
  | checks =>
    unfold Selection.own
    dsimp only
    split
    · next index claimed =>
      rcases dealt with ⟨unclaimed, -⟩ | ⟨found, same, -, completed⟩
      · exact absurd (unclaimed.symm.trans claimed) (by simp)
      · cases same.symm.trans claimed
        exact sound.turn rfl ⟨rfl, rfl⟩ (fun _ => id) trivial completed
    · next unclaimed => exact sound.polls (fun _ => id) unclaimed (Open.deals_nil dealt unclaimed)
  | polls left =>
    cases left with
    | nil =>
      unfold Selection.own
      dsimp only
      split
      · exact sound.turn rfl ⟨rfl, rfl⟩ (fun _ => id) trivial dealt.1.2
      · exact sound.turn rfl ⟨rfl, rfl⟩ (fun _ => False.elim) (List.Subset.refl _) (.inl dealt.1)
    | cons entry left => exact sound.try
  | holds left =>
    cases left with
    | nil =>
      refine sound.turn rfl ⟨rfl, rfl⟩ (fun ref may => ⟨?_, may⟩) trivial ⟨dealt, fun none => ?_⟩
      · have some := List.map_eq_nil_iff.not.mp (List.ne_nil_of_mem may)
        simpa [Selection.own] using some
      · rcases dealt with ⟨unclaimed, -⟩ | ⟨-, -, held, -⟩
        · exact unclaimed
        · have some := List.map_eq_nil_iff.not.mp held
          simp [Selection.own, some] at none
    | cons entry left => exact sound.hold
  | chosen | failed => exact sound

end Own

theorem begins_sound {exchange : Exchange} {history : List Report} {cases : List SelectCase}
    {hasDefault : Bool} (reached : Exchange.Reaches {} history exchange)
    (valid : ∀ case ∈ cases, case.Valid exchange) : (begins exchange cases hasDefault).Sound := by
  have bounds := reached.accounts.offers
  have allowed : exchange.Allows .newClaim := trivial
  refine ⟨fun case member => (valid case member).step (Exchange.performs allowed),
    fun ref offer member => ?_, ?_, fun ref offer member own => ?_, trivial, .inl ⟨?_, rfl⟩, fun _ => ?_⟩
  · have inside := bounds ref offer member
    simp only [begins, Exchange.newClaim, Array.size_push]
    omega
  · simp [begins, Exchange.newClaim]
  · have inside := bounds ref offer member
    simp [own, begins, Exchange.newClaim] at inside
  all_goals simp [begins, Exchange.newClaim, Exchange.claimed?]

section Runs

variable {start : Selection}

theorem Run.sound (sound : start.Sound) (run : start.Run now) : now.Sound := by
  induction run with
  | refl => exact sound
  | own _ ih => exact ih.own
  | other act _ allowed foreign ih => exact ih.other allowed foreign

theorem own_select : now.own.select.cases = now.select.cases ∧
    now.own.select.claim = now.select.claim := by
  unfold Selection.own
  split <;> try exact ⟨rfl, rfl⟩
  all_goals split <;> exact ⟨rfl, rfl⟩

theorem Run.select (run : start.Run now) : now.select.cases = start.select.cases ∧
    now.select.claim = start.select.claim := by
  induction run with
  | refl => exact ⟨rfl, rfl⟩
  | own _ ih => exact ⟨own_select.1.trans ih.1, own_select.2.trans ih.2⟩
  | other _ _ _ _ ih => exact ih

theorem Run.others (run : start.Run now) {reports : List Report} {later : Exchange}
    (reaches : now.exchange.Reaches reports later)
    (foreign : ∀ report ∈ reports, Foreign now.select.claim report) :
    ∃ deals, start.Run { now with exchange := later, deals } := by
  induction reaches with
  | refl => exact ⟨_, run⟩
  | step act _ allowed ih =>
    obtain ⟨deals, before⟩ := ih fun report member => foreign report (List.mem_append_left _ member)
    exact ⟨_, before.other act allowed (foreign _ (by simp))⟩

variable {exchange : Exchange} {select : Selecting} {deals : List (Nat × Report)}

theorem Run.withdraws {left : List ChanRef}
    (run : start.Run ⟨exchange, select, .withdraws left, deals⟩) :
    start.Run ⟨left.foldl (·.withdraw · select.claim) exchange, select, .checks, deals⟩ := by
  induction left generalizing exchange with
  | nil => exact run.own
  | cons ref left ih => exact ih run.own

theorem offers_offer {ref : ChanRef} {offer : Offer} {announce : Bool} :
    select.offers (exchange.offer ref offer announce) = select.offers exchange := by
  refine Selecting.offers_congr fun other _ _ => ?_
  unfold Exchange.offer
  split
  · rfl
  · dsimp only
    split <;> exact Exchange.capacity_update fun _ => rfl

theorem Run.holds {left : List (ChanRef × Offer)}
    (run : start.Run ⟨exchange, select, .holds left, deals⟩) :
    let later := left.foldl
      (fun exchange (ref, offer) => exchange.offer ref offer (!select.announced)) exchange
    let offered := !(select.offers exchange).isEmpty
    start.Run ⟨later, { select with
      offered, announced := select.announced || offered, round := select.round + 1 }, .rests, deals⟩ := by
  induction left generalizing exchange with
  | nil => exact run.own
  | cons entry left ih =>
    obtain ⟨ref, offer⟩ := entry
    have next : start.Run ⟨exchange.offer ref offer (!select.announced), select, .holds left, deals⟩ :=
      run.own
    have rest := ih next
    rw [offers_offer] at rest
    exact rest

end Runs

end Selection

def SelectCase.trial (index : Nat) (case : SelectCase) : Report → Except RuntimeError (Option Selected)
  | .refused error => .error error
  | .notReady => .ok none
  | report => .ok (some (.case index (case.received? report)))

theorem Exchange.tryCase_eq {exchange : Exchange} {case : SelectCase} {act : Section} {index : Nat}
    (acts : case.act? = some act) : exchange.tryCase index case =
      (case.trial index (exchange.perform act).1, (exchange.perform act).2) := by
  cases case with
  | send ref value =>
    cases acts
    simp only [tryCase, perform]
    rcases exchange.trySend ref value with error | ⟨_ | _, later⟩ <;> rfl
  | recv elem ref =>
    cases acts
    have answer := (tryRecv_receives exchange ref).answer
    have receives := tryRecv_receives exchange ref
    simp only [tryCase, perform, answer]
    generalize exchange.receipt ref = report, (exchange.tryRecv ref).1 = told,
      (exchange.tryRecv ref).2 = later at receives
    cases receives <;> rfl
  | never => cases acts

namespace Selection

variable {start : Selection} {exchange : Exchange} {select : Selecting} {deals : List (Nat × Report)}

theorem Run.polls {left : List (Nat × SelectCase)}
    (run : start.Run ⟨exchange, select, .polls left, deals⟩) :
    match exchange.tryCases left with
    | (.error error, later) => ∃ deals, start.Run ⟨later, select, .failed error, deals⟩
    | (.ok (some selected), later) => ∃ deals, start.Run ⟨later, select, .chosen selected, deals⟩
    | (.ok none, later) => start.Run ⟨later, select, .polls [], deals⟩ := by
  induction left generalizing exchange with
  | nil => exact run
  | cons entry left ih =>
    obtain ⟨index, case⟩ := entry
    have next := run.own
    cases act? : case.act? with
    | none =>
      have never : exchange.tryCase index case = (.ok none, exchange) := by
        cases case <;> first | rfl | cases act?
      simp only [Selection.own, act?] at next
      simp only [Exchange.tryCases, never]
      exact ih next
    | some act =>
      simp only [Selection.own, act?] at next
      simp only [Exchange.tryCases, Exchange.tryCase_eq act?]
      generalize (exchange.perform act).1 = report, (exchange.perform act).2 = later at next
      cases report with
      | notReady => exact ih next
      | _ => exact ⟨_, next⟩

def Comes (start : Selection) (select : Selecting) (deals : List (Nat × Report)) :
    Except RuntimeError RoundEnd × Exchange → Prop
  | (.error error, later) => ∃ deals, start.Run ⟨later, select, .failed error, deals⟩
  | (.ok (.chosen selected), later) => ∃ deals, start.Run ⟨later, select, .chosen selected, deals⟩
  | (.ok (.sleep _ next), later) => start.Run ⟨later, next, .rests, deals⟩

theorem Run.poll (run : start.Run ⟨exchange, select, .polls select.rotated, deals⟩) (since : Nat) :
    start.Comes select deals (select.poll since exchange) := by
  have tried := run.polls
  unfold Selecting.poll
  generalize exchange.tryCases select.rotated = found at tried ⊢
  rcases found with ⟨error | ⟨_ | selected⟩, later⟩
  · exact tried
  · have next := Run.own tried
    dsimp only [Selection.own] at next ⊢
    split at next
    · next hasDefault =>
      rw [if_pos hasDefault]
      exact ⟨_, next⟩
    · next noDefault =>
      rw [if_neg noDefault]
      exact next.holds
  · exact tried

theorem Run.round (run : start.Run ⟨exchange, select, .rests, deals⟩) :
    start.Comes select deals (select.step exchange) := by
  have next := run.own
  dsimp only [Selection.own] at next
  unfold Selecting.step
  split at next
  · next offered =>
    have withdrawn : start.Run ⟨select.withdrawn exchange, select, .checks, deals⟩ := by
      have checks := next.withdraws
      rw [List.foldl_map] at checks
      exact checks
    have checked := withdrawn.own
    rw [if_pos offered]
    dsimp only [Selection.own] at checked ⊢
    cases claimed : (select.withdrawn exchange).claimed? select.claim with
    | some index =>
      simp only [claimed] at checked ⊢
      exact ⟨_, checked⟩
    | none =>
      simp only [claimed] at checked ⊢
      exact checked.poll _
  · next unoffered =>
    rw [if_neg unoffered]
    exact next.poll _

end Selection

theorem Outcome.Ends.of_bind {α β : Type} {outcome : Outcome α} {next : α → World → Outcome β}
    {reports : List Report} {result : Except RuntimeError β} {final : World}
    (ends : (outcome.bind next).Ends reports result final) :
    (∃ error, result = .error error ∧ outcome.Ends reports (.error error) final) ∨
      ∃ first rest value world, reports = first ++ rest ∧ outcome.Ends first (.ok value) world ∧
        (next value world).Ends rest result final := by
  induction outcome generalizing reports with
  | done value world => exact .inr ⟨[], reports, value, world, rfl, .done, ends⟩
  | fail error world =>
    cases ends
    exact .inl ⟨error, rfl, .fail⟩
  | await wait world resume ih =>
    cases ends with
    | await others woken ends =>
      rcases ih _ ends with ⟨error, same, failed⟩ | ⟨first, rest, value, middle, rfl, done, ends⟩
      · exact .inl ⟨error, same, .await others woken failed⟩
      · exact .inr ⟨_, rest, value, middle, (List.append_assoc ..).symm, .await others woken done, ends⟩
  | broken reason => cases ends

def SelectPhase.of : Except RuntimeError Selected → SelectPhase
  | .ok selected => .chosen selected
  | .error error => .failed error

namespace Run

variable {fuel : Nat} {select : Selecting} {world final : World} {reports : List Report}
  {result : Except RuntimeError Selected}

theorem selectRounds_succ : selectRounds (fuel + 1) select world =
    match select.step world.exchange with
    | (.error error, exchange) => .fail error { world with exchange }
    | (.ok (.chosen selected), exchange) => .done selected { world with exchange }
    | (.ok (.sleep since next), exchange) =>
      if (Wait.activity since).isOver exchange then selectRounds fuel next { world with exchange }
      else .await (.activity since) { world with exchange } (selectRounds fuel next) := by
  simp only [selectRounds, Bind.bind, bind, updateExchange]
  rcases select.step world.exchange with ⟨error | ending, exchange⟩
  · rfl
  · cases ending with
    | chosen selected => rfl
    | sleep since next => exact waitFor_bind _ _

theorem selectRounds_ends {start : Selection} {deals : List (Nat × Report)}
    (run : start.Run ⟨world.exchange, select, .rests, deals⟩)
    (ends : (selectRounds fuel select world).Ends reports result final)
    (foreign : ∀ report ∈ reports, Selection.Foreign start.select.claim report) :
    ∃ select deals, start.Run ⟨final.exchange, select, .of result, deals⟩ := by
  induction fuel generalizing select world reports deals with
  | zero => cases ends
  | succ fuel ih =>
    have round := run.round
    rw [selectRounds_succ] at ends
    generalize select.step world.exchange = ending at round ends
    rcases ending with ⟨error | selected | ⟨since, next⟩, exchange⟩
    · cases ends
      exact ⟨_, round⟩
    · cases ends
      exact ⟨_, round⟩
    · dsimp only at ends
      split at ends
      · exact ih (show start.Run ⟨exchange, next, .rests, deals⟩ from round) ends foreign
      · cases ends with
        | await others woken ends =>
          have claim : next.claim = start.select.claim := (Selection.Run.select round).2
          obtain ⟨deals, slept⟩ := Selection.Run.others round others fun report member =>
            claim ▸ foreign report (List.mem_append_left _ member)
          exact ih slept ends fun report member => foreign report (List.mem_append_right _ member)

/-- What a select does when its rounds have ended: others get a turn before the default is taken. -/
def afterRounds : Selected → World → Outcome Selected
  | .default, world => .await .turn world fun world => .done .default world
  | selected, world => .done selected world

theorem select_eq {cases : List SelectCase} {hasDefault : Bool} :
    Run.select fuel cases hasDefault world =
      if cases.isEmpty && !hasDefault then
        .fail (.panic "select with no cases blocks forever") world
      else
        (selectRounds fuel { cases, hasDefault, claim := world.exchange.newClaim.1 }
          { world with exchange := world.exchange.newClaim.2 }).bind afterRounds := by
  unfold Run.select
  split
  · rfl
  · simp only [Bind.bind, bind_apply]
    show (bind _ _ _ : Outcome Selected) = _
    rw [bind_apply]
    congr 1
    funext selected world
    cases selected <;> rfl

theorem select_ends {cases : List SelectCase} {hasDefault : Bool}
    (ends : (Run.select fuel cases hasDefault world).Ends reports result final)
    (foreign : ∀ report ∈ reports, Selection.Foreign world.exchange.newClaim.1 report) :
    (cases = [] ∧ hasDefault = false ∧ final = world ∧
      result = .error (.panic "select with no cases blocks forever")) ∨
    ∃ select deals, (Selection.begins world.exchange cases hasDefault).Run
      ⟨final.exchange, select, .of result, deals⟩ := by
  rw [select_eq] at ends
  split at ends
  · next empty =>
    simp only [Bool.and_eq_true, List.isEmpty_iff, Bool.not_eq_eq_eq_not, Bool.not_true] at empty
    cases ends
    exact .inl ⟨empty.1, empty.2, rfl, rfl⟩
  · refine .inr ?_
    rcases ends.of_bind with ⟨error, rfl, rounds⟩ | ⟨first, rest, selected, chosen, rfl, rounds, ends⟩
    · exact selectRounds_ends .refl rounds foreign
    · obtain ⟨select, deals, run⟩ := selectRounds_ends .refl rounds fun report member =>
        foreign report (List.mem_append_left _ member)
      cases selected with
      | case index found =>
        cases ends
        exact ⟨_, _, run⟩
      | default =>
        cases ends with
        | await others woken ends =>
          cases ends
          obtain ⟨deals, later⟩ := run.others others fun report member => by
            rw [run.select.2]
            exact foreign report (by simp [member])
          exact ⟨_, _, later⟩

end Run

/-- Whatever other parties do in between: when a select has ended with a case, exactly one communication
has been performed for it since it began, the one of that case; it has received nothing that it held
out or sent itself, and none of its offers is left on any channel. When it has failed or taken the
default, nothing has been performed for it, and none of its offers is left either. A select of running
code ends as such a run does. -/
theorem select_performs_one {exchange : Exchange} {history : List Report} {cases : List SelectCase}
    {hasDefault : Bool} (reached : Exchange.Reaches {} history exchange)
    (valid : ∀ case ∈ cases, case.Valid exchange) :
    (∀ now, (Selection.begins exchange cases hasDefault).Run now →
      (∀ index found, now.phase = .chosen (.case index found) →
        (∃ case report, cases[index]? = some case ∧ now.deals = [(index, report)] ∧
          case.Performed exchange.newClaim.1 index report found) ∧
        ∀ ref, ∀ offer ∈ (now.exchange.channel ref).offers, offer.claim ≠ exchange.newClaim.1) ∧
      (now.phase = .chosen .default ∨ (∃ error, now.phase = .failed error) →
        now.deals = [] ∧
        ∀ ref, ∀ offer ∈ (now.exchange.channel ref).offers, offer.claim ≠ exchange.newClaim.1)) ∧
    ∀ (world final : World) (fuel : Nat) (reports : List Report)
      (result : Except RuntimeError Selected), world.exchange = exchange →
      (Run.select fuel cases hasDefault world).Ends reports result final →
      (∀ report ∈ reports, Selection.Foreign exchange.newClaim.1 report) →
      (cases = [] ∧ hasDefault = false ∧ final = world ∧
        result = .error (.panic "select with no cases blocks forever")) ∨
      ∃ select deals, (Selection.begins exchange cases hasDefault).Run
        ⟨final.exchange, select, .of result, deals⟩ := by
  refine ⟨fun now run => ?_, ?_⟩
  · have sound := run.sound (Selection.begins_sound reached valid)
    obtain ⟨sameCases, sameClaim⟩ := run.select
    have none (none : ∀ ref, ¬now.MayHold ref) (ref : ChanRef) (offer : Offer)
        (member : offer ∈ (now.exchange.channel ref).offers) : offer.claim ≠ exchange.newClaim.1 :=
      fun same => sound.noOffers none ref offer member (same.trans sameClaim.symm)
    obtain ⟨later, select, phase, deals⟩ := now
    have dealt := sound.dealt
    refine ⟨?_, ?_⟩
    · rintro index found ⟨⟩
      obtain ⟨case, report, there, deals, performed⟩ := dealt
      rw [sameCases] at there
      rw [sameClaim] at performed
      exact ⟨⟨case, report, there, deals, performed⟩, none fun _ => id⟩
    · rintro (⟨⟨⟩⟩ | ⟨error, ⟨⟩⟩)
      all_goals exact ⟨dealt, none fun _ => id⟩
  · rintro world final fuel reports result rfl ends foreign
    exact Run.select_ends ends foreign

def twoChannels : World :=
  { exchange := ((Exchange.perform {} (.newChannel 0)).2.perform (.newChannel 0)).2 }

theorem twoChannels_reached : Exchange.Reaches {} [.none, .none] twoChannels.exchange :=
  (Exchange.Reaches.one (.newChannel 0) trivial).step (.newChannel 0) trivial

/-- Sends on the first channel or receives from either of them; one case is on a nil channel. -/
def mixedCases : List SelectCase :=
  [.recv .int ⟨0⟩, .send ⟨0⟩ (.int 1), .never, .recv .int ⟨1⟩]

def sleptOnce : Selecting :=
  { cases := mixedCases, hasDefault := false, claim := ⟨0⟩, offered := true,
    announced := true, round := 1 }

def sleepingExchange : Exchange :=
  (sleptOnce.step (Selecting.step { cases := mixedCases, hasDefault := false, claim := ⟨0⟩ }
    twoChannels.exchange.newClaim.2).2).2

theorem twoChannels_sleeps : Run.select 3 mixedCases false twoChannels =
    .await (.activity 1) { twoChannels with exchange := sleepingExchange } fun world =>
      (Run.selectRounds 1 { sleptOnce with round := 2 } world).bind Run.afterRounds := by
  rw [Run.select_eq]
  rfl

/-- A select sleeps with its offer held out; somebody takes it, and the select ends with that send. -/
theorem select_performs_one_taken : ∃ now,
    (Selection.begins twoChannels.exchange mixedCases false).Run now ∧
      now.phase = .chosen (.case 1 none) ∧
      (∃ case report, mixedCases[1]? = some case ∧ now.deals = [(1, report)] ∧
        case.Performed ⟨0⟩ 1 report none) ∧
      ∀ ref, ∀ offer ∈ (now.exchange.channel ref).offers, offer.claim ≠ ⟨0⟩ := by
  have reaches : sleepingExchange.Reaches [.handed ⟨0⟩ ⟨1, .int 1, ⟨0⟩⟩] _ :=
    .one (.tryRecv ⟨0⟩) (by decide)
  have woken : (Wait.activity 1).isOver (sleepingExchange.perform (.tryRecv ⟨0⟩)).2 = true := by decide
  let taken := { twoChannels with exchange := (sleepingExchange.perform (.tryRecv ⟨0⟩)).2 }
  obtain ⟨final, chosen⟩ : ∃ final, (Run.selectRounds 1 { sleptOnce with round := 2 } taken).bind
      Run.afterRounds = .done (.case 1 none) final := ⟨_, rfl⟩
  have ends : (Run.select 3 mixedCases false twoChannels).Ends
      ([.handed ⟨0⟩ ⟨1, .int 1, ⟨0⟩⟩] ++ []) (.ok (.case 1 none)) final := by
    rw [twoChannels_sleeps]
    refine @Outcome.Ends.await _ _ _ taken _ _ _ _ _ reaches woken ?_
    rw [chosen]
    exact .done
  have valid : ∀ case ∈ mixedCases, case.Valid twoChannels.exchange := by
    simp [mixedCases, SelectCase.Valid, twoChannels, Exchange.perform, Exchange.newChannel, Exchange.Has]
  obtain ⟨runs, follows⟩ := @select_performs_one _ _ _ false twoChannels_reached valid
  rcases follows _ _ _ _ _ rfl ends (by simp [Selection.Foreign]) with ⟨empty, -⟩ | ⟨select, deals, run⟩
  · cases empty
  · obtain ⟨completed, unoffered⟩ := (runs _ run).1 1 none rfl
    exact ⟨_, run, rfl, completed, unoffered⟩

end MiniGo
