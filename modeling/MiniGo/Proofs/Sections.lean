import MiniGo.Run
/-!
Channels under interleaving. Parties share the channels only through uninterrupted sections, so what
any number of them can do, in whatever order, is a list of sections. Here is what one section does: to
each channel, to the claims of the selects, and what it reports.
-/

namespace MiniGo

inductive Section
  | newChannel (capacity : Nat)
  | newClaim
  /-- A blocked sender has found room. -/
  | send (channel : ChanRef) (value : Value)
  | trySend (channel : ChanRef) (value : Value)
  | enterRecv (channel : ChanRef)
  /-- A blocked receiver has found what it needs. -/
  | leaveRecv (channel : ChanRef)
  /-- A blocked receiver finds nothing, and forgets the offers that others have claimed. -/
  | look (channel : ChanRef)
  | tryRecv (channel : ChanRef)
  | close (channel : ChanRef)
  | offer (channel : ChanRef) (offer : Offer) (announce : Bool)
  | withdraw (channel : ChanRef) (claim : ClaimRef)

/-- What a section has done, as its party sees it. -/
inductive Report
  | none
  /-- The value has been put into the buffer, as the one with this number. -/
  | accepted (channel : ChanRef) (value : Value) (ticket : Nat)
  /-- The value has been taken out of the buffer, as the one with this number. -/
  | taken (channel : ChanRef) (value : Value) (number : Nat)
  /-- A select has begun to hold a value out. -/
  | held (channel : ChanRef) (offer : Offer)
  /-- A value that a select holds out has been handed over. -/
  | handed (channel : ChanRef) (offer : Offer)
  /-- A receiver has come to the end of the channel. -/
  | ended (channel : ChanRef)
  | closed (channel : ChanRef)
  | refused (error : RuntimeError)
  | notReady

namespace Report

/-- What a receiver is told: a value, none at the end, nothing if it has to wait. -/
def receives : Report → Option (Option Value)
  | taken _ value _ => some (some value)
  | handed _ offer => some (some offer.value)
  | ended _ => some Option.none
  | _ => Option.none

def acceptedOn (ref : ChanRef) : Report → Option Value
  | accepted channel value _ => if channel = ref then some value else Option.none
  | _ => Option.none

def takenOn (ref : ChanRef) : Report → Option Value
  | taken channel value _ => if channel = ref then some value else Option.none
  | _ => Option.none

def isHanded (claim : ClaimRef) : Report → Bool
  | handed _ offer => offer.claim == claim
  | _ => false

/-- The report tells of a value in the buffer of a channel, of a new offer, or of the end of it. -/
def Touches (ref : ChanRef) : Report → Prop
  | accepted channel _ _ | taken channel _ _ | held channel _ | closed channel => channel = ref
  | _ => False

end Report

def acceptedBy (ref : ChanRef) (reports : List Report) : List Value :=
  reports.filterMap (Report.acceptedOn ref)

def takenFrom (ref : ChanRef) (reports : List Report) : List Value :=
  reports.filterMap (Report.takenOn ref)

namespace Exchange

def Has (exchange : Exchange) (ref : ChanRef) : Prop := ref.index < exchange.channels.size

instance (exchange : Exchange) (ref : ChanRef) : Decidable (exchange.Has ref) :=
  inferInstanceAs (Decidable (_ < _))

def receipt (exchange : Exchange) (ref : ChanRef) : Report :=
  let channel := exchange.channel ref
  match channel.buffer with
  | value :: _ => .taken ref value (channel.taken + 1)
  | [] =>
    if channel.closed then .ended ref
    else
      match exchange.firstUnclaimed channel.offers with
      | some (offer, _) => .handed ref offer
      | none => .notReady

def perform (exchange : Exchange) : Section → Report × Exchange
  | .newChannel capacity => (.none, (exchange.newChannel capacity).2)
  | .newClaim => (.none, exchange.newClaim.2)
  | .send ref value =>
    match exchange.send ref value with
    | .ok (ticket, later) => (.accepted ref value ticket, later)
    | .error error => (.refused error, exchange)
  | .trySend ref value =>
    match exchange.trySend ref value with
    | .ok (true, later) => (.accepted ref value (exchange.channel ref).sent.succ, later)
    | .ok (false, later) => (.notReady, later)
    | .error error => (.refused error, exchange)
  | .enterRecv ref => (.none, exchange.enterRecv ref)
  | .leaveRecv ref => (exchange.receipt ref, (exchange.leaveRecv ref).2)
  | .look ref => (.notReady, (exchange.claimOffer ref).2)
  | .tryRecv ref => (exchange.receipt ref, (exchange.tryRecv ref).2)
  | .close ref =>
    match exchange.close ref with
    | .ok later => (.closed ref, later)
    | .error error => (.refused error, exchange)
  | .offer ref offer announce =>
    (if (exchange.channel ref).closed then .none else .held ref offer,
      exchange.offer ref offer announce)
  | .withdraw ref claim => (.none, exchange.withdraw ref claim)

/-- A party can be at the section: its channel exists, and what it has waited for is there. -/
def Allows (exchange : Exchange) : Section → Prop
  | .newChannel _ | .newClaim => True
  | .send ref _ => exchange.Has ref ∧ (exchange.channel ref).hasRoom = true
  | .leaveRecv ref => exchange.Has ref ∧ exchange.canRecv ref = true
  | .look ref => exchange.Has ref ∧ exchange.canRecv ref = false
  | .offer ref offer _ => exchange.Has ref ∧ offer.claim.index < exchange.claims.size
  | .trySend ref _ | .enterRecv ref | .tryRecv ref | .close ref | .withdraw ref _ => exchange.Has ref

instance (exchange : Exchange) : (act : Section) → Decidable (exchange.Allows act)
  | .newChannel _ | .newClaim => inferInstanceAs (Decidable True)
  | .send _ _ | .leaveRecv _ | .look _ => inferInstanceAs (Decidable (_ ∧ _ = _))
  | .offer _ _ _ => inferInstanceAs (Decidable (_ ∧ _ < _))
  | .trySend ref _ | .enterRecv ref | .tryRecv ref | .close ref | .withdraw ref _ =>
    inferInstanceAs (Decidable (exchange.Has ref))

/-- What the sections of any number of parties lead to, and their reports. -/
inductive Reaches (start : Exchange) : List Report → Exchange → Prop
  | refl : Reaches start [] start
  | step {exchange : Exchange} {reports : List Report} (act : Section) :
    Reaches start reports exchange → exchange.Allows act →
    Reaches start (reports ++ [(exchange.perform act).1]) (exchange.perform act).2

section Views

variable {exchange : Exchange} {ref other : ChanRef} {change : Channel → Channel}

theorem channel_notify : exchange.notify.channel ref = exchange.channel ref := rfl

theorem has_update : (exchange.update other change).Has ref ↔ exchange.Has ref := by
  simp [Has, update]

theorem channel_absent (absent : ¬exchange.Has ref) : exchange.channel ref = { capacity := 0 } := by
  have outside := Array.getElem?_eq_none (Nat.le_of_not_lt absent)
  simp [channel, Array.getD_eq_getD_getElem?, outside]

theorem channel_update (has : exchange.Has ref) :
    (exchange.update ref change).channel ref = change (exchange.channel ref) := by
  have present := Array.getElem?_eq_getElem has
  simp [channel, update, Array.getD_eq_getD_getElem?, Array.getElem?_modify, present]

theorem channel_update_ne (differs : ref ≠ other) :
    (exchange.update other change).channel ref = exchange.channel ref := by
  have index : other.index ≠ ref.index := fun same => differs (by cases ref; cases other; simp_all)
  simp only [channel, update, Array.getD_eq_getD_getElem?, Array.getElem?_modify]
  simp [index]

end Views

end Exchange

namespace Channel

/-- Values that the buffer holds at most: one without capacity, or one for each blocked receiver. -/
def bound (channel : Channel) : Nat :=
  if channel.capacity = 0 then max 1 channel.waiting else channel.capacity

/-- What a section does to a channel, and what it reports. -/
inductive Moves (ref : ChanRef) (before after : Channel) : Report → Prop
  | begins {report : Report} {capacity : Nat} : ¬report.Touches ref → before = { capacity := 0 } →
    after = { capacity } → Moves ref before after report
  | accepts {value : Value} : before.closed = false → before.buffer.length < before.bound →
    after = before.push value → Moves ref before after (.accepted ref value (before.sent + 1))
  | takes {value : Value} {rest : List Value} {waiting : Nat} : before.buffer = value :: rest →
    before.waiting ≤ waiting + 1 →
    after = { before with buffer := rest, taken := before.taken + 1, waiting } →
    Moves ref before after (.taken ref value (before.taken + 1))
  | closes : before.closed = false → after = { before with closed := true } →
    Moves ref before after (.closed ref)
  | holds {offer : Offer} : after = { before with offers := before.offers ++ [offer] } →
    Moves ref before after (.held ref offer)
  | rests {report : Report} {waiting : Nat} {offers : List Offer} : ¬report.Touches ref →
    before.waiting ≤ waiting ∨ before.buffer = [] → offers ⊆ before.offers →
    after = { before with waiting, offers } → Moves ref before after report

theorem Moves.keeps {ref : ChanRef} {channel : Channel} {report : Report}
    (untouched : ¬report.Touches ref) : Moves ref channel channel report :=
  .rests untouched (.inl (Nat.le_refl _)) (List.Subset.refl _) rfl

theorem lt_bound_of_hasRoom {channel : Channel} (isOpen : channel.closed = false)
    (room : channel.hasRoom = true) : channel.buffer.length < channel.bound := by
  simp only [hasRoom, isOpen, Bool.false_or, decide_eq_true_eq] at room
  unfold slots at room
  unfold bound
  split <;> omega

theorem lt_bound_of_accepts {channel : Channel} (accepts : channel.accepts = true) :
    channel.buffer.length < channel.bound := by
  unfold Channel.accepts at accepts
  unfold bound
  split <;> rename_i capacity <;> simp only [capacity, if_true, if_false, decide_eq_true_eq] at accepts
  · omega
  · exact accepts

end Channel

namespace Exchange

variable {exchange : Exchange} {ref : ChanRef}

theorem perform_send (value : Value) : exchange.perform (.send ref value) =
    if (exchange.channel ref).closed then (.refused (.closedChannel .send), exchange)
    else (.accepted ref value ((exchange.channel ref).sent + 1),
      (exchange.update ref (·.push value)).notify) := by
  cases isClosed : (exchange.channel ref).closed <;> simp only [perform, send, isClosed] <;> rfl

theorem perform_trySend (value : Value) : exchange.perform (.trySend ref value) =
    if (exchange.channel ref).closed then (.refused (.closedChannel .send), exchange)
    else if (exchange.channel ref).accepts then
      (.accepted ref value ((exchange.channel ref).sent + 1),
        (exchange.update ref (·.push value)).notify)
    else (.notReady, exchange) := by
  cases isClosed : (exchange.channel ref).closed
  · cases accepts : (exchange.channel ref).accepts <;>
      simp only [perform, trySend, isClosed, accepts] <;> rfl
  · simp only [perform, trySend, isClosed]
    rfl

theorem perform_close : exchange.perform (.close ref) =
    if (exchange.channel ref).closed then (.refused (.closedChannel .close), exchange)
    else (.closed ref, (exchange.update ref ({ · with closed := true })).notify) := by
  cases isClosed : (exchange.channel ref).closed <;> simp only [perform, close, isClosed] <;> rfl

def leaving (exchange : Exchange) (ref : ChanRef) : Exchange :=
  exchange.update ref fun channel => { channel with waiting := channel.waiting - 1 }

theorem leaving_channel (has : exchange.Has ref) : (exchange.leaving ref).channel ref =
    { exchange.channel ref with waiting := (exchange.channel ref).waiting - 1 } := channel_update has

theorem leaveRecv_eq (has : exchange.Has ref) : exchange.leaveRecv ref =
    (((exchange.leaving ref).tryRecv ref).1.join, ((exchange.leaving ref).tryRecv ref).2) := by
  have same : ((exchange.leaving ref).channel ref).isReadable =
      (exchange.channel ref).isReadable := by
    rw [leaving_channel has]
    rfl
  have unfolded : exchange.leaveRecv ref =
      if (exchange.channel ref).isReadable then (exchange.leaving ref).take ref
      else (exchange.leaving ref).claimOffer ref := rfl
  rw [unfolded]
  simp only [tryRecv, same]
  split
  · rfl
  · generalize claimOffer _ ref = found
    rcases found with ⟨_ | value, later⟩ <;> rfl

section Offers

variable {offers rest : List Offer} {offer : Offer}

theorem firstUnclaimed_some (found : exchange.firstUnclaimed offers = some (offer, rest)) :
    offer ∈ offers ∧ rest ⊆ offers ∧ exchange.isUnclaimed offer = true := by
  induction offers with
  | nil => simp [firstUnclaimed] at found
  | cons head tail ih =>
    unfold firstUnclaimed at found
    split at found
    · next unclaimed =>
      cases found
      exact ⟨by simp, fun _ member => .tail _ member, unclaimed⟩
    · obtain ⟨member, inside, unclaimed⟩ := ih found
      exact ⟨.tail _ member, fun _ within => .tail _ (inside within), unclaimed⟩

theorem firstUnclaimed_eq_none :
    exchange.firstUnclaimed offers = none ↔ offers.any exchange.isUnclaimed = false := by
  induction offers with
  | nil => simp [firstUnclaimed]
  | cons head tail ih =>
    unfold firstUnclaimed
    split <;> simp_all

theorem firstUnclaimed_congr {later : Exchange} (same : later.claims = exchange.claims) :
    later.firstUnclaimed offers = exchange.firstUnclaimed offers := by
  induction offers with
  | nil => rfl
  | cons head tail ih => simp [firstUnclaimed, isUnclaimed, same, ih]

end Offers

theorem receipt_leaving (has : exchange.Has ref) :
    (exchange.leaving ref).receipt ref = exchange.receipt ref := by
  have claims : (exchange.leaving ref).claims = exchange.claims := rfl
  simp only [receipt, leaving_channel has, firstUnclaimed_congr claims]

/-- What a receiver that does not wait does, as it reports, with its answer. -/
inductive Receives (before : Exchange) (ref : ChanRef) :
    Report → Option (Option Value) → Exchange → Prop
  | takes {value : Value} {rest : List Value} : (before.channel ref).buffer = value :: rest →
    Receives before ref (.taken ref value ((before.channel ref).taken + 1)) (some (some value))
      (before.update ref fun channel =>
        { channel with buffer := rest, taken := channel.taken + 1 }).notify
  | ends : (before.channel ref).buffer = [] → (before.channel ref).closed = true →
    Receives before ref (.ended ref) (some none) before
  | claims {offer : Offer} {rest : List Offer} : (before.channel ref).buffer = [] →
    (before.channel ref).closed = false →
    before.firstUnclaimed (before.channel ref).offers = some (offer, rest) →
    Receives before ref (.handed ref offer) (some (some offer.value))
      { before.update ref ({ · with offers := rest }) with
        claims := before.claims.setIfInBounds offer.claim.index (some offer.case) }.notify
  | waits : (before.channel ref).buffer = [] → (before.channel ref).closed = false →
    before.firstUnclaimed (before.channel ref).offers = none →
    Receives before ref .notReady none (before.update ref ({ · with offers := [] }))

theorem tryRecv_receives (exchange : Exchange) (ref : ChanRef) :
    exchange.Receives ref (exchange.receipt ref) (exchange.tryRecv ref).1
      (exchange.tryRecv ref).2 := by
  cases buffered : (exchange.channel ref).buffer with
  | cons value rest =>
    simp only [receipt, tryRecv, Channel.isReadable, take, buffered]
    exact .takes buffered
  | nil =>
    cases isClosed : (exchange.channel ref).closed with
    | true =>
      simp only [receipt, tryRecv, Channel.isReadable, take, buffered, isClosed]
      exact .ends buffered isClosed
    | false =>
      cases found : exchange.firstUnclaimed (exchange.channel ref).offers with
      | none =>
        simp only [receipt, tryRecv, Channel.isReadable, claimOffer, buffered, isClosed, found]
        exact .waits buffered isClosed found
      | some taken =>
        simp only [receipt, tryRecv, Channel.isReadable, claimOffer, buffered, isClosed, found]
        exact .claims buffered isClosed found

theorem Receives.answer {report : Report} {answer : Option (Option Value)} {later : Exchange}
    (receives : exchange.Receives ref report answer later) : answer = report.receives := by
  cases receives <;> rfl

theorem look_eq (blocked : exchange.canRecv ref = false) :
    (exchange.claimOffer ref).2 = exchange.update ref ({ · with offers := [] }) := by
  simp only [canRecv, Bool.or_eq_false_iff] at blocked
  simp only [claimOffer, firstUnclaimed_eq_none.mpr blocked.2]

/-- The exchange as a receiver leaves it, or the same with one receiver less that is counted. -/
def Uncounts (before base : Exchange) (ref : ChanRef) : Prop := base = before ∨ base = before.leaving ref

inductive Performs (before : Exchange) : Section → Report → Exchange → Prop
  | creates {capacity : Nat} :
    Performs before (.newChannel capacity) .none (before.newChannel capacity).2
  | begins : Performs before .newClaim .none before.newClaim.2
  | accepts {act : Section} {ref : ChanRef} {value : Value} :
    act = .send ref value ∨ act = .trySend ref value → before.Has ref →
    (before.channel ref).closed = false →
    (before.channel ref).buffer.length < (before.channel ref).bound →
    Performs before act (.accepted ref value ((before.channel ref).sent + 1))
      (before.update ref (·.push value)).notify
  | refuses {act : Section} {error : RuntimeError} : Performs before act (.refused error) before
  | declines {ref : ChanRef} {value : Value} : Performs before (.trySend ref value) .notReady before
  | enters {ref : ChanRef} : before.Has ref →
    Performs before (.enterRecv ref) .none (before.enterRecv ref)
  | receives {act : Section} {ref : ChanRef} {base later : Exchange} {report : Report}
      {answer : Option (Option Value)} :
    before.Has ref → before.Uncounts base ref → base.Receives ref report answer later →
    Performs before act report later
  | looks {ref : ChanRef} : before.Has ref →
    Performs before (.look ref) .notReady (before.update ref ({ · with offers := [] }))
  | closes {ref : ChanRef} : before.Has ref → (before.channel ref).closed = false →
    Performs before (.close ref) (.closed ref)
      (before.update ref ({ · with closed := true })).notify
  | holds {ref : ChanRef} {offer : Offer} {announce : Bool} {later : Exchange} : before.Has ref →
    offer.claim.index < before.claims.size →
    (later = before.update ref (fun channel =>
        { channel with offers := channel.offers ++ [offer] }) ∨
      later = (before.update ref fun channel =>
        { channel with offers := channel.offers ++ [offer] }).notify) →
    Performs before (.offer ref offer announce) (.held ref offer) later
  | passes {ref : ChanRef} {offer : Offer} {announce : Bool} :
    Performs before (.offer ref offer announce) .none before
  | withdraws {ref : ChanRef} {claim : ClaimRef} : before.Has ref →
    Performs before (.withdraw ref claim) .none (before.withdraw ref claim)

theorem performs {act : Section} (allowed : exchange.Allows act) :
    exchange.Performs act (exchange.perform act).1 (exchange.perform act).2 := by
  cases act with
  | newChannel capacity => exact .creates
  | newClaim => exact .begins
  | send ref value =>
    rw [perform_send]
    split
    · exact .refuses
    · next isOpen =>
      have isOpen := eq_false_of_ne_true isOpen
      exact .accepts (.inl rfl) allowed.1 isOpen (Channel.lt_bound_of_hasRoom isOpen allowed.2)
  | trySend ref value =>
    rw [perform_trySend]
    split
    · exact .refuses
    · next isOpen =>
      split
      · next accepts =>
        exact .accepts (.inr rfl) allowed (eq_false_of_ne_true isOpen)
          (Channel.lt_bound_of_accepts accepts)
      · exact .declines
  | enterRecv ref => exact .enters allowed
  | leaveRecv ref =>
    simp only [perform, leaveRecv_eq allowed.1, ← receipt_leaving allowed.1]
    exact .receives allowed.1 (.inr rfl) (tryRecv_receives _ _)
  | look ref =>
    simp only [perform, look_eq allowed.2]
    exact .looks allowed.1
  | tryRecv ref => exact .receives allowed (.inl rfl) (tryRecv_receives _ _)
  | close ref =>
    rw [perform_close]
    split
    · exact .refuses
    · next isOpen => exact .closes allowed (eq_false_of_ne_true isOpen)
  | offer ref offer announce =>
    simp only [perform, Exchange.offer]
    split
    · exact .passes
    · refine .holds allowed.1 allowed.2 ?_
      split
      · exact .inr rfl
      · exact .inl rfl
  | withdraw ref claim => exact .withdraws allowed

section Performs

variable {act : Section} {report : Report} {answer : Option (Option Value)} {base later : Exchange}

theorem Uncounts.channel_ne {other : ChanRef} (uncounts : exchange.Uncounts base other)
    (differs : ref ≠ other) : base.channel ref = exchange.channel ref := by
  rcases uncounts with rfl | rfl
  · rfl
  · exact channel_update_ne differs

theorem Uncounts.channel (uncounts : exchange.Uncounts base ref) (has : exchange.Has ref) :
    ∃ waiting, base.channel ref = { exchange.channel ref with waiting } ∧
      (exchange.channel ref).waiting ≤ waiting + 1 := by
  rcases uncounts with rfl | rfl
  · exact ⟨_, rfl, Nat.le_succ _⟩
  · exact ⟨_, leaving_channel has, Nat.le_add_of_sub_le (Nat.le_refl _)⟩

theorem Uncounts.capacity {other : ChanRef} (uncounts : exchange.Uncounts base other)
    (has : exchange.Has ref) : (base.channel ref).capacity = (exchange.channel ref).capacity := by
  by_cases here : ref = other
  · subst here
    obtain ⟨waiting, same, -⟩ := uncounts.channel has
    rw [same]
  · rw [uncounts.channel_ne here]

theorem Uncounts.has {other : ChanRef} (uncounts : exchange.Uncounts base other) :
    base.Has ref ↔ exchange.Has ref := by
  rcases uncounts with rfl | rfl
  · exact Iff.rfl
  · exact has_update

theorem Uncounts.claims (uncounts : exchange.Uncounts base ref) : base.claims = exchange.claims := by
  rcases uncounts with rfl | rfl <;> rfl

theorem Receives.channel_ne {other : ChanRef} (receives : exchange.Receives other report answer later)
    (differs : ref ≠ other) : later.channel ref = exchange.channel ref ∧ ¬report.Touches ref := by
  cases receives with
  | takes => exact ⟨channel_update_ne differs, fun same => differs same.symm⟩
  | ends => exact ⟨rfl, id⟩
  | claims => exact ⟨channel_update_ne differs, id⟩
  | waits => exact ⟨channel_update_ne differs, id⟩

theorem Receives.has (receives : exchange.Receives ref report answer later) {other : ChanRef} :
    later.Has other ↔ exchange.Has other := by
  cases receives with
  | takes | claims | waits => exact has_update
  | ends => exact Iff.rfl

theorem Receives.moves (receives : base.Receives ref report answer later)
    (uncounts : exchange.Uncounts base ref) (has : exchange.Has ref) :
    (exchange.channel ref).Moves ref (later.channel ref) report := by
  obtain ⟨waiting, same, less⟩ := uncounts.channel has
  have hasBase := uncounts.has.mpr has
  cases receives with
  | takes buffered =>
    rw [channel_notify, channel_update hasBase]
    rw [same] at buffered ⊢
    exact .takes buffered less rfl
  | ends empty isClosed =>
    rw [same] at empty ⊢
    exact .rests id (.inr empty) (List.Subset.refl _) rfl
  | claims empty isOpen found =>
    obtain ⟨-, inside, -⟩ := firstUnclaimed_some found
    rw [same] at empty inside
    exact .rests id (.inr empty) inside ((channel_update hasBase).trans (by rw [same]))
  | waits empty isOpen found =>
    rw [channel_update hasBase]
    rw [same] at empty ⊢
    exact .rests id (.inr empty) (List.nil_subset _) rfl

theorem update_moves {other : ChanRef} {change : Channel → Channel} (has : exchange.Has other)
    (same : later = exchange.update other change ∨ later = (exchange.update other change).notify)
    (moves : (exchange.channel other).Moves other (change (exchange.channel other)) report)
    (untouched : ref ≠ other → ¬report.Touches ref) :
    (exchange.channel ref).Moves ref (later.channel ref) report := by
  have view : later.channel ref = (exchange.update other change).channel ref := by
    rcases same with rfl | rfl <;> rfl
  rw [view]
  by_cases here : ref = other
  · subst here
    rw [channel_update has]
    exact moves
  · rw [channel_update_ne here]
    exact .keeps (untouched here)

theorem Performs.moves (performs : exchange.Performs act report later) (ref : ChanRef) :
    (exchange.channel ref).Moves ref (later.channel ref) report := by
  cases performs with
  | @creates capacity =>
    by_cases has : exchange.Has ref
    · have same : (exchange.newChannel capacity).2.channel ref = exchange.channel ref := by
        simp [newChannel, channel, Array.getElem?_push, Nat.ne_of_lt has]
      exact same ▸ .keeps id
    · by_cases last : ref.index = exchange.channels.size
      · have same : (exchange.newChannel capacity).2.channel ref = { capacity } := by
          simp [newChannel, channel, last]
        exact .begins id (channel_absent has) same
      · have absent : ¬(exchange.newChannel capacity).2.Has ref := by
          simp only [Has, newChannel, Array.size_push] at has ⊢
          omega
        exact .begins id (channel_absent has) (channel_absent absent)
  | begins | refuses | declines | passes => exact .keeps id
  | accepts _ has isOpen room =>
    exact update_moves has (.inr rfl) (.accepts isOpen room rfl) fun differs same => differs same.symm
  | enters has =>
    exact update_moves has (.inr rfl)
      (.rests id (.inl (Nat.le_succ _)) (List.Subset.refl _) rfl) fun _ => id
  | @receives _ other base _ _ _ has uncounts receives =>
    by_cases here : ref = other
    · subst here
      exact receives.moves uncounts has
    · obtain ⟨unchanged, untouched⟩ := receives.channel_ne here
      rw [unchanged, uncounts.channel_ne here]
      exact .keeps untouched
  | looks has =>
    exact update_moves has (.inl rfl)
      (.rests id (.inl (Nat.le_refl _)) (List.nil_subset _) rfl) fun _ => id
  | closes has isOpen =>
    exact update_moves has (.inr rfl) (.closes isOpen rfl) fun differs same => differs same.symm
  | holds has _ same =>
    exact update_moves has same (.holds rfl) fun differs same => differs same.symm
  | withdraws has =>
    exact update_moves has (.inl rfl)
      (.rests id (.inl (Nat.le_refl _)) List.filter_sublist.subset rfl) fun _ => id

theorem Performs.has (performs : exchange.Performs act report later) (has : exchange.Has ref) :
    later.Has ref := by
  cases performs with
  | creates =>
    simp only [Has, newChannel, Array.size_push] at has ⊢
    omega
  | begins | refuses | declines | passes => exact has
  | accepts | enters | looks | closes | withdraws => exact has_update.mpr has
  | receives _ uncounts receives => exact receives.has.mpr (uncounts.has.mpr has)
  | holds _ _ same => rcases same with rfl | rfl <;> exact has_update.mpr has

/-- What a section does to the claims, and what it reports. -/
inductive Claims (before after : Exchange) : Report → Prop
  | hands {ref : ChanRef} {offer : Offer} : offer ∈ (before.channel ref).offers →
    before.claimed? offer.claim = none → (before.channel ref).buffer = [] →
    (before.channel ref).closed = false →
    after.claims = before.claims.setIfInBounds offer.claim.index (some offer.case) →
    Claims before after (.handed ref offer)
  | rests {report : Report} : (∀ ref offer, report ≠ .handed ref offer) →
    (after.claims = before.claims ∨ after.claims = before.claims.push none) →
    Claims before after report

theorem Receives.changes (receives : base.Receives ref report answer later)
    (uncounts : exchange.Uncounts base ref) (has : exchange.Has ref) :
    exchange.Claims later report := by
  obtain ⟨waiting, same, -⟩ := uncounts.channel has
  cases receives with
  | takes | ends | waits => exact .rests (by simp) (.inl uncounts.claims)
  | claims empty isOpen found =>
    obtain ⟨member, -, unclaimed⟩ := firstUnclaimed_some found
    rw [same] at member empty isOpen
    have none := Option.isNone_iff_eq_none.mp unclaimed
    rw [uncounts.claims] at none
    exact .hands member none empty isOpen (by rw [← uncounts.claims]; rfl)

theorem Performs.changes (performs : exchange.Performs act report later) :
    exchange.Claims later report := by
  cases performs with
  | begins => exact .rests (by simp) (.inr rfl)
  | receives has uncounts receives => exact receives.changes uncounts has
  | holds _ _ same => exact .rests (by simp) (.inl (by rcases same with rfl | rfl <;> rfl))
  | _ => exact .rests (by simp) (.inl rfl)

theorem Performs.offers (performs : exchange.Performs act report later) {offer : Offer}
    (member : offer ∈ (later.channel ref).offers) :
    offer ∈ (exchange.channel ref).offers ∨ report = .held ref offer := by
  have moves := performs.moves ref
  generalize later.channel ref = after at moves member
  cases moves with
  | begins _ _ same =>
    subst same
    simp at member
  | accepts _ _ same | takes _ _ same | closes _ same =>
    subst same
    exact .inl member
  | holds same =>
    subst same
    rcases List.mem_append.mp member with older | newer
    · exact .inl older
    · exact .inr (by rw [List.mem_singleton.mp newer])
  | rests _ _ inside same =>
    subst same
    exact .inl (inside member)

theorem Performs.held {offer : Offer} (performs : exchange.Performs act (.held ref offer) later) :
    offer.claim.index < exchange.claims.size ∧ ∃ announce, act = .offer ref offer announce := by
  cases performs with
  | receives _ _ receives => cases receives
  | holds _ inside _ => exact ⟨inside, _, rfl⟩

theorem Performs.ended (performs : exchange.Performs act (.ended ref) later) :
    (exchange.channel ref).closed = true ∧ (exchange.channel ref).buffer = [] := by
  cases performs with
  | receives has uncounts receives =>
    cases receives with
    | ends empty isClosed =>
      obtain ⟨waiting, same, -⟩ := uncounts.channel has
      rw [same] at empty isClosed
      exact ⟨isClosed, empty⟩

theorem Performs.refused {error : RuntimeError}
    (performs : exchange.Performs act (.refused error) later) : later = exchange := by
  cases performs with
  | refuses => rfl
  | receives _ _ receives => cases receives

end Performs

end Exchange

end MiniGo
