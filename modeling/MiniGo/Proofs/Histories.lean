import MiniGo.Proofs.Sections
/-!
What has gone through the channels. The reports of all sections so far account for the state they have
led to: the values that a channel has accepted are those taken from it, in the same order, and those
still in its buffer; a value that a select holds out goes to one receiver at most.
-/

namespace MiniGo

section Reports

variable {ref : ChanRef} {reports : List Report} {report : Report}

theorem acceptedBy_append :
    acceptedBy ref (reports ++ [report]) = acceptedBy ref reports ++ (report.acceptedOn ref).toList := by
  cases same : report.acceptedOn ref <;> simp [acceptedBy, same]

theorem takenFrom_append :
    takenFrom ref (reports ++ [report]) = takenFrom ref reports ++ (report.takenOn ref).toList := by
  cases same : report.takenOn ref <;> simp [takenFrom, same]

theorem Report.acceptedOn_untouched (untouched : ¬report.Touches ref) :
    report.acceptedOn ref = Option.none := by
  cases report <;> simp_all [Report.acceptedOn, Report.Touches]

theorem Report.takenOn_untouched (untouched : ¬report.Touches ref) :
    report.takenOn ref = Option.none := by
  cases report <;> simp_all [Report.takenOn, Report.Touches]

end Reports

namespace Channel

/-- The reports account for the state of a channel. -/
structure Accounts (channel : Channel) (ref : ChanRef) (reports : List Report) : Prop where
  order : acceptedBy ref reports = takenFrom ref reports ++ channel.buffer
  sent : channel.sent = (acceptedBy ref reports).length
  taken : channel.taken = (takenFrom ref reports).length
  bound : channel.buffer.length ≤ channel.bound
  tickets : ∀ value ticket, .accepted ref value ticket ∈ reports →
    0 < ticket ∧ (acceptedBy ref reports)[ticket - 1]? = some value
  numbers : ∀ value number, .taken ref value number ∈ reports ↔
    0 < number ∧ (takenFrom ref reports)[number - 1]? = some value

variable {before after : Channel} {ref : ChanRef} {reports : List Report} {report : Report}

theorem Accounts.carry (accounts : before.Accounts ref reports)
    (accepted : report.acceptedOn ref = none) (taken : report.takenOn ref = none)
    (buffer : after.buffer = before.buffer) (counts : after.sent = before.sent ∧
      after.taken = before.taken) (bound : after.buffer.length ≤ after.bound) :
    after.Accounts ref (reports ++ [report]) := by
  have sameAccepted : acceptedBy ref (reports ++ [report]) = acceptedBy ref reports := by
    simp [acceptedBy_append, accepted]
  have sameTaken : takenFrom ref (reports ++ [report]) = takenFrom ref reports := by
    simp [takenFrom_append, taken]
  refine ⟨?_, ?_, ?_, bound, fun value ticket member => ?_, fun value number => ?_⟩
  · rw [sameAccepted, sameTaken, buffer]
    exact accounts.order
  · rw [sameAccepted, counts.1]
    exact accounts.sent
  · rw [sameTaken, counts.2]
    exact accounts.taken
  · rw [sameAccepted]
    rcases List.mem_append.mp member with older | newer
    · exact accounts.tickets value ticket older
    · rw [← List.mem_singleton.mp newer] at accepted
      simp [Report.acceptedOn] at accepted
  · have differs : Report.taken ref value number ≠ report := by
      rintro rfl
      simp [Report.takenOn] at taken
    rw [sameTaken, List.mem_append, List.mem_singleton, or_iff_left differs]
    exact accounts.numbers value number

theorem Accounts.accepts (accounts : before.Accounts ref reports) {value : Value}
    (room : before.buffer.length < before.bound) :
    (before.push value).Accounts ref (reports ++ [.accepted ref value (before.sent + 1)]) := by
  have accepted : acceptedBy ref (reports ++ [.accepted ref value (before.sent + 1)]) =
      acceptedBy ref reports ++ [value] := by
    simp [acceptedBy_append, Report.acceptedOn]
  have taken : takenFrom ref (reports ++ [.accepted ref value (before.sent + 1)]) =
      takenFrom ref reports := by
    simp [takenFrom_append, Report.takenOn]
  refine ⟨?_, ?_, ?_, ?_, fun found ticket member => ?_, fun found number => ?_⟩
  · simp [accepted, taken, accounts.order, push]
  · rw [accepted, List.length_append, ← accounts.sent]
    rfl
  · rw [taken]
    exact accounts.taken
  · have same : (before.push value).bound = before.bound := rfl
    rw [same, push, List.length_append]
    exact room
  · rw [accepted]
    rcases List.mem_append.mp member with older | newer
    · obtain ⟨positive, there⟩ := accounts.tickets found ticket older
      exact ⟨positive, by rw [List.getElem?_append_left (List.getElem?_eq_some_iff.mp there).1, there]⟩
    · cases List.mem_singleton.mp newer
      exact ⟨Nat.succ_pos _, by simp [accounts.sent]⟩
  · simp [taken, accounts.numbers found number]

theorem Accounts.takes (accounts : before.Accounts ref reports) {value : Value} {rest : List Value}
    {waiting : Nat} (buffered : before.buffer = value :: rest) (less : before.waiting ≤ waiting + 1) :
    Accounts { before with buffer := rest, taken := before.taken + 1, waiting } ref
      (reports ++ [.taken ref value (before.taken + 1)]) := by
  have accepted : acceptedBy ref (reports ++ [.taken ref value (before.taken + 1)]) =
      acceptedBy ref reports := by
    simp [acceptedBy_append, Report.acceptedOn]
  have taken : takenFrom ref (reports ++ [.taken ref value (before.taken + 1)]) =
      takenFrom ref reports ++ [value] := by
    simp [takenFrom_append, Report.takenOn]
  refine ⟨?_, ?_, ?_, ?_, fun found ticket member => ?_, fun found number => ?_⟩
  · simp [accepted, taken, accounts.order, buffered]
  · rw [accepted]
    exact accounts.sent
  · rw [taken, List.length_append, ← accounts.taken]
    rfl
  · have bound := accounts.bound
    rw [buffered] at bound
    unfold Channel.bound at bound ⊢
    dsimp only [List.length_cons] at bound ⊢
    split <;> rename_i capacity <;> simp only [capacity, if_true, if_false] at bound <;> omega
  · rw [accepted]
    exact accounts.tickets found ticket (by simpa using member)
  · rw [taken, accounts.taken, List.mem_append, List.mem_singleton, accounts.numbers found number]
    constructor
    · rintro (⟨positive, there⟩ | same)
      · exact ⟨positive,
          by rw [List.getElem?_append_left (List.getElem?_eq_some_iff.mp there).1, there]⟩
      · cases same
        exact ⟨Nat.succ_pos _, by simp⟩
    · rintro ⟨positive, there⟩
      rcases Nat.lt_or_ge (number - 1) (takenFrom ref reports).length with older | newer
      · exact .inl ⟨positive, by rwa [List.getElem?_append_left older] at there⟩
      · rw [List.getElem?_append_right newer] at there
        obtain ⟨last, same⟩ := List.getElem?_eq_some_iff.mp there
        have isLast : number = (takenFrom ref reports).length + 1 := by
          simp only [List.length_singleton] at last
          omega
        refine .inr ?_
        rw [isLast]
        simpa [isLast] using same.symm

theorem Accounts.moves (accounts : before.Accounts ref reports) (moves : before.Moves ref after report) :
    after.Accounts ref (reports ++ [report]) := by
  cases moves with
  | begins untouched fresh same =>
    subst fresh same
    exact accounts.carry (Report.acceptedOn_untouched untouched)
      (Report.takenOn_untouched untouched) rfl ⟨rfl, rfl⟩ (Nat.zero_le _)
  | accepts isOpen room same => exact same ▸ accounts.accepts room
  | takes buffered less same => exact same ▸ accounts.takes buffered less
  | closes isOpen same => exact same ▸ accounts.carry rfl rfl rfl ⟨rfl, rfl⟩ accounts.bound
  | holds same => exact same ▸ accounts.carry rfl rfl rfl ⟨rfl, rfl⟩ accounts.bound
  | rests untouched less inside same =>
    subst same
    refine accounts.carry (Report.acceptedOn_untouched untouched)
      (Report.takenOn_untouched untouched) rfl ⟨rfl, rfl⟩ ?_
    rcases less with less | empty
    · have bound := accounts.bound
      unfold Channel.bound at bound ⊢
      dsimp only
      split <;> rename_i capacity <;> simp only [capacity, if_true, if_false] at bound <;> omega
    · simp [empty]

end Channel

namespace Exchange

section Claimed

variable {exchange later : Exchange} {report : Report}

theorem Claims.claimed (claims : exchange.Claims later report)
    (inside : ∀ ref, ∀ offer ∈ (exchange.channel ref).offers,
      offer.claim.index < exchange.claims.size) (claim : ClaimRef) :
    (report.isHanded claim = false ∧ later.claimed? claim = exchange.claimed? claim) ∨
      ∃ ref offer, report = .handed ref offer ∧ offer ∈ (exchange.channel ref).offers ∧
        offer.claim = claim ∧ exchange.claimed? claim = none ∧
        later.claimed? claim = some offer.case := by
  cases claims with
  | @hands ref offer member unclaimed empty isOpen same =>
    by_cases own : offer.claim = claim
    · refine .inr ⟨ref, offer, rfl, member, own, own ▸ unclaimed, ?_⟩
      have bound := inside ref offer member
      rw [own] at same bound
      simp [claimed?, same, bound]
    · have index : offer.claim.index ≠ claim.index := fun eq => own (by
        cases claim
        cases found : offer.claim
        simp_all)
      refine .inl ⟨by simp [Report.isHanded, own], ?_⟩
      simp [claimed?, same, index]
  | rests unhanded same =>
    refine .inl ⟨?_, ?_⟩
    · cases report <;> simp_all [Report.isHanded]
    · rcases same with same | same
      · simp [claimed?, same]
      · by_cases last : claim.index = exchange.claims.size
        · simp [claimed?, same, last]
        · simp [claimed?, same, Array.getElem?_push, last]

theorem Claims.size_le (claims : exchange.Claims later report) :
    exchange.claims.size ≤ later.claims.size := by
  cases claims with
  | hands _ _ _ _ same => simp [same]
  | rests _ same => rcases same with same | same <;> simp [same]

end Claimed

/-- The reports account for all channels and claims. -/
structure Accounts (exchange : Exchange) (reports : List Report) : Prop where
  channels : ∀ ref, (exchange.channel ref).Accounts ref reports
  claims : ∀ claim, reports.countP (·.isHanded claim) = (exchange.claimed? claim).toList.length
  offers : ∀ ref, ∀ offer ∈ (exchange.channel ref).offers, offer.claim.index < exchange.claims.size

theorem Accounts.step {exchange later : Exchange} {reports : List Report} {act : Section}
    {report : Report} (accounts : exchange.Accounts reports)
    (performs : exchange.Performs act report later) : later.Accounts (reports ++ [report]) := by
  refine ⟨fun ref => (accounts.channels ref).moves (performs.moves ref), fun claim => ?_,
    fun ref offer member => ?_⟩
  · rw [List.countP_append, accounts.claims claim]
    rcases performs.changes.claimed accounts.offers claim with ⟨unhanded, same⟩ |
      ⟨ref, offer, rfl, -, own, none, some⟩
    · simp [unhanded, same]
    · simp [Report.isHanded, own, none, some]
  · refine Nat.lt_of_lt_of_le ?_ performs.changes.size_le
    rcases performs.offers member with older | rfl
    · exact accounts.offers ref offer older
    · exact performs.held.1

theorem Reaches.accounts {exchange : Exchange} {reports : List Report}
    (reaches : Reaches {} reports exchange) : exchange.Accounts reports := by
  induction reaches with
  | refl =>
    have channel (ref : ChanRef) : Exchange.channel {} ref = { capacity := 0 } := by
      simp [Exchange.channel]
    refine ⟨fun ref => ?_, fun claim => ?_, fun ref offer member => ?_⟩
    · rw [channel]
      exact ⟨rfl, rfl, rfl, Nat.zero_le _, by simp, by simp [takenFrom]⟩
    · simp [claimed?]
    · simp [channel] at member
  | step act _ allowed ih => exact ih.step (performs allowed)

section Sequences

variable {start middle final : Exchange} {first second : List Report} {ref : ChanRef}

theorem Reaches.trans (left : start.Reaches first middle) (right : middle.Reaches second final) :
    start.Reaches (first ++ second) final := by
  induction right with
  | refl => simpa using left
  | step act _ allowed ih =>
    rw [← List.append_assoc]
    exact .step act ih allowed

theorem Reaches.one (act : Section) (allowed : start.Allows act) :
    start.Reaches [(start.perform act).1] (start.perform act).2 := .step act .refl allowed

theorem Reaches.has (reaches : start.Reaches first middle) (has : start.Has ref) : middle.Has ref := by
  induction reaches with
  | refl => exact has
  | step act _ allowed ih => exact (performs allowed).has ih

theorem Reaches.closed (reaches : start.Reaches first middle)
    (isClosed : (start.channel ref).closed = true) :
    (middle.channel ref).closed = true ∧ acceptedBy ref first = [] ∧
      ((start.channel ref).buffer = [] → (middle.channel ref).buffer = []) := by
  induction reaches with
  | refl => exact ⟨isClosed, rfl, id⟩
  | @step exchange reports act _ allowed ih =>
    obtain ⟨isClosed, none, empty⟩ := ih
    have moves := (performs allowed).moves ref
    rw [acceptedBy_append, none]
    generalize (exchange.perform act).1 = report at moves
    generalize (exchange.perform act).2.channel ref = after at moves
    cases moves with
    | begins _ fresh => simp [fresh] at isClosed
    | accepts isOpen | closes isOpen => simp [isClosed] at isOpen
    | takes buffered _ same =>
      subst same
      refine ⟨isClosed, rfl, fun isEmpty => ?_⟩
      simp [empty isEmpty] at buffered
    | holds same =>
      subst same
      exact ⟨isClosed, rfl, empty⟩
    | rests untouched _ _ same =>
      subst same
      exact ⟨isClosed, by simp [Report.acceptedOn_untouched untouched], empty⟩

end Sequences

theorem receipt_closed {exchange : Exchange} {ref : ChanRef}
    (isClosed : (exchange.channel ref).closed = true) (empty : (exchange.channel ref).buffer = []) :
    exchange.receipt ref = .ended ref := by
  simp [receipt, empty, isClosed]

theorem leaveRecv_answer {exchange : Exchange} {ref : ChanRef} (has : exchange.Has ref)
    (arrived : exchange.canRecv ref = true) :
    some (exchange.leaveRecv ref).1 = (exchange.receipt ref).receives := by
  have answer := (tryRecv_receives (exchange.leaving ref) ref).answer
  rw [receipt_leaving has] at answer
  rw [leaveRecv_eq has, answer]
  have receives := tryRecv_receives exchange ref
  generalize exchange.receipt ref = report, (exchange.tryRecv ref).1 = told,
    (exchange.tryRecv ref).2 = later at receives
  cases receives with
  | takes | ends | claims => rfl
  | waits empty isOpen none =>
    rw [firstUnclaimed_eq_none] at none
    simp [canRecv, Channel.isReadable, empty, isOpen, none] at arrived

structure Orderly (exchange : Exchange) (act : Section) : Prop where
  /-- A receiver is told what the section reports. -/
  told : ∀ ref, (act = .tryRecv ref → (exchange.perform act).1.receives = (exchange.tryRecv ref).1) ∧
    (act = .leaveRecv ref → (exchange.perform act).1.receives = some (exchange.leaveRecv ref).1)
  /-- Values that are held out are handed over on open channels with nothing in the buffer. -/
  handed : ∀ ref offer, (exchange.perform act).1 = .handed ref offer →
    offer ∈ (exchange.channel ref).offers ∧ (exchange.channel ref).buffer = [] ∧
      (exchange.channel ref).closed = false
  /-- A receiver is at the end only where the channel is closed and nothing is in the buffer. -/
  ended : ∀ ref, (exchange.perform act).1 = .ended ref →
    (exchange.channel ref).closed = true ∧ (exchange.channel ref).buffer = []
  /-- Sending and closing that fail change nothing. -/
  failed : (∀ error, (exchange.perform act).1 = .refused error → (exchange.perform act).2 = exchange) ∧
    ∀ ref value, act = .trySend ref value → (exchange.perform act).1 = .notReady →
      (exchange.perform act).2 = exchange

theorem orderly {exchange : Exchange} {act : Section} (allowed : exchange.Allows act) :
    exchange.Orderly act := by
  have performed := performs allowed
  refine ⟨fun ref => ⟨?_, ?_⟩, fun ref offer handed => ?_, fun ref ended => ?_,
    fun error refused => ?_, ?_⟩
  · rintro rfl
    exact (tryRecv_receives exchange ref).answer.symm
  · rintro rfl
    exact (leaveRecv_answer allowed.1 allowed.2).symm
  · have claims := performed.changes
    rw [handed] at claims
    cases claims with
    | hands member _ empty isOpen => exact ⟨member, empty, isOpen⟩
    | rests unhanded => exact absurd rfl (unhanded ref offer)
  · rw [ended] at performed
    exact performed.ended
  · rw [refused] at performed
    exact performed.refused
  · rintro ref value rfl notReady
    rw [perform_trySend] at notReady ⊢
    split
    · rfl
    · split
      · next isOpen accepts => simp [isOpen, accepts] at notReady
      · rfl

end Exchange

/-- A computation that works on the channels in sections only, whatever sections the others perform
while it waits. -/
def Outcome.InSections {α : Type} (start : Exchange) : Outcome α → Prop
  | .done _ world | .fail _ world => ∃ reports, start.Reaches reports world.exchange
  | .await wait world resume =>
    (∃ reports, start.Reaches reports world.exchange) ∧
      ∀ (later : World) (others : List Report), world.exchange.Reaches others later.exchange →
        wait.isOver later.exchange = true → (resume later).InSections later.exchange
  | .broken _ => True

namespace Run

variable {ref : ChanRef} {world : World}

theorem waitFor_bind {α : Type} (wait : Wait) (next : Run α) :
    (waitFor wait >>= fun _ => next) world =
      if wait.isOver world.exchange then next world else .await wait world next := by
  by_cases woken : wait.isOver world.exchange = true <;>
    simp [Bind.bind, bind, waitFor, woken, Outcome.bind]

def sendNow (ref : ChanRef) (value : Value) : Run Unit := fun world =>
  match world.exchange.send ref value with
  | .error error => .fail error world
  | .ok (ticket, exchange) =>
    if (exchange.channel ref).capacity = 0 then
      waitFor (.delivery ref ticket) { world with exchange }
    else .done () { world with exchange }

theorem send_eq (value : Value) : send ref value world =
    if (world.exchange.channel ref).hasRoom then sendNow ref value world
    else .await (.room ref) world (sendNow ref value) := by
  have rest : ((do
      let ticket ← tryExchange (·.send ref value)
      let capacity ← read (·.exchange.channel ref |>.capacity)
      if capacity = 0 then waitFor (.delivery ref ticket)) : Run Unit) = sendNow ref value := by
    funext world
    simp only [Bind.bind, bind, tryExchange, read, sendNow]
    cases world.exchange.send ref value with
    | error error => rfl
    | ok sent =>
      dsimp only
      split <;> rfl
  unfold send
  rw [rest]
  exact waitFor_bind _ _

theorem sendNow_inSections (value : Value) (has : world.exchange.Has ref)
    (room : (world.exchange.channel ref).hasRoom = true) :
    (sendNow ref value world).InSections world.exchange := by
  have sends : world.exchange.Reaches _ _ := .one (.send ref value) ⟨has, room⟩
  unfold sendNow
  cases sent : world.exchange.send ref value with
  | error error => exact ⟨_, .refl⟩
  | ok found =>
    obtain ⟨ticket, exchange⟩ := found
    simp only [Exchange.perform, sent] at sends
    dsimp only
    split
    · unfold waitFor
      split
      · exact ⟨_, sends⟩
      · exact ⟨⟨_, sends⟩, fun later others _ _ => ⟨_, .refl⟩⟩
    · exact ⟨_, sends⟩

theorem send_inSections (value : Value) (has : world.exchange.Has ref) :
    (send ref value world).InSections world.exchange := by
  rw [send_eq]
  split
  · next room => exact sendNow_inSections value has room
  · exact ⟨⟨_, .refl⟩, fun later others reaches room => sendNow_inSections value (reaches.has has) room⟩

theorem recv_eq (elem : Ty) : recv elem ref world =
    let entered := { world with exchange := world.exchange.enterRecv ref }
    let leaves : Run (Value × Bool) := fun world =>
      let (found, exchange) := world.exchange.leaveRecv ref
      .done (received elem found) { world with exchange }
    if entered.exchange.canRecv ref then leaves entered else .await (.arrival ref) entered leaves :=
  waitFor_bind _ _

theorem recv_inSections (elem : Ty) (has : world.exchange.Has ref) :
    (recv elem ref world).InSections world.exchange := by
  have enters : world.exchange.Reaches _ _ := .one (.enterRecv ref) has
  rw [recv_eq]
  dsimp only
  split
  · next arrived => exact ⟨_, enters.step (.leaveRecv ref) ⟨enters.has has, arrived⟩⟩
  · refine ⟨⟨_, enters⟩, fun later others reaches arrived => ?_⟩
    exact ⟨_, .one (.leaveRecv ref) ⟨reaches.has (enters.has has), arrived⟩⟩

theorem close_inSections (has : world.exchange.Has ref) :
    (close ref world).InSections world.exchange := by
  have closes : world.exchange.Reaches _ _ := .one (.close ref) has
  simp only [close, tryExchange]
  cases closed : world.exchange.close ref with
  | error error => exact ⟨_, .refl⟩
  | ok exchange =>
    simp only [Exchange.perform, closed] at closes
    exact ⟨_, closes⟩

theorem newChan_inSections (elem : Ty) (capacity : Nat) :
    (newChan elem capacity world).InSections world.exchange :=
  ⟨_, .one (.newChannel capacity) trivial⟩

end Run

/-- Whatever any number of parties do with channels, in whatever order: the values that a channel has
accepted are those taken from it, in this order, and then those in its buffer, and its counters tell how
many they are; the buffer stays within its bound; a sender knows by its ticket when its value has been
taken; and of the values that a select holds out one is handed over, once, at most. Each further
section is orderly, and after a channel is closed it accepts nothing; once it has been emptied as well,
all that a receiver finds there is the end. What running code does with a channel is such sections, and
others can come in between only where it waits. -/
theorem channels_keep_order {exchange : Exchange} {reports : List Report}
    (reaches : Exchange.Reaches {} reports exchange) :
    (∀ ref, acceptedBy ref reports = takenFrom ref reports ++ (exchange.channel ref).buffer ∧
      (exchange.channel ref).sent = (acceptedBy ref reports).length ∧
      (exchange.channel ref).taken = (takenFrom ref reports).length ∧
      (0 < (exchange.channel ref).capacity →
        (exchange.channel ref).buffer.length ≤ (exchange.channel ref).capacity) ∧
      ((exchange.channel ref).capacity = 0 →
        (exchange.channel ref).buffer.length ≤ max 1 (exchange.channel ref).waiting) ∧
      ∀ value ticket, .accepted ref value ticket ∈ reports →
        (ticket ≤ (exchange.channel ref).taken ↔ .taken ref value ticket ∈ reports)) ∧
    (∀ claim, reports.countP (·.isHanded claim) ≤ 1) ∧
    (∀ act, exchange.Allows act → exchange.Orderly act) ∧
    (∀ ref more later, exchange.Reaches more later → (exchange.channel ref).closed = true →
      (later.channel ref).closed = true ∧ acceptedBy ref more = [] ∧
        ((exchange.channel ref).buffer = [] →
          (later.channel ref).buffer = [] ∧ later.receipt ref = .ended ref)) ∧
    ∀ world : World, world.exchange = exchange →
      (∀ elem capacity, (Run.newChan elem capacity world).InSections exchange) ∧
      ∀ ref, exchange.Has ref →
        (∀ value, (Run.send ref value world).InSections exchange) ∧
        (∀ elem, (Run.recv elem ref world).InSections exchange) ∧
        (Run.close ref world).InSections exchange := by
  have accounts := reaches.accounts
  refine ⟨fun ref => ?_, fun claim => ?_, fun act => Exchange.orderly,
    fun ref more later reaches isClosed => ?_, ?_⟩
  · obtain ⟨order, sent, taken, bound, tickets, numbers⟩ := accounts.channels ref
    refine ⟨order, sent, taken, fun positive => ?_, fun none => ?_, fun value ticket accepted => ?_⟩
    · simpa [Channel.bound, Nat.ne_of_gt positive] using bound
    · simpa [Channel.bound, none] using bound
    · obtain ⟨positive, there⟩ := tickets value ticket accepted
      rw [numbers value ticket, taken]
      -- the values taken are the first ones accepted
      rw [order] at there
      constructor
      · intro less
        exact ⟨positive, by rwa [List.getElem?_append_left (by omega)] at there⟩
      · rintro ⟨-, found⟩
        have inside := (List.getElem?_eq_some_iff.mp found).1
        omega
  · rw [accounts.claims claim]
    cases exchange.claimed? claim <;> simp
  · obtain ⟨still, none, empty⟩ := reaches.closed isClosed
    exact ⟨still, none, fun isEmpty => ⟨empty isEmpty, Exchange.receipt_closed still (empty isEmpty)⟩⟩
  · rintro world rfl
    exact ⟨Run.newChan_inSections, fun ref has => ⟨fun value => Run.send_inSections value has,
      fun elem => Run.recv_inSections elem has, Run.close_inSections has⟩⟩

/-- On a channel without capacity, an offer goes to a receiver, then a value goes through the buffer to
another one that has been waiting, then a sender leaves a value and the channel is closed. -/
theorem channels_keep_order_mixed : ∃ (exchange : Exchange) (reports : List Report),
    Exchange.Reaches {} reports exchange ∧ (exchange.channel ⟨0⟩).closed = true ∧
      reports.countP (·.isHanded ⟨0⟩) = 1 ∧ reports.countP (·.isHanded ⟨0⟩) ≤ 1 ∧
      (takenFrom ⟨0⟩ reports).length = 1 ∧ (exchange.channel ⟨0⟩).buffer.length = 1 ∧
      acceptedBy ⟨0⟩ reports = takenFrom ⟨0⟩ reports ++ (exchange.channel ⟨0⟩).buffer := by
  have made : Exchange.Reaches {} _ _ := .one (.newChannel 0) trivial
  have claim := made.step .newClaim trivial
  have held := claim.step (.offer ⟨0⟩ ⟨0, .int 5, ⟨0⟩⟩ true) (by decide)
  have handed := held.step (.tryRecv ⟨0⟩) (by decide)
  have entered := handed.step (.enterRecv ⟨0⟩) (by decide)
  have accepted := entered.step (.trySend ⟨0⟩ (.int 6)) (by decide)
  have taken := accepted.step (.leaveRecv ⟨0⟩) (by decide)
  have sent := taken.step (.send ⟨0⟩ (.int 7)) (by decide)
  have closed := sent.step (.close ⟨0⟩) (by decide)
  obtain ⟨channels, claims, -⟩ := channels_keep_order closed
  exact ⟨_, _, closed, by decide, by decide, claims _, by decide, by decide, (channels _).1⟩

end MiniGo
