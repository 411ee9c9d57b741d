import MiniGo.Proofs.Effects
import MiniGo.Proofs.Selections
/-!
Selects that nobody interferes with. The operands of all cases are evaluated first, in their order. When
no other party holds anything out or waits at the channels, the first case in order that is ready is
performed, a send that comes first on a closed channel is refused, and the default is taken when
nothing can be done. Of the channels, only the one that is communicated on changes.
-/

namespace MiniGo

namespace SelectCase

/-- The communication can be performed at once: there is space for a value, or a value, or the end. -/
inductive Ready (exchange : Exchange) : SelectCase → Prop
  | space {ref : ChanRef} {value : Value} : (exchange.channel ref).closed = false →
    (exchange.channel ref).buffer.length < (exchange.channel ref).capacity →
    Ready exchange (.send ref value)
  | value {elem : Ty} {ref : ChanRef} : (exchange.channel ref).buffer ≠ [] →
    Ready exchange (.recv elem ref)
  | ended {elem : Ty} {ref : ChanRef} : (exchange.channel ref).closed = true →
    Ready exchange (.recv elem ref)

/-- The communication is a send on a closed channel. -/
inductive Refused (exchange : Exchange) : SelectCase → Prop
  | closed {ref : ChanRef} {value : Value} : (exchange.channel ref).closed = true →
    Refused exchange (.send ref value)

def Idle (exchange : Exchange) (case : SelectCase) : Prop :=
  ¬case.Ready exchange ∧ ¬case.Refused exchange

/-- What the communication does to the channels, and what it receives with which flag. -/
inductive Performs (before : Exchange) : SelectCase → Option (Value × Bool) → Exchange → Prop
  | sent {ref : ChanRef} {value : Value} {after : Exchange} :
    after.channels = (before.update ref (·.push value)).channels →
    Performs before (.send ref value) none after
  | taken {elem : Ty} {ref : ChanRef} {value : Value} {rest : List Value} {after : Exchange} :
    (before.channel ref).buffer = value :: rest →
    after.channels = (before.update ref fun channel =>
      { channel with buffer := rest, taken := channel.taken + 1 }).channels →
    Performs before (.recv elem ref) (some (value, true)) after
  | ended {elem : Ty} {ref : ChanRef} {after : Exchange} :
    (before.channel ref).buffer = [] → (before.channel ref).closed = true →
    after.channels = before.channels →
    Performs before (.recv elem ref) (some (.zero elem, false)) after

def channel? : SelectCase → Option ChanRef
  | .send ref _ | .recv _ ref => some ref
  | .never => none

end SelectCase

def Exchange.Undisturbed (exchange : Exchange) (cases : List SelectCase) : Prop :=
  ∀ case ∈ cases, ∀ ref, case.channel? = some ref →
    (exchange.channel ref).offers = [] ∧ (exchange.channel ref).waiting = 0

/-- Nothing can be done about the cases before an index. -/
structure SelectCase.First (exchange : Exchange) (cases : List SelectCase) (index : Nat)
    (case : SelectCase) : Prop where
  found : cases[index]? = some case
  before : ∀ other ∈ cases.take index, other.Idle exchange

/-- How a select ends that nobody interferes with. Nothing is said about one that has to wait. -/
inductive Decides (others : World → World → Prop) (before : World) (cases : List SelectCase)
    (hasDefault : Bool) : Except RuntimeError Selected → World → Prop
  | performed {index : Nat} {case : SelectCase} {received : Option (Value × Bool)} {after : World} :
    SelectCase.First before.exchange cases index case → case.Ready before.exchange →
    case.Performs before.exchange received after.exchange →
    Decides others before cases hasDefault (.ok (.case index received)) after
  | refused {index : Nat} {case : SelectCase} {after : World} :
    SelectCase.First before.exchange cases index case → case.Refused before.exchange →
    after.exchange.channels = before.exchange.channels →
    Decides others before cases hasDefault (.error (.closedChannel .send)) after
  | default {chosen after : World} :
    (∀ case ∈ cases, case.Idle before.exchange) → hasDefault = true →
    chosen.exchange.channels = before.exchange.channels → others chosen after →
    Decides others before cases hasDefault (.ok .default) after
  | waits {result : Except RuntimeError Selected} {after : World} :
    (∀ case ∈ cases, case.Idle before.exchange) → hasDefault = false →
    Decides others before cases hasDefault result after

namespace Exchange

variable {exchange : Exchange} {ref : ChanRef}

theorem update_same {change : Channel → Channel}
    (same : change (exchange.channel ref) = exchange.channel ref) :
    exchange.update ref change = exchange := by
  have channels : exchange.channels.modify ref.index change = exchange.channels := by
    refine Array.ext_getElem? fun index => ?_
    rw [Array.getElem?_modify]
    split
    · rename_i isIndex
      subst isIndex
      cases found : exchange.channels[ref.index]? with
      | none => rfl
      | some channel =>
        simp only [Exchange.channel, Array.getD_eq_getD_getElem?, found, Option.getD_some] at same
        simp [same]
    · rfl
  unfold update
  rw [channels]

theorem claimOffer_none (none : (exchange.channel ref).offers = []) :
    exchange.claimOffer ref = (.none, exchange) := by
  simp only [claimOffer, none, firstUnclaimed]
  rw [update_same (by rw [← none])]

variable {case : SelectCase} {index : Nat}

theorem tryCase_taken {elem : Ty} {value : Value} {rest : List Value}
    (isBuffer : (exchange.channel ref).buffer = value :: rest) :
    ∃ after, exchange.tryCase index (.recv elem ref) =
        (.ok (some (.case index (some (value, true)))), after) ∧
      SelectCase.Performs exchange (.recv elem ref) (some (value, true)) after := by
  refine ⟨(exchange.update ref fun channel =>
    { channel with buffer := rest, taken := channel.taken + 1 }).notify, ?_, .taken isBuffer rfl⟩
  simp [tryCase, tryRecv, Channel.isReadable, take, isBuffer, received]

theorem tryCase_ready (ready : case.Ready exchange) :
    ∃ received after, exchange.tryCase index case = (.ok (some (.case index received)), after) ∧
      case.Performs exchange received after := by
  cases ready with
  | @space ref value isOpen space =>
    have hasCapacity : (exchange.channel ref).capacity ≠ 0 := by omega
    have sent : exchange.trySend ref value =
        .ok (true, (exchange.update ref (·.push value)).notify) := by
      simp [trySend, isOpen, Channel.accepts, hasCapacity, space, pure, Except.pure]
    refine ⟨none, (exchange.update ref (·.push value)).notify, ?_, .sent rfl⟩
    rw [tryCase, sent]
  | @value elem ref some =>
    obtain ⟨value, rest, isBuffer⟩ := List.exists_cons_of_ne_nil some
    exact ⟨_, tryCase_taken isBuffer⟩
  | @ended elem ref closed =>
    cases isBuffer : (exchange.channel ref).buffer with
    | nil =>
      refine ⟨_, exchange, ?_, .ended isBuffer closed rfl⟩
      simp [tryCase, tryRecv, Channel.isReadable, take, isBuffer, closed, received]
    | cons value rest => exact ⟨_, tryCase_taken isBuffer⟩

theorem tryCase_refused (refused : case.Refused exchange) :
    exchange.tryCase index case = (.error (.closedChannel .send), exchange) := by
  cases refused with
  | closed closed =>
    simp [tryCase, trySend, closed]
    rfl

theorem tryCase_idle (idle : case.Idle exchange)
    (undisturbed : ∀ ref, case.channel? = some ref →
      (exchange.channel ref).offers = [] ∧ (exchange.channel ref).waiting = 0) :
    exchange.tryCase index case = (.ok none, exchange) := by
  obtain ⟨notReady, notRefused⟩ := idle
  cases case with
  | never => rfl
  | send ref value =>
    obtain ⟨-, waiting⟩ := undisturbed ref rfl
    have isOpen : (exchange.channel ref).closed = false := by
      simpa using fun closed => notRefused (.closed closed)
    have full : (exchange.channel ref).accepts = false := by
      have noSpace := fun space => notReady (.space isOpen space)
      simp only [Channel.accepts, waiting]
      split
      · simp
      · simpa using noSpace
    simp [tryCase, trySend, isOpen, full]
    rfl
  | recv elem ref =>
    obtain ⟨offers, -⟩ := undisturbed ref rfl
    have isOpen : (exchange.channel ref).closed = false := by
      simpa using fun closed => notReady (.ended closed)
    have isEmpty : (exchange.channel ref).buffer = [] := by
      by_contra some
      exact notReady (.value some)
    simp [tryCase, tryRecv, Channel.isReadable, isOpen, isEmpty, claimOffer_none offers]

theorem tryCases_decides {cases : List SelectCase} {start : Nat}
    (undisturbed : exchange.Undisturbed cases) :
    (∃ index case received after, SelectCase.First exchange cases index case ∧ case.Ready exchange ∧
        case.Performs exchange received after ∧
        exchange.tryCases ((cases.zipIdx start).map fun (case, index) => (index, case)) =
          (.ok (some (.case (start + index) received)), after)) ∨
      (∃ index case, SelectCase.First exchange cases index case ∧ case.Refused exchange ∧
        exchange.tryCases ((cases.zipIdx start).map fun (case, index) => (index, case)) =
          (.error (.closedChannel .send), exchange)) ∨
      ((∀ case ∈ cases, case.Idle exchange) ∧
        exchange.tryCases ((cases.zipIdx start).map fun (case, index) => (index, case)) =
          (.ok none, exchange)) := by
  induction cases generalizing start with
  | nil => exact .inr (.inr ⟨by simp, rfl⟩)
  | cons first rest ih =>
    simp only [List.zipIdx_cons, List.map_cons, tryCases]
    by_cases ready : first.Ready exchange
    · obtain ⟨received, after, tried, performs⟩ := @tryCase_ready _ _ start ready
      rw [tried]
      exact .inl ⟨0, first, received, after, ⟨rfl, by simp⟩, ready, performs, rfl⟩
    by_cases refused : first.Refused exchange
    · rw [tryCase_refused refused]
      exact .inr (.inl ⟨0, first, ⟨rfl, by simp⟩, refused, rfl⟩)
    have idle : first.Idle exchange := ⟨ready, refused⟩
    rw [tryCase_idle idle (undisturbed first (.head _))]
    dsimp only
    obtain ⟨index, case, received, after, isFirst, isReady, performs, tried⟩ |
        ⟨index, case, isFirst, isRefused, tried⟩ | ⟨none, tried⟩ :=
      @ih (start + 1) fun case member => undisturbed case (.tail _ member)
    · refine .inl ⟨index + 1, case, received, after, ⟨isFirst.found, ?_⟩, isReady, performs, ?_⟩
      · exact List.forall_mem_cons.mpr ⟨idle, isFirst.before⟩
      · rw [tried, Nat.add_right_comm, Nat.add_assoc]
    · refine .inr (.inl ⟨index + 1, case, ⟨isFirst.found, ?_⟩, isRefused, tried⟩)
      exact List.forall_mem_cons.mpr ⟨idle, isFirst.before⟩
    · exact .inr (.inr ⟨List.forall_mem_cons.mpr ⟨idle, none⟩, tried⟩)

end Exchange

theorem SelectCase.ready_newClaim {exchange : Exchange} {case : SelectCase} :
    case.Ready exchange.newClaim.2 ↔ case.Ready exchange := by
  constructor
  · rintro (⟨isOpen, space⟩ | some | closed)
    · exact .space isOpen space
    · exact .value some
    · exact .ended closed
  · rintro (⟨isOpen, space⟩ | some | closed)
    · exact .space isOpen space
    · exact .value some
    · exact .ended closed

theorem SelectCase.refused_newClaim {exchange : Exchange} {case : SelectCase} :
    case.Refused exchange.newClaim.2 ↔ case.Refused exchange := by
  constructor
  · rintro ⟨closed⟩
    exact .closed closed
  · rintro ⟨closed⟩
    exact .closed closed

theorem SelectCase.idle_newClaim {exchange : Exchange} {case : SelectCase} :
    case.Idle exchange.newClaim.2 ↔ case.Idle exchange := by
  rw [Idle, Idle, ready_newClaim, refused_newClaim]

theorem SelectCase.First.of_newClaim {exchange : Exchange} {cases : List SelectCase} {index : Nat}
    {case : SelectCase} (first : First exchange.newClaim.2 cases index case) :
    First exchange cases index case :=
  ⟨first.found, fun other member => idle_newClaim.mp (first.before other member)⟩

theorem SelectCase.Performs.of_newClaim {exchange after : Exchange} {case : SelectCase}
    {received : Option (Value × Bool)} (performs : case.Performs exchange.newClaim.2 received after) :
    case.Performs exchange received after := by
  rcases performs with same | ⟨isBuffer, same⟩ | ⟨isEmpty, closed, same⟩
  · exact .sent same
  · exact .taken isBuffer same
  · exact .ended isEmpty closed same

section Run

variable {others : World → World → Prop} {fuel : Nat} {cases : List SelectCase} {hasDefault : Bool}
  {world later : World} {result : Except RuntimeError Selected}

theorem Selecting.rotated_first {claim : ClaimRef} :
    Selecting.rotated { cases, hasDefault, claim } =
      (cases.zipIdx 0).map fun (case, index) => (index, case) := by
  simp [Selecting.rotated, Selecting.indexed]

theorem Run.select_decides (undisturbed : world.exchange.Undisturbed cases)
    (finishes : (Run.select fuel cases hasDefault world).Finishes others result later) :
    Decides others world cases hasDefault result later := by
  rw [Run.select_eq] at finishes
  split at finishes
  · rename_i empty
    simp only [Bool.and_eq_true, List.isEmpty_iff, Bool.not_eq_eq_eq_not, Bool.not_true] at empty
    exact .waits (by simp [empty.1]) empty.2
  cases fuel with
  | zero =>
    rw [Run.selectRounds] at finishes
    cases finishes
  | succ fuel =>
    rw [Run.selectRounds_succ] at finishes
    simp only [Selecting.step, Bool.false_eq_true, if_false, Selecting.poll,
      Selecting.rotated_first] at finishes
    obtain ⟨index, case, received, after, first, ready, performs, tried⟩ |
        ⟨index, case, first, refused, tried⟩ | ⟨idle, tried⟩ :=
      @Exchange.tryCases_decides world.exchange.newClaim.2 cases 0 undisturbed
    · rw [tried, Nat.zero_add] at finishes
      cases finishes
      exact .performed first.of_newClaim (SelectCase.ready_newClaim.mp ready) performs.of_newClaim
    · rw [tried] at finishes
      cases finishes
      exact .refused first.of_newClaim (SelectCase.refused_newClaim.mp refused) rfl
    · have nothing : ∀ case ∈ cases, case.Idle world.exchange := fun case member =>
        SelectCase.idle_newClaim.mp (idle case member)
      cases hasDefault with
      | false => exact .waits nothing rfl
      | true =>
        rw [tried] at finishes
        obtain ⟨_, finishes⟩ | ⟨_, finishes⟩ | ⟨changes, finishes⟩ := finishes
        cases finishes
        have same : ({ world with exchange := world.exchange.newClaim.2 } : World).exchange.channels =
            world.exchange.channels := rfl
        exact .default nothing rfl same changes

/-- The operands of the cases are evaluated one after the other, each once. -/
inductive Prepares (others : World → World → Prop) (call : Caller) (env : EnvRef) :
    List Comm → World → List SelectCase → World → Prop
  | nil {world : World} : Prepares others call env [] world [] world
  | send {channel value : Code} {target sent : Value} {rest : List Comm} {cases : List SelectCase}
      {before first second after : World} :
    (eval call env channel before).Finishes others (.ok target) first →
    (eval call env value first).Finishes others (.ok sent) second →
    Prepares others call env rest second cases after →
    Prepares others call env (.send channel value :: rest) before (.sendTo target sent :: cases) after
  | recv {channel : Code} {source : Value} {rest : List Comm} {cases : List SelectCase}
      {before first after : World} :
    (eval call env channel before).Finishes others (.ok source) first →
    Prepares others call env rest first cases after →
    Prepares others call env (.recv channel :: rest) before (.recvFrom source :: cases) after

theorem evalComms_prepares {call : Caller} {env : EnvRef} {comms : List Comm}
    (finishes : (evalComms call env comms world).Finishes others (.ok cases) later) :
    Prepares others call env comms world cases later := by
  induction comms generalizing world cases with
  | nil =>
    cases finishes
    exact .nil
  | cons comm rest ih =>
    obtain ⟨case, middle, isCase, finishes⟩ := Run.finishes_bind finishes
    obtain ⟨cases, last, isCases, finishes⟩ := Run.finishes_bind finishes
    cases finishes
    cases comm with
    | send channel value =>
      obtain ⟨target, first, isTarget, isCase⟩ := Run.finishes_bind isCase
      obtain ⟨sent, second, isSent, isCase⟩ := Run.finishes_bind isCase
      cases isCase
      exact .send isTarget isSent (ih isCases)
    | recv channel =>
      obtain ⟨source, first, isSource, isCase⟩ := Run.finishes_bind isCase
      cases isCase
      exact .recv isSource (ih isCases)

end Run

end MiniGo
