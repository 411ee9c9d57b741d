import MiniGo.Proofs.Histories
/-!
Senders without a buffer. A sender on a channel without capacity leaves its value in the channel and
waits. When it goes on without a failure, a receiver has taken that very value, or somebody has closed
the channel meanwhile; in the second case the value may never be taken.
-/

namespace MiniGo

/-- How a computation ends when others perform sections while it waits; what these have reported. -/
inductive Outcome.Ends {α : Type} : Outcome α → List Report → Except RuntimeError α → World → Prop
  | done {value : α} {world : World} : Ends (.done value world) [] (.ok value) world
  | fail {error : RuntimeError} {world : World} : Ends (.fail error world) [] (.error error) world
  | await {wait : Wait} {world later final : World} {resume : World → Outcome α}
      {others rest : List Report} {result : Except RuntimeError α} :
    world.exchange.Reaches others later.exchange → wait.isOver later.exchange = true →
    Ends (resume later) rest result final → Ends (.await wait world resume) (others ++ rest) result final

namespace Exchange

variable {start later : Exchange} {reports : List Report} {ref : ChanRef}

theorem Reaches.closed_mem (reaches : start.Reaches reports later)
    (isOpen : (start.channel ref).closed = false) (isClosed : (later.channel ref).closed = true) :
    .closed ref ∈ reports := by
  induction reaches with
  | refl => simp [isOpen] at isClosed
  | @step exchange _ act _ allowed ih =>
    cases wasClosed : (exchange.channel ref).closed with
    | true => exact List.mem_append_left _ (ih wasClosed)
    | false =>
      have moves := (performs allowed).moves ref
      generalize (exchange.perform act).1 = report at moves ⊢
      generalize (exchange.perform act).2.channel ref = after at moves isClosed
      cases moves with
      | closes => simp
      | begins _ _ same | accepts _ _ same | takes _ _ same | holds same | rests _ _ _ same =>
        subst same
        simp [wasClosed, Channel.push] at isClosed

theorem capacity_update {other : ChanRef} {change : Channel → Channel}
    (keeps : ∀ channel, (change channel).capacity = channel.capacity) :
    ((start.update other change).channel ref).capacity = (start.channel ref).capacity := by
  by_cases here : ref = other
  · subst here
    by_cases has : start.Has ref
    · rw [channel_update has, keeps]
    · rw [channel_absent has, channel_absent (mt has_update.mp has)]
  · rw [channel_update_ne here]

theorem Performs.capacity {act : Section} {report : Report}
    (performs : start.Performs act report later) (has : start.Has ref) :
    (later.channel ref).capacity = (start.channel ref).capacity := by
  cases performs with
  | creates => simp [newChannel, channel, Array.getElem?_push, Nat.ne_of_lt has]
  | begins | refuses | declines | passes => rfl
  | accepts | enters | looks | closes | withdraws => exact capacity_update fun _ => rfl
  | holds _ _ same => rcases same with rfl | rfl <;> exact capacity_update fun _ => rfl
  | receives _ uncounts receives =>
    have same := uncounts.capacity has
    cases receives with
    | ends => exact same
    | takes | claims | waits =>
      refine Eq.trans ?_ same
      exact capacity_update fun _ => rfl

theorem Reaches.capacity (reaches : start.Reaches reports later) (has : start.Has ref) :
    (later.channel ref).capacity = (start.channel ref).capacity := by
  induction reaches with
  | refl => rfl
  | step act reaches allowed ih => exact ((performs allowed).capacity (reaches.has has)).trans ih

theorem Reaches.taken_mem {history : List Report} {before : Exchange} {value : Value}
    (reached : Reaches {} history before) (allowed : before.Allows (.send ref value))
    (isOpen : (before.channel ref).closed = false)
    (reaches : (before.perform (.send ref value)).2.Reaches reports later)
    (taken : (before.channel ref).sent + 1 ≤ (later.channel ref).taken) :
    .taken ref value ((before.channel ref).sent + 1) ∈ reports := by
  have sends : (before.perform (.send ref value)).1 =
      .accepted ref value ((before.channel ref).sent + 1) := by
    rw [perform_send, isOpen]
    rfl
  have whole := ((reached.step (.send ref value) allowed).trans reaches).accounts.channels ref
  rw [sends] at whole
  obtain ⟨positive, there⟩ := whole.tickets value ((before.channel ref).sent + 1) (by simp)
  rw [whole.order, List.getElem?_append_left (by rw [← whole.taken]; omega)] at there
  have member := (whole.numbers value _).mpr ⟨positive, there⟩
  rcases List.mem_append.mp member with older | newer
  · -- before it was sent, fewer values had been taken than are accepted with it
    have accounts := reached.accounts.channels ref
    rcases List.mem_append.mp older with earlier | itself
    · obtain ⟨-, found⟩ := (accounts.numbers value _).mp earlier
      have inside := (List.getElem?_eq_some_iff.mp found).1
      have lengths := congrArg List.length accounts.order
      rw [← accounts.sent, List.length_append] at lengths
      omega
    · simp at itself
  · exact newer

end Exchange

namespace Run

variable {ref : ChanRef} {value : Value} {world final : World} {reports history : List Report}

theorem sendNow_ends (reached : Exchange.Reaches {} history world.exchange)
    (allowed : world.exchange.Allows (.send ref value))
    (unbuffered : (world.exchange.channel ref).capacity = 0)
    (ends : (sendNow ref value world).Ends reports (.ok ()) final) :
    (world.exchange.channel ref).closed = false ∧
      (world.exchange.perform (.send ref value)).2.Reaches reports final.exchange ∧
      (.taken ref value ((world.exchange.channel ref).sent + 1) ∈ reports ∨ .closed ref ∈ reports) := by
  have explains {later : Exchange} {others : List Report}
      (isOpen : (world.exchange.channel ref).closed = false)
      (reaches : (world.exchange.perform (.send ref value)).2.Reaches others later)
      (delivered : later.isDelivered ref ((world.exchange.channel ref).sent + 1) = true) :
      .taken ref value ((world.exchange.channel ref).sent + 1) ∈ others ∨ .closed ref ∈ others := by
    simp only [Exchange.isDelivered, Bool.or_eq_true, decide_eq_true_eq] at delivered
    rcases delivered with taken | isClosed
    · exact .inl (reached.taken_mem allowed isOpen reaches taken)
    · refine .inr (reaches.closed_mem ?_ isClosed)
      rw [Exchange.perform_send, isOpen]
      exact (congrArg Channel.closed (Exchange.channel_update allowed.1)).trans isOpen
  cases isClosed : (world.exchange.channel ref).closed with
  | true =>
    simp only [sendNow, Exchange.send, isClosed] at ends
    cases ends
  | false =>
    have capacity : ((world.exchange.perform (.send ref value)).2.channel ref).capacity = 0 :=
      ((Exchange.performs allowed).capacity allowed.1).trans unbuffered
    have sent : sendNow ref value world =
        waitFor (.delivery ref ((world.exchange.channel ref).sent + 1))
          { world with exchange := (world.exchange.perform (.send ref value)).2 } := by
      rw [Exchange.perform_send, isClosed] at capacity ⊢
      simp only [sendNow, Exchange.send, isClosed]
      exact if_pos capacity
    rw [sent, waitFor] at ends
    split at ends
    · next delivered =>
      cases ends
      exact ⟨rfl, .refl, explains isClosed .refl delivered⟩
    · cases ends with
      | await others delivered ends =>
        cases ends
        rw [List.append_nil]
        exact ⟨rfl, others, explains isClosed others delivered⟩

end Run

/-- A sender on a channel without capacity that has sent its value has put it into the channel while
that was open, and since then either a receiver has taken this value or the channel has been closed. -/
theorem send_returns {ref : ChanRef} {value : Value} {world final : World}
    {history reports : List Report} (reached : Exchange.Reaches {} history world.exchange)
    (has : world.exchange.Has ref) (unbuffered : (world.exchange.channel ref).capacity = 0)
    (ends : (Run.send ref value world).Ends reports (.ok ()) final) :
    ∃ (before after : List Report) (sending : Exchange), reports = before ++ after ∧
      world.exchange.Reaches before sending ∧ (sending.channel ref).closed = false ∧
      (sending.perform (.send ref value)).2.Reaches after final.exchange ∧
      (.taken ref value ((sending.channel ref).sent + 1) ∈ after ∨ .closed ref ∈ after) := by
  rw [Run.send_eq] at ends
  split at ends
  · next room =>
    obtain ⟨isOpen, reaches, ending⟩ := Run.sendNow_ends reached ⟨has, room⟩ unbuffered ends
    exact ⟨[], reports, _, rfl, .refl, isOpen, reaches, ending⟩
  · cases ends with
    | await others room ends =>
      obtain ⟨isOpen, reaches, ending⟩ := Run.sendNow_ends (reached.trans others)
        ⟨others.has has, room⟩ ((others.capacity has).trans unbuffered) ends
      exact ⟨_, _, _, rfl, others, isOpen, reaches, ending⟩

def unbufferedWorld : World := { exchange := (Exchange.perform {} (.newChannel 0)).2 }

theorem unbufferedWorld_reached : Exchange.Reaches {} [.none] unbufferedWorld.exchange :=
  .one (.newChannel 0) trivial

def unbufferedSent : World :=
  { unbufferedWorld with exchange := (unbufferedWorld.exchange.perform (.send ⟨0⟩ (.int 1))).2 }

theorem unbufferedWorld_sends : Run.send ⟨0⟩ (.int 1) unbufferedWorld =
    .await (.delivery ⟨0⟩ 1) unbufferedSent fun world => .done () world := rfl

theorem unbufferedSent_ends {act : Section} {report : Report} (later : World)
    (allowed : unbufferedSent.exchange.Allows act)
    (performed : unbufferedSent.exchange.perform act = (report, later.exchange))
    (woken : later.exchange.isDelivered ⟨0⟩ 1 = true) :
    (Run.send ⟨0⟩ (.int 1) unbufferedWorld).Ends [report] (.ok ()) later := by
  rw [unbufferedWorld_sends]
  have reaches : unbufferedSent.exchange.Reaches _ _ := .one act allowed
  rw [performed] at reaches
  exact .await reaches woken .done

theorem send_returns_received : ∃ (reports : List Report) (final : World),
    (Run.send ⟨0⟩ (.int 1) unbufferedWorld).Ends reports (.ok ()) final ∧ .closed ⟨0⟩ ∉ reports ∧
      ∃ number, .taken ⟨0⟩ (.int 1) number ∈ reports := by
  have ends : Outcome.Ends _ [.taken ⟨0⟩ (.int 1) 1] _ _ := @unbufferedSent_ends (.tryRecv ⟨0⟩) _
    { unbufferedSent with exchange := (unbufferedSent.exchange.perform (.tryRecv ⟨0⟩)).2 }
    (by decide) rfl (by decide)
  obtain ⟨before, after, sending, same, -, -, -, ending⟩ :=
    send_returns unbufferedWorld_reached (by decide) (by decide) ends
  have closed : .closed ⟨0⟩ ∉ [Report.taken ⟨0⟩ (.int 1) 1] := by simp
  rw [same] at ends closed
  have taken := ending.resolve_right fun member => closed (List.mem_append_right _ member)
  exact ⟨_, _, ends, closed, _, List.mem_append_right _ taken⟩

/-- A sender has sent its value, and nobody has taken it: the channel has been closed instead. -/
theorem send_returns_untaken : ∃ (reports : List Report) (final : World),
    (Run.send ⟨0⟩ (.int 1) unbufferedWorld).Ends reports (.ok ()) final ∧
      (∀ value number, .taken ⟨0⟩ value number ∉ reports) ∧
      (final.exchange.channel ⟨0⟩).taken = 0 ∧ (final.exchange.channel ⟨0⟩).buffer.length = 1 := by
  have ends : Outcome.Ends _ [.closed ⟨0⟩] _ _ := @unbufferedSent_ends (.close ⟨0⟩) _
    { unbufferedSent with exchange := (unbufferedSent.exchange.perform (.close ⟨0⟩)).2 }
    (by decide) rfl (by decide)
  exact ⟨_, _, ends, by simp, by decide, by decide⟩

end MiniGo
