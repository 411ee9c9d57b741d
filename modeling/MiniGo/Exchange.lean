import MiniGo.Value
/-!
Channels. Every function here is one uninterrupted section: parties that send, receive or select
interleave between them and never inside one.

A party that selects holds its sends out as offers while it waits. All offers of one select share a
claim, and a receiver that takes an offer writes its case there, so at most one of them is taken.
-/

namespace MiniGo

structure ClaimRef where
  index : Nat
deriving DecidableEq, Repr, Inhabited

structure Offer where
  case : Nat
  value : Value
  claim : ClaimRef

structure Channel where
  /-- Zero for a channel whose sender waits for its receiver. -/
  capacity : Nat
  buffer : List Value := []
  closed : Bool := false
  /-- Receivers that are blocked here. -/
  waiting : Nat := 0
  offers : List Offer := []
  /-- Values put into the buffer so far. -/
  sent : Nat := 0
  /-- Values taken out of the buffer so far. -/
  taken : Nat := 0

namespace Channel

/-- Values that the buffer takes before a sender has to wait. -/
def slots (channel : Channel) : Nat := max channel.capacity 1

/-- Buffered values, which a channel without capacity does not count. -/
def length (channel : Channel) : Nat := if channel.capacity = 0 then 0 else channel.buffer.length

def hasRoom (channel : Channel) : Bool := channel.closed || channel.buffer.length < channel.slots

/-- A value can be handed over at once: into free capacity, or to a blocked receiver. -/
def accepts (channel : Channel) : Bool :=
  if channel.capacity = 0 then channel.buffer.length < channel.waiting
  else channel.buffer.length < channel.capacity

def isReadable (channel : Channel) : Bool := !channel.buffer.isEmpty || channel.closed

def push (channel : Channel) (value : Value) : Channel :=
  { channel with buffer := channel.buffer ++ [value], sent := channel.sent + 1 }

end Channel

/-- All channels, the claims of all selects, and a count of state changes that blocked selects
watch. -/
structure Exchange where
  channels : Array Channel := #[]
  claims : Array (Option Nat) := #[]
  activity : Nat := 0

namespace Exchange

def channel (exchange : Exchange) (ref : ChanRef) : Channel :=
  exchange.channels.getD ref.index { capacity := 0 }

def update (exchange : Exchange) (ref : ChanRef) (change : Channel → Channel) : Exchange :=
  { exchange with channels := exchange.channels.modify ref.index change }

def notify (exchange : Exchange) : Exchange := { exchange with activity := exchange.activity + 1 }

def newChannel (exchange : Exchange) (capacity : Nat) : ChanRef × Exchange :=
  (⟨exchange.channels.size⟩, { exchange with channels := exchange.channels.push { capacity } })

/-- Puts a value into the buffer and gives its ticket. The sender has waited for room. -/
def send (exchange : Exchange) (ref : ChanRef) (value : Value) :
    Except RuntimeError (Nat × Exchange) :=
  let channel := exchange.channel ref
  if channel.closed then throw (.closedChannel .send)
  else pure (channel.sent + 1, (exchange.update ref (·.push value)).notify)

/-- A sender without capacity to fill is done once its value is taken or the channel closed. -/
def isDelivered (exchange : Exchange) (ref : ChanRef) (ticket : Nat) : Bool :=
  let channel := exchange.channel ref
  ticket ≤ channel.taken || channel.closed

def take (exchange : Exchange) (ref : ChanRef) : Option Value × Exchange :=
  match (exchange.channel ref).buffer with
  | [] => (none, exchange)
  | value :: rest =>
    (some value,
      (exchange.update ref fun channel =>
        { channel with buffer := rest, taken := channel.taken + 1 }).notify)

def isUnclaimed (exchange : Exchange) (offer : Offer) : Bool :=
  (exchange.claims.getD offer.claim.index none).isNone

/-- The oldest offer whose select is still waiting, and the offers after it. -/
def firstUnclaimed (exchange : Exchange) : List Offer → Option (Offer × List Offer)
  | [] => none
  | offer :: rest =>
    if exchange.isUnclaimed offer then some (offer, rest) else exchange.firstUnclaimed rest

/-- Takes the oldest offer that no other receiver has claimed, and forgets the claimed ones before
it. -/
def claimOffer (exchange : Exchange) (ref : ChanRef) : Option Value × Exchange :=
  match exchange.firstUnclaimed (exchange.channel ref).offers with
  | none => (none, exchange.update ref ({ · with offers := [] }))
  | some (offer, rest) =>
    let exchange := exchange.update ref ({ · with offers := rest })
    let claims := exchange.claims.setIfInBounds offer.claim.index (some offer.case)
    (some offer.value, { exchange with claims }.notify)

def enterRecv (exchange : Exchange) (ref : ChanRef) : Exchange :=
  (exchange.update ref fun channel => { channel with waiting := channel.waiting + 1 }).notify

def canRecv (exchange : Exchange) (ref : ChanRef) : Bool :=
  let channel := exchange.channel ref
  channel.isReadable || channel.offers.any exchange.isUnclaimed

/-- A receiver that can go on leaves with a value, or with none from a closed channel. -/
def leaveRecv (exchange : Exchange) (ref : ChanRef) : Option Value × Exchange :=
  let readable := (exchange.channel ref).isReadable
  let exchange := exchange.update ref fun channel => { channel with waiting := channel.waiting - 1 }
  if readable then exchange.take ref else exchange.claimOffer ref

/-- Sends if nobody has to wait for it; tells whether it did. -/
def trySend (exchange : Exchange) (ref : ChanRef) (value : Value) :
    Except RuntimeError (Bool × Exchange) :=
  let channel := exchange.channel ref
  if channel.closed then throw (.closedChannel .send)
  else if channel.accepts then pure (true, (exchange.update ref (·.push value)).notify)
  else pure (false, exchange)

/-- Receives if nobody has to wait for it: a value, none from a closed channel. -/
def tryRecv (exchange : Exchange) (ref : ChanRef) : Option (Option Value) × Exchange :=
  if (exchange.channel ref).isReadable then
    let (found, exchange) := exchange.take ref
    (some found, exchange)
  else
    let (found, exchange) := exchange.claimOffer ref
    (found.map some, exchange)

def close (exchange : Exchange) (ref : ChanRef) : Except RuntimeError Exchange :=
  if (exchange.channel ref).closed then throw (.closedChannel .close)
  else pure (exchange.update ref ({ · with closed := true })).notify

def newClaim (exchange : Exchange) : ClaimRef × Exchange :=
  (⟨exchange.claims.size⟩, { exchange with claims := exchange.claims.push none })

/-- The case of a select that a receiver has completed. -/
def claimed? (exchange : Exchange) (claim : ClaimRef) : Option Nat :=
  exchange.claims.getD claim.index none

/-- Holds a value out for receivers; `announce` makes it known to blocked selects. -/
def offer (exchange : Exchange) (ref : ChanRef) (offer : Offer) (announce : Bool) : Exchange :=
  if (exchange.channel ref).closed then exchange
  else
    let exchange := exchange.update ref fun channel =>
      { channel with offers := channel.offers ++ [offer] }
    if announce then exchange.notify else exchange

def withdraw (exchange : Exchange) (ref : ChanRef) (claim : ClaimRef) : Exchange :=
  exchange.update ref fun channel =>
    { channel with offers := channel.offers.filter (·.claim != claim) }

end Exchange

inductive Wait
  | room (channel : ChanRef)
  | delivery (channel : ChanRef) (ticket : Nat)
  | arrival (channel : ChanRef)
  | activity (since : Nat)
  /-- Nothing: it only lets others run. -/
  | turn
deriving DecidableEq, Repr

namespace Wait

def isOver (exchange : Exchange) : Wait → Bool
  | room channel => (exchange.channel channel).hasRoom
  | delivery channel ticket => exchange.isDelivered channel ticket
  | arrival channel => exchange.canRecv channel
  | activity since => exchange.activity != since
  | turn => true

end Wait

end MiniGo
