import MiniGo.Exchange
/-!
The choice among several communications, in rounds. A round tries every case once, starting one
further than the round before so that no case starves; if none is ready, the sends on channels
without capacity are held out as offers until the next round takes them back.
-/

namespace MiniGo

inductive SelectCase
  | send (channel : ChanRef) (value : Value)
  | recv (elem : Ty) (channel : ChanRef)
  /-- A communication on a nil channel. -/
  | never

namespace SelectCase

/-- A send through a value; through nil it is never ready. -/
def sendTo (channel value : Value) : SelectCase :=
  match channel with
  | .chan _ ref => send ref value
  | _ => never

/-- A receive through a value; through nil it is never ready. -/
def recvFrom (channel : Value) : SelectCase :=
  match channel with
  | .chan elem ref => recv elem ref
  | _ => never

end SelectCase

inductive Selected
  | case (index : Nat) (received : Option (Value × Bool))
  | default

/-- What a receiver gets: a value, or the zero value and `false` from a closed channel. -/
def received (elem : Ty) : Option Value → Value × Bool
  | some value => (value, true)
  | none => (.zero elem, false)

structure Selecting where
  cases : List SelectCase
  hasDefault : Bool
  claim : ClaimRef
  offered : Bool := false
  announced : Bool := false
  round : Nat := 0

inductive RoundEnd
  | chosen (selected : Selected)
  | sleep (since : Nat) (next : Selecting)

namespace Exchange

def tryCase (exchange : Exchange) (index : Nat) :
    SelectCase → Except RuntimeError (Option Selected) × Exchange
  | .send channel value =>
    match exchange.trySend channel value with
    | .ok (true, exchange) => (.ok (some (.case index none)), exchange)
    | .ok (false, exchange) => (.ok none, exchange)
    | .error error => (.error error, exchange)
  | .recv elem channel =>
    let (found, exchange) := exchange.tryRecv channel
    (.ok (found.map fun value => .case index (some (received elem value))), exchange)
  | .never => (.ok none, exchange)

def tryCases (exchange : Exchange) :
    List (Nat × SelectCase) → Except RuntimeError (Option Selected) × Exchange
  | [] => (.ok none, exchange)
  | (index, case) :: rest =>
    match exchange.tryCase index case with
    | (.ok none, exchange) => exchange.tryCases rest
    | found => found

end Exchange

namespace Selecting

def indexed (select : Selecting) : List (Nat × SelectCase) :=
  select.cases.zipIdx.map fun (case, index) => (index, case)

def rotated (select : Selecting) : List (Nat × SelectCase) :=
  let start := select.round % select.cases.length
  select.indexed.drop start ++ select.indexed.take start

/-- The sends that are held out while the select waits. -/
def offers (select : Selecting) (exchange : Exchange) : List (ChanRef × Offer) :=
  select.indexed.filterMap fun (index, case) =>
    match case with
    | .send channel value =>
      if (exchange.channel channel).capacity = 0 then
        some (channel, ⟨index, value, select.claim⟩)
      else none
    | _ => none

/-- The exchange with the offers of the last round taken back. -/
def withdrawn (select : Selecting) (exchange : Exchange) : Exchange :=
  (select.offers exchange).foldl (fun exchange (channel, _) => exchange.withdraw channel select.claim)
    exchange

/-- Holds the offers out and waits for something to change. -/
def suspend (select : Selecting) (since : Nat) (exchange : Exchange) : RoundEnd × Exchange :=
  let offers := select.offers exchange
  let exchange := offers.foldl
    (fun exchange (channel, offer) => exchange.offer channel offer (!select.announced)) exchange
  let offered := !offers.isEmpty
  let next :=
    { select with
      offered, announced := select.announced || offered, round := select.round + 1 }
  (.sleep since next, exchange)

/-- Tries all cases, then the default, then waits. -/
def poll (select : Selecting) (since : Nat) (exchange : Exchange) :
    Except RuntimeError RoundEnd × Exchange :=
  match exchange.tryCases select.rotated with
  | (.error error, exchange) => (.error error, exchange)
  | (.ok (some selected), exchange) => (.ok (.chosen selected), exchange)
  | (.ok none, exchange) =>
    if select.hasDefault then (.ok (.chosen .default), exchange)
    else
      let (ending, exchange) := select.suspend since exchange
      (.ok ending, exchange)

/-- One round. A case that a receiver has completed meanwhile is chosen before any other is
tried. -/
def step (select : Selecting) (exchange : Exchange) : Except RuntimeError RoundEnd × Exchange :=
  let since := exchange.activity
  if select.offered then
    let exchange := select.withdrawn exchange
    match exchange.claimed? select.claim with
    | some index => (.ok (.chosen (.case index none)), exchange)
    | none => select.poll since exchange
  else select.poll since exchange

end Selecting

end MiniGo
