import MarketMaking.Scheduler
import MarketMaking.Simulation.Script

/-! A simulated world around one paper exchange. Computation takes no time; requests, retry
pauses and ticks do. Whatever is on the agenda happens as time passes it, also in the middle of a
request. -/

namespace MarketMaking.Simulation

inductive ExchangeStep where
  | submit (operations : List Operation)
  | fetch
  | cancel (target : Order) (okIfMissing : Bool)
  | fill (id : ClientId)
  | fillAt (index : Nat)
  | failSubmissions (n : Nat)
  | rejectSubmissions (n : Nat)
  | failFetches (n : Nat)

inductive Answer where
  | done
  | flag (b : Bool)
  | receipt (r : Receipt)
  | orders (orders : List Order)
  | order (o : Option Order)
  | remoteError (e : RemoteError)

def Answer.ofResult (f : α → Answer) : Except RemoteError α → Answer
  | .ok a => f a
  | .error e => .remoteError e

def ExchangeStep.perform (x : Exchange) : ExchangeStep → Answer × Exchange
  | .submit operations => (Exchange.submit (.ofList operations) x).map (.ofResult .receipt) id
  | .fetch => (Exchange.fetch x).map (.ofResult .orders) id
  | .cancel target okIfMissing =>
    (Exchange.cancel target okIfMissing x).map (.ofResult fun _ => .done) id
  | .fill id => (Exchange.fill id x).map .order (·)
  | .fillAt index =>
    match x.orders[index]?.bind (·.clientId) with
    | none => (.order none, x)
    | some id => (Exchange.fill id x).map .order (·)
  | .failSubmissions n => (.done, x.failSubmissions n)
  | .rejectSubmissions n => (.done, x.rejectSubmissions n)
  | .failFetches n => (.done, x.failFetches n)

structure InjectedFault where
  error : RemoteError
  after : Bool

structure Faults where
  fetch : List (Option InjectedFault) := []
  submit : List (Option InjectedFault) := []
  cancel : List (Option InjectedFault) := []

structure Delays where
  fetch : Duration := .ofMillis 0
  submit : Duration := .ofMillis 0
  cancel : Duration := .ofMillis 0

structure Injection where
  fetch : Option (List (Option InjectedFault)) := none
  submit : Option (List (Option InjectedFault)) := none
  cancel : Option (List (Option InjectedFault)) := none

def Faults.inject (f : Faults) (i : Injection) : Faults where
  fetch := i.fetch.getD f.fetch
  submit := i.submit.getD f.submit
  cancel := i.cancel.getD f.cancel

inductive Clock where
  | manual (now : Timestamp)
  | running (start : Timestamp)

-- The line over which a scheduler is told to stop: the last value sent, whether it is news to
-- the scheduler, and whether there still are a sender and a scheduler.
structure StopLine where
  value : Bool := false
  news : Bool := false
  connected : Bool := true
  listening : Bool := true

inductive Action where
  | probe
  | setQuotes (quotes : List (Except ProducerError Quote))
  | inject (i : Injection)
  | setDelays (d : Delays)
  | shutdown (value : Bool)
  | dropShutdown
  | exchange (step : ExchangeStep)

structure Appointment where
  time : Nat
  action : Action

structure Report where
  time : Nat
  answer : Answer
  exchange : Exchange

structure World where
  exchange : Exchange
  clock : Clock
  producer : Producer
  source : StateSource := .script ⟨[]⟩
  faults : Faults := {}
  delays : Delays := {}
  -- Nanoseconds since the start.
  now : Nat := 0
  deadline : Option Nat := none
  stopLine : StopLine := {}
  agenda : List Appointment := []
  reports : List Report := []

namespace World

def clockReading (w : World) : Checked Timestamp :=
  match w.clock with
  | .manual now => .ok now
  | .running start => start.shift w.now

def perform (w : World) : Action → Answer × World
  | .probe => (.done, w)
  | .setQuotes quotes => (.done, { w with producer := w.producer.rescript quotes })
  | .inject i => (.done, { w with faults := w.faults.inject i })
  | .setDelays d => (.done, { w with delays := d })
  | .shutdown value =>
    if w.stopLine.connected && w.stopLine.listening then
      (.flag true, { w with stopLine := { w.stopLine with value, news := true } })
    else (.flag false, w)
  | .dropShutdown =>
    (.flag w.stopLine.connected, { w with stopLine := { w.stopLine with connected := false } })
  | .exchange step =>
    let (answer, exchange) := step.perform w.exchange
    (answer, { w with exchange })

-- Keeps an appointment, with those after it still to come. After the last one nobody is left who
-- could call for a shutdown.
def keep (w : World) (a : Appointment) (rest : List Appointment) : World :=
  let (answer, w) := { w with now := max w.now a.time, agenda := rest }.perform a.action
  { w with
    reports := w.reports ++ [⟨a.time, answer, w.exchange⟩]
    stopLine := if rest.isEmpty then { w.stopLine with connected := false } else w.stopLine }

def advance (w : World) (time : Nat) : World := go w w.agenda
where
  go (w : World) : List Appointment → World
    | [] => { w with now := max w.now time }
    | a :: rest =>
      if a.time < time then go (w.keep a rest) rest else { w with now := max w.now time }

def wait (d : Duration) : Process World Unit := OptionT.mk fun w =>
  let span := d.waited.nanos
  let target := w.now + span
  match w.deadline with
  | some deadline =>
    if deadline < target ∧ 0 < span then (none, w.advance deadline)
    else (some (), w.advance target)
  | none => (some (), w.advance target)

def nextFault : List (Option InjectedFault) → Option InjectedFault × List (Option InjectedFault)
  | [] => (none, [])
  | fault :: rest => (fault, rest)

def request (op : StateM Exchange (Except RemoteError α)) (fault : Option InjectedFault) :
    Process World (Except RemoteError α) := OptionT.mk fun w =>
  match fault with
  | none =>
    let (answer, exchange) := op w.exchange
    (some answer, { w with exchange })
  | some fault =>
    (some (.error fault.error),
      if fault.after then { w with exchange := (op w.exchange).2 } else w)

def setFaults (f : Faults) : Process World Unit := modify fun w => { w with faults := f }

def fetch : Process World (Except RemoteError (List Order)) := do
  wait (← get).delays.fetch
  let faults := (← get).faults
  let (fault, queue) := nextFault faults.fetch
  setFaults { faults with fetch := queue }
  request Exchange.fetch fault

def submit (b : Batch) : Process World (Except RemoteError Receipt) := do
  wait (← get).delays.submit
  let faults := (← get).faults
  let (fault, queue) := nextFault faults.submit
  setFaults { faults with submit := queue }
  request (Exchange.submit b) fault

def cancel (target : Order) (okIfMissing : Bool) : Process World (Except RemoteError Unit) := do
  wait (← get).delays.cancel
  let faults := (← get).faults
  let (fault, queue) := nextFault faults.cancel
  setFaults { faults with cancel := queue }
  request (Exchange.cancel target okIfMissing) fault

def venue : Venue World where
  fetch
  submit
  cancel
  pause := wait
  now := clockReading

-- Whether the scheduler has to stop now. News other than a call for it are taken note of.
def heedStopLine (w : World) : Bool × World :=
  if w.stopLine.news then
    let w := { w with stopLine := { w.stopLine with news := false } }
    (w.stopLine.value || !w.stopLine.connected, w)
  else (!w.stopLine.connected, w)

def awaitTick (due : Nat) (w : World) : Wake × World := go w w.agenda
where
  go (w : World) : List Appointment → Wake × World
    | [] =>
      match w.heedStopLine with
      | (true, w) => (.shutdown, w)
      | (false, w) => (.tick, { w with now := max w.now due })
    | a :: rest =>
      match w.heedStopLine with
      | (true, w) => (.shutdown, w)
      | (false, w) =>
        if a.time < due ∧ w.now < due then go (w.keep a rest) rest
        else (.tick, { w with now := max w.now due })

def environment : Environment World where
  toVenue := venue
  observe w := (w.source.observe w.clockReading).map fun (state, source) =>
    (state, { w with source })
  quote state w := (w.producer.quote state).map fun (quote, producer) =>
    (quote, { w with producer })
  limit d w := { w with deadline := d.map (w.now + ·.waited.nanos) }
  elapsed := World.now
  awaitTick

end World
end MarketMaking.Simulation
