import MarketMaking.Config
import MarketMaking.Events
import MarketMaking.Quote
import MarketMaking.Reconciliation
import MarketMaking.Retry
import MarketMaking.Venue

/-! The market maker. Every new order is tracked before it is sent, and a cancelled one is forgotten
only once its cancel went through, so that whatever goes wrong, the next pulse can work from a fresh
listing. -/

namespace MarketMaking

structure Maker where
  market : String
  config : CycleConfig
  reconciler : Reconciler
  tracker : Tracker
  fetchPolicy : RetryPolicy
  submitPolicy : RetryPolicy
  draws : List ClientId
  log : EventLog := {}

inductive PulseOutcome where
  | skipped
  | completed (receipt : Option Receipt)
  | failed (e : CycleError)
  deriving DecidableEq

def PulseOutcome.isCompleted : PulseOutcome → Bool
  | .completed _ => true
  | _ => false

inductive Halt where
  | cutOff
  | overflow (o : Overflow)
  | outOfDraws
  deriving DecidableEq

def Halt.message : Halt → String
  | .cutOff => "cut off by a time limit"
  | .overflow o => o.message
  | .outOfDraws => "no client ids left to draw"

inductive Stop where
  | failed (e : CycleError)
  | halted (h : Halt)
  deriving DecidableEq

namespace Maker

def create (market : String) (config : CycleConfig) (draws : List ClientId) :
    Except GatewayError Maker := do
  let fetchPolicy ←
    RetryPolicy.ofPauses (market ++ " fetch") (config.fetchRetryPauses.map .ofMillis)
  let submitPolicy ←
    RetryPolicy.ofPauses (market ++ " submit") (config.submitRetryPauses.map .ofMillis)
  return {
    market, config, fetchPolicy, submitPolicy, draws
    reconciler := .tolerance config.tolerance
    tracker := { config := config.tracker } }

def publish (m : Maker) (e : PulseEvent) : Maker := { m with log := m.log.publish e }

def untrack (m : Maker) (id : ClientId) : Maker := { m with tracker := (m.tracker.untrack id).2 }

-- A fetch is worth repeating whatever went wrong.
def fetch (m : Maker) (v : Venue σ) : Process σ (Except RemoteError (List Order)) :=
  m.fetchPolicy.run v.pause v.fetch

def submit (m : Maker) (v : Venue σ) (b : Batch) : Process σ (Except RemoteError Receipt) :=
  m.submitPolicy.runTransient v.pause (v.submit b)

def cancel (m : Maker) (v : Venue σ) (target : Order) : Process σ (Except RemoteError Unit) :=
  m.submitPolicy.runTransient v.pause (v.cancel target true)

structure Ready where
  batch : Batch
  cancelled : List ClientId

def placeAll (m : Maker) (b : Batch) : List Order → Except Stop Batch × Maker
  | [] => (.ok b, m)
  | o :: rest =>
    match m.tracker.nextId m.draws with
    | none => (.error (.halted .outOfDraws), m)
    | some (id, draws) =>
      let o := o.withClientId id
      let m := { m with draws }
      match m.tracker.track o with
      | .error e => (.error (.failed (.tracking e)), m)
      | .ok tracker => { m with tracker }.placeAll (b.add (.place o)) rest

def redeems (m : Maker) (incentives : Decimal) : Bool :=
  m.config.redeemThreshold.any fun threshold => threshold < incentives

def upkeep (m : Maker) (incentives : Decimal) : List Operation :=
  (if m.config.crankEachPulse then [.crank] else []) ++
    (if m.config.settleEachPulse then [.settle] else []) ++
    (if m.redeems incentives then [.redeem] else [])

-- From a listing to a batch. Cancels do not mind a target that is gone already.
def prepare (m : Maker) (desired : List Order) (incentives : Decimal) (remote : List Order) :
    Except Stop Ready × Maker :=
  let (existing, tracker) := m.tracker.existing remote
  let m := { m with tracker }
  match m.reconciler.plan existing desired with
  | .error o => (.error (.halted (.overflow o)), m)
  | .ok plan =>
    let cancels := Batch.ofList (plan.toCancel.map (.cancel · true))
    match m.placeAll cancels plan.toPlace with
    | (.error stop, m) => (.error stop, m)
    | (.ok b, m) =>
      (.ok ⟨(m.upkeep incentives).foldl Batch.add b, plan.toCancel.filterMap (·.clientId)⟩, m)

def tryPulse (m : Maker) (v : Venue σ) (quote : Except ProducerError Quote) (incentives : Decimal)
    (s : σ) : Except Stop PulseOutcome × Maker × σ :=
  match quote with
  | .error e => (.error (.failed (.producer e)), m, s)
  | .ok .suppressed => (.ok .skipped, m, s)
  | .ok (.live desired) =>
    match (m.fetch v).from s with
    | (none, s) => (.error (.halted .cutOff), m, s)
    | (some (.error e), s) => (.error (.failed (.remote e)), m, s)
    | (some (.ok remote), s) =>
      match m.prepare desired incentives remote with
      | (.error stop, m) => (.error stop, m, s)
      | (.ok ready, m) =>
        if ready.batch.isEmpty then (.ok (.completed none), m, s)
        else
          match (m.submit v ready.batch).from s with
          | (none, s) => (.error (.halted .cutOff), m, s)
          | (some (.error e), s) => (.error (.failed (.remote e)), m, s)
          | (some (.ok receipt), s) =>
            (.ok (.completed (some receipt)), ready.cancelled.foldl untrack m, s)

def conclude (m : Maker) (v : Venue σ) (event : Timestamp → PulseEvent) (outcome : PulseOutcome)
    (s : σ) : Except Halt PulseOutcome × Maker × σ :=
  match v.now s with
  | .error o => (.error (.overflow o), m, s)
  | .ok now => (.ok outcome, m.publish (event now), s)

def pulse (m : Maker) (v : Venue σ) (quote : Except ProducerError Quote) (incentives : Decimal)
    (s : σ) : Except Halt PulseOutcome × Maker × σ :=
  match m.tryPulse v quote incentives s with
  | (.ok (.completed receipt), m, s) => m.conclude v .completed (.completed receipt) s
  | (.ok outcome, m, s) => (.ok outcome, m, s)
  | (.error (.failed e), m, s) => m.conclude v (.failed · e) (.failed e) s
  | (.error (.halted h), m, s) => (.error h, m, s)

def notifyFailure (m : Maker) (now : Timestamp) (e : CycleError) : Maker :=
  m.publish (.failed now e)

-- Cancels order by order, forgetting each once its cancel went through.
def cancelEach (m : Maker) (v : Venue σ) (s : σ) : List Order → Except Stop Unit × Maker × σ
  | [] => (.ok (), m, s)
  | o :: rest =>
    match (m.cancel v o).from s with
    | (none, s) => (.error (.halted .cutOff), m, s)
    | (some (.error e), s) => (.error (.failed (.remote e)), m, s)
    | (some (.ok ()), s) =>
      let m := match o.clientId with | some id => m.untrack id | none => m
      m.cancelEach v s rest

def cancelAll (m : Maker) (v : Venue σ) (s : σ) : Except Stop Nat × Maker × σ :=
  match (m.fetch v).from s with
  | (none, s) => (.error (.halted .cutOff), m, s)
  | (some (.error e), s) => (.error (.failed (.remote e)), m, s)
  | (some (.ok remote), s) =>
    let (existing, tracker) := m.tracker.existing remote
    match { m with tracker }.cancelEach v s existing with
    | (.error stop, m, s) => (.error stop, m, s)
    | (.ok (), m, s) => (.ok existing.length, m, s)

end Maker
end MarketMaking
