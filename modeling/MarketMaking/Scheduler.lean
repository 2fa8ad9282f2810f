import MarketMaking.Maker

/-! The scheduler: runs one market maker on a fixed interval until it is told to stop. It sweeps the
book before the first and after the last pulse. Pulses and sweeps have a time limit, and pulses
never overlap: a tick that comes due during a pulse waits for its end. -/

namespace MarketMaking

structure SchedulerConfig where
  interval : Duration := .ofSeconds 30
  timeout : Duration := .ofSeconds 20
  deriving DecidableEq

def RunConfig.scheduler (c : RunConfig) : SchedulerConfig :=
  ⟨.ofMillis c.pulseInterval, .ofMillis c.pulseTimeout⟩

structure SchedulerStats where
  pulses : Nat := 0
  completed : Nat := 0
  skipped : Nat := 0
  failed : Nat := 0
  timedOut : Nat := 0
  cancelledAtStartup : Nat := 0
  cancelledAtShutdown : Nat := 0
  deriving DecidableEq

inductive Wake where
  | tick
  | shutdown
  deriving DecidableEq

-- A venue with all that a scheduler needs besides: a state to show the producer, the producer, a
-- time limit, and a bell that rings for ticks and for the end. Times are nanoseconds since the
-- start.
structure Environment (σ : Type) extends Venue σ where
  observe : σ → Checked (Except ProducerError ModelState × σ)
  quote : ModelState → σ → Checked (Except ProducerError Quote × σ)
  limit : Option Duration → σ → σ
  elapsed : σ → Nat
  awaitTick : (due : Nat) → σ → Wake × σ

structure Scheduler where
  config : SchedulerConfig
  maker : Maker
  stats : SchedulerStats := {}

namespace Scheduler

-- Cancels everything within the time limit. A sweep that does not get through counts nothing.
def sweep (e : Environment σ) (r : Scheduler) (s : σ) : Nat × Scheduler × σ :=
  let (answer, maker, s) := r.maker.cancelAll e.toVenue (e.limit (some r.config.timeout) s)
  (match answer with | .ok cancelled => cancelled | .error _ => 0,
    { r with maker }, e.limit none s)

def fail (e : Environment σ) (r : Scheduler) (error : CycleError) (s : σ) :
    Except Halt Unit × Scheduler × σ :=
  let r := { r with stats := { r.stats with failed := r.stats.failed + 1 } }
  match e.now s with
  | .error o => (.error (.overflow o), r, s)
  | .ok now => (.ok (), { r with maker := r.maker.notifyFailure now error }, s)

def record (stats : SchedulerStats) : PulseOutcome → SchedulerStats
  | .skipped => { stats with skipped := stats.skipped + 1 }
  | .completed _ => { stats with completed := stats.completed + 1 }
  | .failed _ => { stats with failed := stats.failed + 1 }

-- One pulse with the state observed now. A pulse cut off by the time limit has published nothing
-- itself.
def runPulse (e : Environment σ) (r : Scheduler) (s : σ) : Except Halt Unit × Scheduler × σ :=
  let r := { r with stats := { r.stats with pulses := r.stats.pulses + 1 } }
  match e.observe s with
  | .error o => (.error (.overflow o), r, s)
  | .ok (.error error, s) => r.fail e (.producer error) s
  | .ok (.ok state, s) =>
    match e.quote state s with
    | .error o => (.error (.overflow o), r, s)
    | .ok (quote, s) =>
      let limited := e.limit (some r.config.timeout) s
      match r.maker.pulse e.toVenue quote state.inventory.incentives limited with
      | (.ok outcome, maker, s) =>
        (.ok (), { r with maker, stats := record r.stats outcome }, e.limit none s)
      | (.error .cutOff, maker, s) =>
        let stats := { r.stats with timedOut := r.stats.timedOut + 1 }
        { r with maker, stats }.fail e (.timeout r.config.timeout) (e.limit none s)
      | (.error halt, maker, s) => (.error halt, { r with maker }, e.limit none s)

-- How late a tick may be without moving the ticks after it.
def grace : Nat := 5000000

def nextDue (interval : Duration) (due now : Nat) : Nat :=
  let next := (if due + grace < now then now else due) + interval.nanos
  min next (now + Duration.patience.nanos)

def ticking (e : Environment σ) : (ticks : Nat) → (due : Nat) → Scheduler → σ →
    Except Halt Unit × Scheduler × σ
  | 0, _, r, s => (.ok (), r, s)
  | ticks + 1, due, r, s =>
    match e.awaitTick due s with
    | (.shutdown, s) => (.ok (), r, s)
    | (.tick, s) =>
      let next := nextDue r.config.interval due (e.elapsed s)
      match r.runPulse e s with
      | (.ok (), r, s) => ticking e ticks next r s
      | halted => halted

def run (e : Environment σ) (ticks : Nat) (r : Scheduler) (s : σ) :
    Except Halt Unit × Scheduler × σ :=
  let (cancelled, r, s) := r.sweep e s
  let r := { r with stats := { r.stats with cancelledAtStartup := cancelled } }
  if r.config.interval.nanos = 0 then (.error (.overflow .emptyInterval), r, s)
  else
    match r.ticking e ticks (e.elapsed s) s with
    | (.ok (), r, s) =>
      let (cancelled, r, s) := r.sweep e s
      (.ok (), { r with stats := { r.stats with cancelledAtShutdown := cancelled } }, s)
    | halted => halted

end Scheduler
end MarketMaking
