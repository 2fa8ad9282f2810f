import MarketMaking.Simulation.World

/-! A simulated trading day: a scheduler runs in a world with an agenda until the agenda tells it to
stop, and what is left of the agenda happens after that. -/

namespace MarketMaking.Simulation

structure Day where
  config : SchedulerConfig
  maker : Maker
  world : World

structure DayReport where
  stats : Except Halt SchedulerStats
  events : List Notice
  world : World

def DayReport.summary (r : DayReport) : String :=
  match r.stats with
  | .ok st =>
    s!"Done: {st.pulses} pulses, {st.completed} completed, {st.skipped} skipped, " ++
      s!"{st.failed} failed ({st.timedOut} timed out); " ++
      s!"{r.world.exchange.resting.length} order(s) left resting"
  | .error h => "Halted: " ++ h.message

namespace Day

def ticks (d : Day) : Nat :=
  let last := (d.world.agenda.getLast?.map (·.time)).getD 0
  last / max 1 d.config.interval.waited.nanos + 2

def close (w : World) : World :=
  let w := { w with deadline := none, stopLine := { w.stopLine with listening := false } }
  match w.agenda.getLast? with
  | none => w
  | some last => w.advance (last.time + 1) |> fun after => { after with now := max w.now last.time }

def run (d : Day) : DayReport :=
  let follower := d.maker.log.follow
  let connected := d.world.stopLine.connected && !d.world.agenda.isEmpty
  let world := { d.world with stopLine := { d.world.stopLine with connected } }
  let (answer, scheduler, world) :=
    ({ config := d.config, maker := d.maker : Scheduler }).run World.environment d.ticks world
  { stats := answer.map fun _ => scheduler.stats
    events := (scheduler.maker.log.pending follower).1
    world := close world }

def ofConfig (c : RunConfig) (draws : List ClientId) (walkDraws : List Int) (start : Timestamp)
    (agenda : List Appointment) : Except GatewayError Day := do
  let maker ← Maker.create c.market c.cycle draws
  return {
    config := c.scheduler
    maker
    world := {
      exchange := { lag := c.paper.visibilityLag.toNat }
      clock := .running start
      producer := .chain c.quoting.chain
      source := .walk (.start c.market c.paper walkDraws)
      agenda } }

end Day
end MarketMaking.Simulation
