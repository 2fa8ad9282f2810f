import MarketMaking.Simulation.Day
import MarketMaking.Wire.Config

/-! The command line: runs a market maker against the paper exchange on simulated time, stops it
after a number of intervals, and says how the day went. The arguments are a configuration file and
that number; without them the standard configuration runs for an hour of half minutes. -/

namespace MarketMaking.Command
open Simulation

def configuration : Option String → IO (Except ConfigError RunConfig)
  | none => return RunConfig.standard.validate.map (fun _ => .standard) |>.mapError .invalid
  | some path => do
    match ← (IO.FS.readFile path).toBaseIO with
    | .ok text => return RunConfig.loadValid text
    | .error _ => return .error .unreadable

-- A shutdown in the middle of an interval, so that it never meets a tick.
def closing (c : RunConfig) (intervals : Nat) : Appointment :=
  let interval := c.scheduler.interval.nanos
  ⟨intervals * interval + interval / 2, .shutdown true⟩

def drawIds (n : Nat) : IO (List ClientId) :=
  (List.range n).mapM fun _ => return ⟨.ofNat (← IO.rand 0 (UInt64.size - 1))⟩

def drawMoves (n : Nat) : IO (List Int) :=
  (List.range n).mapM fun _ => return (← IO.rand 0 2000 : Nat) - (1000 : Int)

-- A pulse places at most two orders, and two pulses more than asked for are always enough.
def run (c : RunConfig) (intervals : Nat) : IO (Except GatewayError DayReport) := do
  let ids ← drawIds (2 * intervals + 4)
  if let some seed := c.paper.seed then IO.setRandSeed seed.toNat
  let moves ← drawMoves (intervals + 2)
  return (Day.ofConfig c ids moves .epoch [closing c intervals]).map Day.run

def failed (message : String) : IO UInt32 := do
  IO.eprintln ("Error: " ++ message)
  return 1

end MarketMaking.Command

open MarketMaking MarketMaking.Command in
def main (args : List String) : IO UInt32 := do
  match ← configuration args[0]? with
  | .error e => failed e.message
  | .ok c =>
    match ← run c ((args[1]?.bind String.toNat?).getD 120) with
    | .error e => failed e.message
    | .ok report =>
      IO.println report.summary
      return 0
