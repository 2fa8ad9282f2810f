import MarketMaking.Simulation.World

/-! A session: a market maker worked by hand, step by step, with followers of its events. A step
that leaves the range of its numbers ends the session. -/

namespace MarketMaking.Simulation

structure Session where
  maker : Option Maker
  world : World
  log : EventLog := {}
  followers : List (String × Follower) := []

inductive Step where
  | pulse (state : Checked ModelState)
  | cancelAll
  | notifyFailure (e : CycleError) (times : Nat)
  | setQuotes (quotes : List (Except ProducerError Quote))
  | inject (i : Injection)
  | setDelays (d : Delays)
  | advanceClock (ms : Int)
  | setClock (time : Timestamp)
  | subscribe (name : String)
  | events (name : String)
  | logEvents (name : String)
  | exchange (step : ExchangeStep)

inductive StepAnswer where
  | outcome (o : PulseOutcome)
  | cancelled (n : Nat)
  | cycleError (e : CycleError)
  | notices (ns : List Notice)
  | logged (n : Nat)
  | answer (a : Answer)
  | unavailable

namespace Session

def follower? (s : Session) (name : String) : Option Follower :=
  (s.followers.find? (·.1 == name)).map (·.2)

def setFollower (s : Session) (name : String) (f : Follower) : Session :=
  { s with followers := (name, f) :: s.followers.filter (·.1 != name) }

def withMaker (s : Session) (m : Maker) (w : World) : Session :=
  { s with maker := some m, world := w, log := m.log }

def pulse (s : Session) (m : Maker) (state : Checked ModelState) :
    Except Halt StepAnswer × Session :=
  match state with
  | .error o => (.error (.overflow o), s)
  | .ok state =>
    match World.environment.quote state s.world with
    | .error o => (.error (.overflow o), s)
    | .ok (quote, world) =>
      let (outcome, m, w) := m.pulse World.venue quote state.inventory.incentives world
      (outcome.map .outcome, s.withMaker m w)

def cancelAll (s : Session) (m : Maker) : Except Halt StepAnswer × Session :=
  let (answer, m, w) := m.cancelAll World.venue s.world
  let s := s.withMaker m w
  match answer with
  | .ok n => (.ok (.cancelled n), s)
  | .error (.failed e) => (.ok (.cycleError e), s)
  | .error (.halted h) => (.error h, s)

def moveClock (s : Session) (ms : Int) : Except Halt StepAnswer × Session :=
  match s.world.clock with
  | .running _ => (.ok .unavailable, s)
  | .manual now =>
    match now.advance ms with
    | .error o => (.error (.overflow o), s)
    | .ok now => (.ok (.answer .done), { s with world := { s.world with clock := .manual now } })

def act (s : Session) (a : Action) : Except Halt StepAnswer × Session :=
  let (answer, world) := s.world.perform a
  (.ok (.answer answer), { s with world })

def perform (s : Session) (step : Step) : Except Halt StepAnswer × Session :=
  match step, s.maker with
  | .pulse state, some m => s.pulse m state
  | .cancelAll, some m => s.cancelAll m
  | .notifyFailure e times, some m =>
    match s.world.clockReading with
    | .error o => (.error (.overflow o), s)
    | .ok now => (.ok (.answer .done), s.withMaker (times.repeat (·.notifyFailure now e) m) s.world)
  | .setQuotes quotes, _ => s.act (.setQuotes quotes)
  | .inject i, _ => s.act (.inject i)
  | .setDelays d, _ => s.act (.setDelays d)
  | .exchange step, _ => s.act (.exchange step)
  | .advanceClock ms, _ => s.moveClock ms
  | .setClock time, _ =>
    (.ok (.answer .done), { s with world := { s.world with clock := .manual time } })
  | .subscribe name, some _ => (.ok (.answer .done), s.setFollower name s.log.follow)
  | .events name, _ =>
    match s.follower? name with
    | none => (.ok .unavailable, s)
    | some f =>
      let (notices, f) := s.log.pending f
      (.ok (.notices notices), s.setFollower name f)
  | .logEvents name, _ =>
    match s.follower? name with
    | none => (.ok .unavailable, s)
    | some f =>
      (.ok (.logged (s.log.pendingEvents f)),
        { s with maker := none, followers := s.followers.filter (·.1 != name) })
  | _, none => (.ok .unavailable, s)

def performAll (s : Session) : List Step → List (StepAnswer × Session) × Option Halt
  | [] => ([], none)
  | step :: rest =>
    match s.perform step with
    | (.error h, _) => ([], some h)
    | (.ok answer, s) =>
      let (entries, halt) := s.performAll rest
      ((answer, s) :: entries, halt)

end Session
end MarketMaking.Simulation
