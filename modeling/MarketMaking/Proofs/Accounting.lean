import Mathlib
import MarketMaking.Proofs.EmptyBook

/-! What a scheduler counts and what its maker publishes. Every pulse of a run is counted once, by
the way it ended, and reported at most once: a completed or a failed one in its own event, a skipped
one not at all, and one that was cut off as a timeout only (`run_accounts`). -/

namespace MarketMaking

inductive Report where
  | completed
  | failed (error : CycleError)
  deriving DecidableEq

def PulseEvent.report : PulseEvent → Report
  | .completed _ => .completed
  | .failed _ error => .failed error

def PulseOutcome.report? : PulseOutcome → Option Report
  | .skipped => none
  | .completed _ => some .completed
  | .failed error => some (.failed error)

-- How a pulse of a scheduler ends: there is no state to show, the maker comes to an outcome, or
-- the time limit strikes first.
inductive PulseEnd where
  | unobserved (error : ProducerError)
  | ended (outcome : PulseOutcome)
  | timedOut
  deriving DecidableEq

namespace PulseEnd

def isCompleted : PulseEnd → Bool
  | .ended (.completed _) => true
  | _ => false

def isSkipped : PulseEnd → Bool
  | .ended .skipped => true
  | _ => false

def isFailed : PulseEnd → Bool
  | .unobserved _ | .ended (.failed _) | .timedOut => true
  | _ => false

def isTimedOut : PulseEnd → Bool
  | .timedOut => true
  | _ => false

def report? (limit : Duration) : PulseEnd → Option Report
  | .unobserved error => some (.failed (.producer error))
  | .ended outcome => outcome.report?
  | .timedOut => some (.failed (.timeout limit))

end PulseEnd

def EventLog.Gains (log : EventLog) (reports : List Report) (log' : EventLog) : Prop :=
  ∃ events, log'.events = log.events ++ events ∧ events.map PulseEvent.report = reports

namespace EventLog
variable {one two three : EventLog} {reports more : List Report}

theorem Gains.nothing (log : EventLog) : log.Gains [] log := ⟨[], by simp, rfl⟩

theorem Gains.publish (log : EventLog) (e : PulseEvent) : log.Gains [e.report] (log.publish e) :=
  ⟨[e], log.events_publish e, rfl⟩

theorem Gains.append (first : one.Gains reports two) (second : two.Gains more three) :
    one.Gains (reports ++ more) three := by
  obtain ⟨events, grown, rfl⟩ := first
  obtain ⟨later, grown', rfl⟩ := second
  exact ⟨events ++ later, by rw [grown', grown, List.append_assoc], List.map_append⟩

end EventLog

theorem Maker.Moved.log {m m' : Maker} (moved : Maker.Moved m m') : m'.log = m.log := by
  obtain ⟨_, _, rfl⟩ := moved
  rfl

def Maker.reports : Except Halt PulseOutcome → List Report
  | .ok outcome => outcome.report?.toList
  | .error _ => []

namespace Maker
variable {m n : Maker} {v : Venue σ} {s t : σ} {answer : Except Halt PulseOutcome}

theorem conclude_gains {log : EventLog} {event : Timestamp → PulseEvent} {outcome : PulseOutcome}
    (quiet : m.log = log) (published : m.conclude v event outcome s = (answer, n, t))
    (own : ∀ now, outcome.report? = some (event now).report) :
    log.Gains (reports answer) n.log := by
  subst quiet
  unfold conclude at published
  cases reading : v.now s with
  | error o =>
    simp only [reading] at published
    cases published
    exact .nothing _
  | ok now =>
    simp only [reading] at published
    cases published
    rw [reports, own now]
    exact .publish _ _

theorem tryPulse_ne_failed (m : Maker) (v : Venue σ) (quote : Except ProducerError Quote)
    (incentives : Decimal) (s : σ) (e : CycleError) :
    (m.tryPulse v quote incentives s).1 ≠ .ok (.failed e) := by
  have tries := m.tryPulse_tries v quote incentives s
  revert tries
  rcases m.tryPulse v quote incentives s with ⟨answer, n, t⟩
  intro tries
  cases tries <;> nofun

theorem pulse_gains {quote : Except ProducerError Quote}
    (ran : m.pulse v quote incentives s = (answer, n, t)) : m.log.Gains (reports answer) n.log := by
  have quiet := (m.tryPulse_moved v quote incentives s).log
  have succeeds := m.tryPulse_ne_failed v quote incentives s
  unfold pulse at ran
  revert quiet succeeds ran
  rcases m.tryPulse v quote incentives s with ⟨(e | h) | _ | receipt | e, k, u⟩
  · exact fun ran quiet _ => conclude_gains quiet ran fun _ => rfl
  · rintro ⟨⟩ quiet -
    exact quiet ▸ .nothing _
  · rintro ⟨⟩ quiet -
    exact quiet ▸ .nothing _
  · exact fun ran quiet _ => conclude_gains quiet ran fun _ => rfl
  · exact fun _ _ succeeds => absurd rfl (succeeds e)

end Maker

namespace Scheduler

def pulseEnd (e : Environment σ) (r : Scheduler) (s : σ) : Option PulseEnd :=
  match e.observe s with
  | .error _ => none
  | .ok (.error error, _) => some (.unobserved error)
  | .ok (.ok state, s) =>
    match e.quote state s with
    | .error _ => none
    | .ok (quote, s) =>
      let limited := e.limit (some r.config.timeout) s
      match (r.maker.pulse e.toVenue quote state.inventory.incentives limited).1 with
      | .ok outcome => some (.ended outcome)
      | .error .cutOff => some .timedOut
      | .error _ => none

def pulseEnds (e : Environment σ) : (ticks : Nat) → (due : Nat) → Scheduler → σ → List PulseEnd
  | 0, _, _, _ => []
  | ticks + 1, due, r, s =>
    match e.awaitTick due s with
    | (.shutdown, _) => []
    | (.tick, s) =>
      let next := nextDue r.config.interval due (e.elapsed s)
      match r.pulseEnd e s, r.runPulse e s with
      | some ended, (.ok (), r, s) => ended :: pulseEnds e ticks next r s
      | _, _ => []

def afterStartup (e : Environment σ) (r : Scheduler) (s : σ) : Scheduler × σ :=
  let (cancelled, r, s) := r.sweep e s
  ({ r with stats := { r.stats with cancelledAtStartup := cancelled } }, s)

def allPulseEnds (e : Environment σ) (ticks : Nat) (r : Scheduler) (s : σ) : List PulseEnd :=
  let (r, s) := r.afterStartup e s
  r.pulseEnds e ticks (e.elapsed s) s

structure Accounts (ends : List PulseEnd) (before after : Scheduler) : Prop where
  config : after.config = before.config
  pulses : after.stats.pulses = before.stats.pulses + ends.length
  completed : after.stats.completed = before.stats.completed + ends.countP (·.isCompleted)
  skipped : after.stats.skipped = before.stats.skipped + ends.countP (·.isSkipped)
  failed : after.stats.failed = before.stats.failed + ends.countP (·.isFailed)
  timedOut : after.stats.timedOut = before.stats.timedOut + ends.countP (·.isTimedOut)
  events : before.maker.log.Gains (ends.filterMap (·.report? before.config.timeout))
    after.maker.log

variable {e : Environment σ} {r r' : Scheduler} {s t : σ}

theorem Accounts.trans {one two three : Scheduler} {ends later : List PulseEnd}
    (first : Accounts ends one two) (second : Accounts later two three) :
    Accounts (ends ++ later) one three where
  config := second.config.trans first.config
  pulses := by rw [second.pulses, first.pulses, List.length_append, Nat.add_assoc]
  completed := by rw [second.completed, first.completed, List.countP_append, Nat.add_assoc]
  skipped := by rw [second.skipped, first.skipped, List.countP_append, Nat.add_assoc]
  failed := by rw [second.failed, first.failed, List.countP_append, Nat.add_assoc]
  timedOut := by rw [second.timedOut, first.timedOut, List.countP_append, Nat.add_assoc]
  events := by
    rw [List.filterMap_append]
    exact first.events.append (first.config ▸ second.events)

theorem Accounts.nothing (config : r'.config = r.config) (pulses : r'.stats.pulses = r.stats.pulses)
    (completed : r'.stats.completed = r.stats.completed)
    (skipped : r'.stats.skipped = r.stats.skipped) (failed : r'.stats.failed = r.stats.failed)
    (timedOut : r'.stats.timedOut = r.stats.timedOut) (log : r'.maker.log = r.maker.log) :
    Accounts [] r r' :=
  ⟨config, pulses, completed, skipped, failed, timedOut, log ▸ .nothing _⟩

-- What sweeps cancel is counted apart.
theorem Accounts.cancelled {ends : List PulseEnd} (accounts : Accounts ends r r')
    (startup shutdown : Nat) :
    Accounts ends r { r' with stats := { r'.stats with
      cancelledAtStartup := startup, cancelledAtShutdown := shutdown } } :=
  ⟨accounts.config, accounts.pulses, accounts.completed, accounts.skipped, accounts.failed,
    accounts.timedOut, accounts.events⟩

theorem sweep_accounts (e : Environment σ) (r : Scheduler) (s : σ) :
    Accounts [] r (r.sweep e s).2.1 :=
  .nothing rfl rfl rfl rfl rfl rfl (r.maker.cancelAll_moved _ _).log

theorem afterStartup_accounts (e : Environment σ) (r : Scheduler) (s : σ) :
    Accounts [] r (r.afterStartup e s).1 :=
  (r.sweep_accounts e s).cancelled _ _

theorem fail_eq (failed : r.fail e error s = (.ok (), r', t)) :
    ∃ now, r' = { r with
      stats := { r.stats with failed := r.stats.failed + 1 }
      maker := r.maker.notifyFailure now error } := by
  unfold fail at failed
  simp only at failed
  cases reading : e.now s with
  | error o =>
    simp only [reading] at failed
    cases failed
  | ok now =>
    simp only [reading] at failed
    cases failed
    exact ⟨now, rfl⟩

theorem runPulse_accounts (ran : r.runPulse e s = (.ok (), r', t)) :
    ∃ ended, r.pulseEnd e s = some ended ∧ Accounts [ended] r r' := by
  unfold runPulse at ran
  unfold pulseEnd
  simp only at ran
  cases observed : e.observe s with
  | error o =>
    simp only [observed] at ran
    cases ran
  | ok seen =>
    obtain ⟨_ | state, s₁⟩ := seen
    · simp only [observed] at ran
      obtain ⟨now, rfl⟩ := fail_eq ran
      exact ⟨_, rfl, rfl, rfl, rfl, rfl, rfl, rfl, .publish _ _⟩
    · simp only [observed] at ran
      cases answered : e.quote state s₁ with
      | error o =>
        simp only [answered] at ran
        cases ran
      | ok answer =>
        obtain ⟨quote, s₂⟩ := answer
        simp only [answered] at ran
        simp only
        rcases pulsed : r.maker.pulse e.toVenue quote state.inventory.incentives
          (e.limit (some r.config.timeout) s₂) with ⟨halt | outcome, maker, s₃⟩
        · have gains := Maker.pulse_gains pulsed
          simp only [pulsed] at ran
          cases halt with
          | cutOff =>
            obtain ⟨now, rfl⟩ := fail_eq ran
            simp only [answered, pulsed]
            exact ⟨_, rfl, rfl, rfl, rfl, rfl, rfl, rfl, gains.append (.publish _ _)⟩
          | overflow o => cases ran
          | outOfDraws => cases ran
        · have gains := Maker.pulse_gains pulsed
          simp only [pulsed] at ran
          cases ran
          simp only [answered, pulsed]
          refine ⟨_, rfl, ?_⟩
          cases outcome with
          | skipped => exact ⟨rfl, rfl, rfl, rfl, rfl, rfl, gains⟩
          | completed receipt => exact ⟨rfl, rfl, rfl, rfl, rfl, rfl, gains⟩
          | failed error => exact ⟨rfl, rfl, rfl, rfl, rfl, rfl, gains⟩

theorem ticking_accounts {ticks due : Nat} (ran : r.ticking e ticks due s = (.ok (), r', t)) :
    Accounts (r.pulseEnds e ticks due s) r r' := by
  induction ticks generalizing r s due with
  | zero =>
    cases ran
    exact .nothing rfl rfl rfl rfl rfl rfl rfl
  | succ ticks ih =>
    unfold ticking at ran
    unfold pulseEnds
    revert ran
    rcases e.awaitTick due s with ⟨_ | _, s₁⟩
    · simp only
      rcases ran : r.runPulse e s₁ with ⟨_ | _, r₁, s₂⟩
      · nofun
      · intro later
        obtain ⟨ended, ends, first⟩ := runPulse_accounts ran
        simp only [ends]
        exact first.trans (ih later)
    · rintro ⟨⟩
      exact .nothing rfl rfl rfl rfl rfl rfl rfl

theorem length_eq_sum (ends : List PulseEnd) :
    ends.length = ends.countP (·.isCompleted) + ends.countP (·.isSkipped) +
      ends.countP (·.isFailed) := by
  induction ends with
  | nil => rfl
  | cons ended later ih =>
    rcases ended with _ | (_ | _ | _) | _ <;>
      simp only [List.countP_cons, List.length_cons, ih, PulseEnd.isCompleted, PulseEnd.isSkipped,
        PulseEnd.isFailed, if_true, Bool.false_eq_true, if_false] <;> omega

theorem timedOut_le_failed (ends : List PulseEnd) :
    ends.countP (·.isTimedOut) ≤ ends.countP (·.isFailed) :=
  List.countP_mono_left fun ended _ late => by cases ended <;> simp_all [PulseEnd.isTimedOut,
    PulseEnd.isFailed]

theorem untilShutdown_accounts {ticks : Nat}
    (ended : r.untilShutdown e ticks s = (.ok (), r', t)) :
    Accounts (r.allPulseEnds e ticks s) r r' := by
  have startup := r.afterStartup_accounts e s
  unfold untilShutdown at ended
  unfold allPulseEnds
  simp only at ended
  split at ended
  · cases ended
  · exact startup.trans (ticking_accounts ended)

-- The sweeps at both ends of a run leave the counts and the events of its pulses alone.
theorem run_accounts {config : SchedulerConfig} {maker : Maker} {ticks : Nat}
    (ran : (Scheduler.mk config maker {}).run e ticks s = (.ok (), r, t)) :
    let ends := (Scheduler.mk config maker {}).allPulseEnds e ticks s
    r.stats.pulses = r.stats.completed + r.stats.skipped + r.stats.failed ∧
      r.stats.timedOut ≤ r.stats.failed ∧ Accounts ends ⟨config, maker, {}⟩ r := by
  intro ends
  have accounts : Accounts ends ⟨config, maker, {}⟩ r := by
    rw [run_eq] at ran
    revert ran
    rcases ended : untilShutdown e ticks ⟨config, maker, {}⟩ s with ⟨_ | _, last, s₁⟩
    · nofun
    · rintro ⟨⟩
      have swept := (untilShutdown_accounts ended).trans (last.sweep_accounts e s₁)
      rw [List.append_nil] at swept
      exact swept.cancelled _ _
  refine ⟨?_, ?_, accounts⟩
  · rw [accounts.pulses, accounts.completed, accounts.skipped, accounts.failed, length_eq_sum]
    simp only [Nat.zero_add]
  · rw [accounts.timedOut, accounts.failed]
    exact Nat.add_le_add_left (timedOut_le_failed ends) 0

structure Course where
  spells : List Spell
  states : List (Except ProducerError ModelState)

def Course.surroundings : Surroundings Course where
  request c := (c.spells.headD {}, { c with spells := c.spells.tail })
  pause _ c := (c.spells.headD {}, { c with spells := c.spells.tail })
  now _ := .ok .epoch

def Course.environment : Environment (Floor Course) where
  toVenue := Course.surroundings.venue
  observe f :=
    match f.rest.states with
    | [] => .ok (.error (.missingData "no state"), f)
    | state :: later => .ok (state, { f with rest := { f.rest with states := later } })
  quote state f :=
    .ok (.ok (if state.price.isSome then .live (Desk.spread 99 101) else .suppressed), f)
  limit _ f := f
  elapsed _ := 0
  awaitTick _ f := (.tick, f)

-- The first pulse is completed, the second finds no state, the third is suppressed, and the fourth
-- is cut off after its submission failed.
theorem run_accounts_for_each_ending :
    let priced : ModelState :=
      ⟨"SOL/USDC", some (.ofMid (.ofWord 100 0)), ⟨.one, .one, .zero⟩, .epoch⟩
    let course : Course := {
      spells := [{}, {}, {}, { disturbances := [.failSubmissions 1] }, {}, { cutOff := true }]
      states := [.ok priced, .error (.missingData "feed"), .ok { priced with price := none },
        .ok priced] }
    let start : Scheduler := ⟨{}, (Desk.small []).maker, {}⟩
    let f : Floor Course := { exchange := { lag := 1 }, rest := course }
    let (answer, r, _) := start.run Course.environment 4 f
    let ends := start.allPulseEnds Course.environment 4 f
    answer = .ok () ∧ ends.map (·.isCompleted) = [true, false, false, false] ∧
      ends.map (·.isSkipped) = [false, false, true, false] ∧
      ends.map (·.isTimedOut) = [false, false, false, true] ∧
      r.stats.pulses = r.stats.completed + r.stats.skipped + r.stats.failed ∧
      r.stats.timedOut ≤ r.stats.failed ∧ Accounts ends start r := by
  intro priced course start f
  have answered : (start.run Course.environment 4 f).1 = .ok () := by cbv
  have completed : (start.allPulseEnds Course.environment 4 f).map (·.isCompleted) =
    [true, false, false, false] := by cbv
  have skipped : (start.allPulseEnds Course.environment 4 f).map (·.isSkipped) =
    [false, false, true, false] := by cbv
  have timedOut : (start.allPulseEnds Course.environment 4 f).map (·.isTimedOut) =
    [false, false, false, true] := by cbv
  have ran : start.run Course.environment 4 f =
      (.ok (), (start.run Course.environment 4 f).2) := Prod.ext answered rfl
  have accounts := run_accounts ran
  exact ⟨answered, completed, skipped, timedOut, accounts⟩

end Scheduler
end MarketMaking
