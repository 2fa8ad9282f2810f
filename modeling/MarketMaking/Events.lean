import MarketMaking.Failure
import MarketMaking.Timestamp

/-! The events of pulses and those who follow them. The log keeps the last 256 events for a follower
who falls behind: the first thing such a follower learns is how many were lost. -/

namespace MarketMaking

inductive PulseEvent where
  | completed (time : Timestamp)
  | failed (time : Timestamp) (error : CycleError)
  deriving DecidableEq

-- Every event published so far, newest first.
structure EventLog where
  newest : List PulseEvent := []
  deriving DecidableEq

structure Follower where
  passed : Nat
  deriving DecidableEq

inductive Notice where
  | lost (count : Nat)
  | event (e : PulseEvent)
  deriving DecidableEq

namespace EventLog

def capacity : Nat := 256

def publish (log : EventLog) (e : PulseEvent) : EventLog := ⟨e :: log.newest⟩

def events (log : EventLog) : List PulseEvent := log.newest.reverse

def length (log : EventLog) : Nat := log.newest.length

@[simp] theorem events_publish (log : EventLog) (e : PulseEvent) :
    (log.publish e).events = log.events ++ [e] := List.reverse_cons

@[simp] theorem length_events (log : EventLog) : log.events.length = log.length :=
  List.length_reverse

def follow (log : EventLog) : Follower := ⟨log.length⟩

def oldest (log : EventLog) : Nat := log.length - capacity

def since (log : EventLog) (position : Nat) : List PulseEvent :=
  (log.newest.take (log.length - position)).reverse

theorem since_eq_drop (log : EventLog) (position : Nat) :
    log.since position = log.events.drop position := by
  simp only [since, events, length, List.drop_reverse]

def pending (log : EventLog) (f : Follower) : List Notice × Follower :=
  let lost := log.oldest - f.passed
  let kept := (log.since (max f.passed log.oldest)).map .event
  (if lost = 0 then kept else .lost lost :: kept, ⟨log.length⟩)

def pendingEvents (log : EventLog) (f : Follower) : Nat :=
  (log.since (max f.passed log.oldest)).length

end EventLog
end MarketMaking
