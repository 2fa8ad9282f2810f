import MarketMaking.Chain
import MarketMaking.RandomWalk
import MarketMaking.Retry

/-! Scripts for simulated parts: a list of entries taken one after the other, the last of which is
repeated for ever. -/

namespace MarketMaking.Simulation

structure Script (α : Type) where
  entries : List α

def Script.next (s : Script α) : Option α × Script α :=
  match s.entries with
  | [] => (none, s)
  | [last] => (some last, s)
  | entry :: rest => (some entry, ⟨rest⟩)

inductive Producer where
  | script (quotes : Script (Except ProducerError Quote))
  | chain (c : Chain)

namespace Producer

def name : Producer → String
  | .script _ => "DesiredOrdersProducer"
  | .chain _ => Chain.name

def rescript (p : Producer) (quotes : List (Except ProducerError Quote)) : Producer :=
  match p with
  | .script _ => .script ⟨quotes⟩
  | .chain c => .chain c

def quote (p : Producer) (state : ModelState) : Checked (Except ProducerError Quote × Producer) :=
  match p with
  | .script quotes =>
    let (entry, quotes) := quotes.next
    .ok (entry.getD (.ok .empty), .script quotes)
  | .chain c => (c.desiredOrders state).run.map fun quote => (quote, .chain c)

end Producer

inductive StateSource where
  | script (states : Script (Checked (Except ProducerError ModelState)))
  | walk (w : RandomWalk)

def StateSource.observe (source : StateSource) (clock : Checked Timestamp) :
    Checked (Except ProducerError ModelState × StateSource) :=
  match source with
  | .script states =>
    let (entry, states) := states.next
    (entry.getD (.ok (.error (.missingData "no state")))).map (·, .script states)
  | .walk w => (w.next clock).map fun (state, w) => (state, .walk w)

structure Rehearsal (ε α : Type) where
  script : Script (Except ε α)
  callTime : Duration
  now : Nat := 0
  calls : List Nat := []

namespace Rehearsal

def call (missing : ε) : StateM (Rehearsal ε α) (Except ε α) := fun r =>
  let (entry, script) := r.script.next
  (entry.getD (.error missing),
    { r with script, calls := r.now :: r.calls, now := r.now + r.callTime.waited.nanos })

def pause (d : Duration) : StateM (Rehearsal ε α) Unit := modify fun r =>
  { r with now := r.now + d.waited.nanos }

def perform (p : RetryPolicy) (missing : ε) : StateM (Rehearsal ε α) (Except ε α) :=
  p.run pause (call missing)

end Rehearsal
end MarketMaking.Simulation
