import MarketMaking.Decimal.Arithmetic
import MarketMaking.Order

/-! Reconciliation: which of the orders believed to be live have to go and which of the desired ones
have to be placed. An order close enough to a desired one stays, which saves a round trip and its
place in the queue. Pairs are matched greedily, the closest first. -/

namespace MarketMaking

structure Plan where
  toCancel : List Order
  toPlace : List Order
  deriving DecidableEq

namespace Plan

def isEmpty (p : Plan) : Bool := p.toCancel.isEmpty && p.toPlace.isEmpty
def actions (p : Plan) : Nat := p.toCancel.length + p.toPlace.length

end Plan

structure Candidate where
  score : Decimal
  existing : Nat
  desired : Nat
  deriving DecidableEq

namespace Candidate

-- Scores compare as numbers. Ties go to the earlier existing and then to the earlier desired order.
def precedes (a b : Candidate) : Bool :=
  decide (a.score < b.score) ||
    (decide (a.score ≈ b.score) &&
      (decide (a.existing < b.existing) ||
        (a.existing == b.existing && decide (a.desired ≤ b.desired))))

def overlaps (a b : Candidate) : Bool := a.existing == b.existing || a.desired == b.desired

end Candidate

namespace Reconciliation

def within (tolerance value target : Decimal) : Checked Bool := do
  let distance ← value.sub target
  let allowed ← tolerance.mul target.abs
  return decide (distance.abs ≤ allowed)

-- The distance of `value` from `target` as a part of `target`. Only zero itself is within any
-- tolerance of zero.
def relativeDistance (value target : Decimal) : Checked Decimal := do
  if target.isZero then return .zero
  (← value.sub target).abs.div target.abs

def equivalent (tolerance : Decimal) (existing desired : Order) : Checked Bool := do
  if existing.side ≠ desired.side then return false
  if !(← within tolerance existing.price desired.price) then return false
  within tolerance existing.quantity desired.quantity

def score (existing desired : Order) : Checked Decimal := do
  let price ← relativeDistance existing.price desired.price
  let quantity ← relativeDistance existing.quantity desired.quantity
  price.add quantity

def pairs (existing desired : List Order) : List ((Order × Nat) × (Order × Nat)) :=
  existing.zipIdx.flatMap fun e => desired.zipIdx.map fun d => (e, d)

def candidates (tolerance : Decimal) :
    List ((Order × Nat) × (Order × Nat)) → Checked (List Candidate)
  | [] => .ok []
  | ((e, i), (d, j)) :: rest => do
    if ← equivalent tolerance e d then
      let s ← score e d
      return ⟨s, i, j⟩ :: (← candidates tolerance rest)
    else candidates tolerance rest

def accept (accepted : List Candidate) : List Candidate → List Candidate
  | [] => accepted
  | c :: rest =>
    if accepted.any c.overlaps then accept accepted rest else accept (accepted ++ [c]) rest

def matching (tolerance : Decimal) (existing desired : List Order) : Checked (List Candidate) := do
  let found ← candidates tolerance (pairs existing desired)
  return accept [] (found.mergeSort Candidate.precedes)

def leftOver (orders : List Order) (taken : Nat → Bool) : List Order :=
  (orders.zipIdx.filter fun o => !taken o.2).map (·.1)

end Reconciliation

inductive Reconciler where
  -- Keeps what is within a tolerance; a negative one counts as its magnitude.
  | tolerance (ratio : Decimal)
  | replaceAll
  deriving DecidableEq

namespace Reconciler
open Reconciliation

def standard : Reconciler := .tolerance (.ofWord 1 3)

def name : Reconciler → String
  | .tolerance _ => "ToleranceReconciler"
  | .replaceAll => "ReplaceAllReconciler"

def ratio? : Reconciler → Option Decimal
  | .tolerance ratio => some ratio.abs
  | .replaceAll => none

def plan (r : Reconciler) (existing desired : List Order) : Checked Plan :=
  match r with
  | .replaceAll => .ok ⟨existing, desired⟩
  | .tolerance ratio => do
    let kept ← matching ratio.abs existing desired
    return {
      toCancel := leftOver existing fun i => kept.any (·.existing == i)
      toPlace := leftOver desired fun j => kept.any (·.desired == j) }

end Reconciler
end MarketMaking
