import MarketMaking.Order

/-! Batches: the instructions that one submission carries to the exchange. Whatever the order in
which they were added, cancels come first, then places, then cranks, then settlement. -/

namespace MarketMaking

inductive Operation where
  | cancel (order : Order) (okIfMissing : Bool)
  | place (order : Order)
  | crank
  | settle
  | redeem
  deriving DecidableEq

def Operation.isSettlement : Operation → Bool
  | .settle | .redeem => true
  | _ => false

structure Batch where
  cancels : List Operation := []
  places : List Operation := []
  cranks : List Operation := []
  settlements : List Operation := []
  deriving DecidableEq

namespace Batch

def empty : Batch := {}

def add (b : Batch) (op : Operation) : Batch :=
  match op with
  | .cancel _ _ => { b with cancels := b.cancels ++ [op] }
  | .place _ => { b with places := b.places ++ [op] }
  | .crank => { b with cranks := b.cranks ++ [op] }
  | .settle | .redeem => { b with settlements := b.settlements ++ [op] }

def ofList (ops : List Operation) : Batch := ops.foldl add empty

def toList (b : Batch) : List Operation := b.cancels ++ b.places ++ b.cranks ++ b.settlements

-- The groups one by one, as the exchange takes them up.
def groups (b : Batch) : List (List Operation) := [b.cancels, b.places, b.cranks, b.settlements]

def length (b : Batch) : Nat :=
  b.cancels.length + b.places.length + b.cranks.length + b.settlements.length

def isEmpty (b : Batch) : Bool := b.length == 0

theorem flatten_groups (b : Batch) : b.groups.flatten = b.toList := by
  simp [groups, toList, List.append_assoc]

theorem length_toList (b : Batch) : b.toList.length = b.length := by
  simp [toList, length, Nat.add_assoc]

end Batch

structure Receipt where
  signature : String
  cancelled : UInt64
  placed : UInt64
  cranked : UInt64
  settled : UInt64
  deriving DecidableEq

end MarketMaking
