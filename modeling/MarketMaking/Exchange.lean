import MarketMaking.Batch
import MarketMaking.Failure

/-! A paper exchange: one book of resting orders that behaves like a slow venue. A batch is checked
as a whole and then applied as a whole, a new order stays out of the listing for a number of
fetches, and the next submissions or fetches can be made to fail. -/

namespace MarketMaking

structure Resting where
  order : Order
  hidden : Nat
  deriving DecidableEq

structure Exchange where
  lag : Nat := 0
  resting : List Resting := []
  issued : Nat := 0
  submissions : Nat := 0
  fetches : Nat := 0
  failingSubmissions : Nat := 0
  rejectedSubmissions : Nat := 0
  failingFetches : Nat := 0
  deriving DecidableEq

-- Whether an instruction about `target` means this resting order. The exchange id decides if the
-- target has one, else the client id; a target with neither means none.
def Order.designates (target resting : Order) : Bool :=
  match target.exchangeId, target.clientId with
  | some id, _ => resting.exchangeId == some id
  | none, some id => resting.clientId == some id
  | none, none => false

def Order.describe (target : Order) : String :=
  match target.exchangeId, target.clientId with
  | some id, _ => id
  | none, some id => "client " ++ id.toText
  | none, none => target.toText

namespace Exchange

def orders (x : Exchange) : List Order := x.resting.map (·.order)

def visible (x : Exchange) : List Order :=
  (x.resting.filter (·.hidden == 0)).map (·.order)

def holds (x : Exchange) (target : Order) : Bool := x.resting.any (target.designates ·.order)

def remove (x : Exchange) (target : Order) : Exchange :=
  { x with resting := x.resting.eraseP (target.designates ·.order) }

def orderId (n : Nat) : String := "paper-" ++ toString n

def rest (x : Exchange) (o : Order) : Exchange :=
  { x with
    issued := x.issued + 1
    resting := x.resting ++ [⟨o.withExchangeId (orderId (x.issued + 1)), x.lag⟩] }

def fetch : StateM Exchange (Except RemoteError (List Order)) := fun x =>
  let x := { x with fetches := x.fetches + 1 }
  if 0 < x.failingFetches then
    (.error (.transient "injected fetch failure"),
      { x with failingFetches := x.failingFetches - 1 })
  else
    (.ok x.visible,
      { x with resting := x.resting.map fun r => { r with hidden := r.hidden - 1 } })

-- What is wrong with one operation of a batch, judged by the book before the batch.
def fault (x : Exchange) : Operation → Option RemoteError
  | .cancel target okIfMissing =>
    if okIfMissing || x.holds target then none else some (.orderNotFound target.describe)
  | .place o =>
    if o.price ≤ .zero then some (.rejected ("non-positive price " ++ o.price.toText))
    else if o.quantity ≤ .zero then some (.rejected ("non-positive quantity " ++ o.quantity.toText))
    else none
  | .crank | .settle | .redeem => none

def apply (x : Exchange) : Operation → Exchange
  | .cancel target _ => x.remove target
  | .place o => x.rest o
  | .crank | .settle | .redeem => x

def signature (n : Nat) : String := "paper-tx-" ++ toString n

-- Every operation counts in its group, a cancel also when nothing was there to cancel.
def count (r : Receipt) : Operation → Receipt
  | .cancel _ _ => { r with cancelled := r.cancelled + 1 }
  | .place _ => { r with placed := r.placed + 1 }
  | .crank => { r with cranked := r.cranked + 1 }
  | .settle | .redeem => { r with settled := r.settled + 1 }

-- An injected failure comes before an injected rejection, and that before any check.
def submit (b : Batch) : StateM Exchange (Except RemoteError Receipt) := fun x =>
  let x := { x with submissions := x.submissions + 1 }
  if 0 < x.failingSubmissions then
    (.error (.transient "injected submission failure"),
      { x with failingSubmissions := x.failingSubmissions - 1 })
  else if 0 < x.rejectedSubmissions then
    (.error (.rejected "injected rejection"),
      { x with rejectedSubmissions := x.rejectedSubmissions - 1 })
  else
    match b.toList.findSome? x.fault with
    | some e => (.error e, x)
    | none =>
      let operations := b.groups.flatten
      (.ok (operations.foldl count ⟨signature x.submissions, 0, 0, 0, 0⟩),
        operations.foldl apply x)

def cancel (target : Order) (okIfMissing : Bool) : StateM Exchange (Except RemoteError Unit) :=
  fun x =>
    if x.holds target then (.ok (), x.remove target)
    else if okIfMissing then (.ok (), x)
    else (.error (.orderNotFound target.describe), x)

def fill (id : ClientId) : StateM Exchange (Option Order) := fun x =>
  match x.orders.find? (·.clientId == some id) with
  | none => (none, x)
  | some o =>
    (some o, { x with resting := x.resting.eraseP (·.order.clientId == some id) })

def failSubmissions (n : Nat) (x : Exchange) : Exchange := { x with failingSubmissions := n }
def rejectSubmissions (n : Nat) (x : Exchange) : Exchange := { x with rejectedSubmissions := n }
def failFetches (n : Nat) (x : Exchange) : Exchange := { x with failingFetches := n }

end Exchange
end MarketMaking
