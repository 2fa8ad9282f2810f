import MarketMaking.Quote

/-! Quoting chains: a quote is built by elements one after the other, each of which takes the
quote so far and gives the next one. A suppressed quote ends the chain, an error ends it without
a quote. -/

namespace MarketMaking

structure FixedSpread where
  spreadRatio : Decimal := .ofWord 5 3
  positionSizeRatio : Decimal := .ofWord 1 2
  orderType : OrderType := .postOnly
  deriving DecidableEq

namespace FixedSpread

def size (f : FixedSpread) (inventory : Inventory) (mid : Decimal) : Checked Decimal := do
  let value ← inventory.totalValue mid
  (← value.mul f.positionSizeRatio).div mid

def process (f : FixedSpread) (state : ModelState) (quote : Quote) : Quoting Quote :=
  match state.midPrice with
  | none => return .suppressed
  | some mid => do
    if mid ≤ .zero then throw (.invalidState ("non-positive mid price " ++ mid.toText))
    let size ← f.size state.inventory mid
    if size ≤ .zero then return quote.mapOrders fun _ => []
    let offset ← mid.mul f.spreadRatio
    let bid ← mid.sub offset
    let ask ← mid.add offset
    let buy : Order := { side := .buy, price := bid, quantity := size, orderType := f.orderType }
    let sell : Order := { side := .sell, price := ask, quantity := size, orderType := f.orderType }
    return quote.mapOrders (· ++ [buy, sell])

end FixedSpread

structure InventoryLimit where
  maxBase : Option Decimal
  minBase : Option Decimal
  deriving DecidableEq

namespace InventoryLimit

def allows (l : InventoryLimit) (base : Decimal) : Side → Bool
  | .buy => l.maxBase.all fun most => base < most
  | .sell => l.minBase.all fun least => least < base

-- A quote that loses its last order here is suppressed; one that had none is left as it is.
def process (l : InventoryLimit) (state : ModelState) (quote : Quote) : Quote :=
  if quote.orders.isEmpty then quote
  else
    let allowed := quote.mapOrders (·.filter fun o => l.allows state.inventory.base o.side)
    if allowed.orders.isEmpty then .suppressed else allowed

end InventoryLimit

structure Rounding where
  tickSize : Decimal
  lotSize : Decimal
  deriving DecidableEq

namespace Rounding

-- Always away from the mid price, so that rounding never tightens the spread.
def price (r : Rounding) (o : Order) : Checked Decimal := do
  if r.tickSize ≤ .zero then return o.price
  let ticks ← o.price.div r.tickSize
  (match o.side with | .buy => ticks.floor | .sell => ticks.ceil).mul r.tickSize

def quantity (r : Rounding) (o : Order) : Checked Decimal := do
  if r.lotSize ≤ .zero then return o.quantity
  (← o.quantity.div r.lotSize).floor.mul r.lotSize

def round (r : Rounding) (o : Order) : Checked Order := do
  let price ← r.price o
  let quantity ← r.quantity o
  return { o with price, quantity }

def roundAll (r : Rounding) (orders : List Order) : Checked (List Order) := do
  let rounded ← orders.mapM r.round
  return rounded.filter fun o => .zero < o.quantity && .zero < o.price

def process (r : Rounding) : Quote → Checked Quote
  | .live orders => (r.roundAll orders).map .live
  | .suppressed => .ok .suppressed

end Rounding

inductive Element where
  | fixedSpread (f : FixedSpread)
  | inventoryLimit (l : InventoryLimit)
  | rounding (r : Rounding)
  | add (o : Order)
  | suppress
  | fail (e : ProducerError)
  deriving DecidableEq

namespace Element

def name : Element → String
  | .fixedSpread _ => "FixedSpread"
  | .inventoryLimit _ => "InventoryLimit"
  | .rounding _ => "Rounding"
  | .add _ => "Add"
  | .suppress => "Suppress"
  | .fail _ => "Fail"

def process (e : Element) (state : ModelState) (quote : Quote) : Quoting Quote :=
  match e with
  | .fixedSpread f => f.process state quote
  | .inventoryLimit l => return l.process state quote
  | .rounding r => r.process quote
  | .add o => return quote.mapOrders (· ++ [o])
  | .suppress => return .suppressed
  | .fail e => throw e

end Element

structure Chain where
  elements : List Element
  deriving DecidableEq

namespace Chain

def name : String := "OrderChain"
def length (c : Chain) : Nat := c.elements.length
def isEmpty (c : Chain) : Bool := c.elements.isEmpty

def process (state : ModelState) (quote : Quote) : List Element → Quoting Quote
  | [] => return quote
  | e :: rest => do
    match ← e.process state quote with
    | .suppressed => return .suppressed
    | next => process state next rest

def desiredOrders (c : Chain) (state : ModelState) : Quoting Quote :=
  process state .empty c.elements

end Chain
end MarketMaking
