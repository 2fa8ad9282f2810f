import MarketMaking.Config
import MarketMaking.Quote

/-! A simulated market: a reference price that wanders by a random part of its volatility each
pulse, shown with a fixed inventory whose incentives accrue. -/

namespace MarketMaking

structure RandomWalk where
  market : String
  config : PaperConfig
  price : Decimal
  inventory : Inventory
  -- Thousandths of the volatility, from -1000 to 1000, one for each pulse. Once they are used
  -- up the price stands still.
  draws : List Int
  deriving DecidableEq

namespace RandomWalk

def start (market : String) (config : PaperConfig) (draws : List Int) : RandomWalk where
  market
  config
  price := config.initialPrice
  inventory := ⟨config.baseBalance, config.quoteBalance, .zero⟩
  draws

def thousandths (draw : Int) : Decimal := (Decimal.ofScaled? draw 3).getD .zero

def moved (w : RandomWalk) (draw : Int) : Checked Decimal := do
  let change ← (thousandths draw).mul w.config.volatility
  return (← w.price.mul (← Decimal.one.add change)).roundPlaces 6

-- Moves the price and shows the market at the time that the clock reads. The move stands even if
-- the price it leads to cannot be shown.
def next (w : RandomWalk) (clock : Checked Timestamp) :
    Checked (Except ProducerError ModelState × RandomWalk) := do
  let mid ← w.moved (w.draws.head?.getD 0)
  let w := { w with price := mid, draws := w.draws.tail }
  if mid ≤ .zero then
    return (.error (.invalidState ("simulated price fell to " ++ mid.toText)), w)
  let halfSpread ← mid.mul w.config.bookHalfSpreadRatio
  let incentives ← w.inventory.incentives.add w.config.incentivePerPulse
  let w := { w with inventory := { w.inventory with incentives } }
  let now ← clock
  let price ← PriceSnapshot.ofBidAsk (← mid.sub halfSpread) (← mid.add halfSpread)
  return (.ok ⟨w.market, some price, w.inventory, now⟩, w)

def step (w : RandomWalk) (now : Timestamp) (ms : Int) :
    Checked (Except ProducerError ModelState × RandomWalk × Timestamp) := do
  let (state, w) ← w.next (.ok now)
  return (state, w, ← now.advance ms)

end RandomWalk
end MarketMaking
