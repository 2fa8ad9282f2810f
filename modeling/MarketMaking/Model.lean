import MarketMaking.Decimal.Arithmetic
import MarketMaking.Timestamp

/-! What a quoting strategy may look at for one pulse: the market's prices, the balances held, and
when they were observed. -/

namespace MarketMaking

structure PriceSnapshot where
  bid : Decimal
  ask : Decimal
  mid : Decimal
  deriving DecidableEq

namespace PriceSnapshot

def ofBidAsk (bid ask : Decimal) : Checked PriceSnapshot := do
  let mid ← (← bid.add ask).div .two
  return ⟨bid, ask, mid⟩

def ofMid (mid : Decimal) : PriceSnapshot := ⟨mid, mid, mid⟩

def spread (p : PriceSnapshot) : Checked Decimal := p.ask.sub p.bid

end PriceSnapshot

structure Inventory where
  base : Decimal
  quote : Decimal
  incentives : Decimal
  deriving DecidableEq

def Inventory.totalValue (i : Inventory) (price : Decimal) : Checked Decimal := do
  (← i.base.mul price).add i.quote

structure ModelState where
  market : String
  price : Option PriceSnapshot
  inventory : Inventory
  observedAt : Timestamp
  deriving DecidableEq

def ModelState.midPrice (s : ModelState) : Option Decimal := s.price.map (·.mid)

end MarketMaking
