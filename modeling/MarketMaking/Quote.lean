import MarketMaking.Failure
import MarketMaking.Model

/-! A quote: the orders that should be on the book, or the wish not to touch the book at all. Once
suppressed, a quote stays suppressed. -/

namespace MarketMaking

inductive Quote where
  | live (orders : List Order)
  | suppressed
  deriving DecidableEq

namespace Quote

def empty : Quote := .live []

def isSuppressed : Quote → Bool
  | .live _ => false
  | .suppressed => true

def orders : Quote → List Order
  | .live orders => orders
  | .suppressed => []

def mapOrders (f : List Order → List Order) : Quote → Quote
  | .live orders => .live (f orders)
  | .suppressed => .suppressed

@[simp] theorem mapOrders_suppressed (f : List Order → List Order) :
    mapOrders f .suppressed = .suppressed := rfl

theorem orders_mapOrders (f : List Order → List Order) (orders : List Order) :
    (mapOrders f (.live orders)).orders = f orders := rfl

end Quote

abbrev Quoting := ExceptT ProducerError Checked

end MarketMaking
