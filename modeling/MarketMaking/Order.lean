import MarketMaking.Decimal.Text

/-! Orders: what a quote asks for and what rests on a book. An order is known to the exchange by the
id that the exchange gave it, and to its owner by a client id chosen before it was sent. -/

namespace MarketMaking

inductive Side where
  | buy
  | sell
  deriving DecidableEq, Repr

namespace Side

def opposite : Side → Side
  | .buy => .sell
  | .sell => .buy

def toText : Side → String
  | .buy => "BUY"
  | .sell => "SELL"

end Side

inductive OrderType where
  | limit
  | postOnly
  | immediateOrCancel
  deriving DecidableEq, Repr

structure ClientId where
  value : UInt64
  deriving DecidableEq

def ClientId.toText (id : ClientId) : String := toString id.value.toNat

structure Order where
  side : Side
  price : Decimal
  quantity : Decimal
  orderType : OrderType
  exchangeId : Option String := none
  clientId : Option ClientId := none
  deriving DecidableEq

namespace Order

def withClientId (o : Order) (id : ClientId) : Order := { o with clientId := some id }
def withExchangeId (o : Order) (id : String) : Order := { o with exchangeId := some id }

def isBuy (o : Order) : Bool := o.side == .buy

-- Prices and quantities agree as numbers, whatever their scales.
instance : HasEquiv Order where
  Equiv a b := a.side = b.side ∧ a.price ≈ b.price ∧ a.quantity ≈ b.quantity ∧
    a.orderType = b.orderType ∧ a.exchangeId = b.exchangeId ∧ a.clientId = b.clientId

instance (a b : Order) : Decidable (a ≈ b) := inferInstanceAs (Decidable (_ ∧ _))

theorem equiv_refl (o : Order) : o ≈ o := ⟨rfl, rfl, rfl, rfl, rfl, rfl⟩

def toText (o : Order) : String :=
  o.side.toText ++ " " ++ o.quantity.toText ++ " @ " ++ o.price.toText ++
    (match o.clientId with | some id => " [client " ++ id.toText ++ "]" | none => "") ++
    (match o.exchangeId with | some id => " [exchange " ++ id ++ "]" | none => "")

end Order
end MarketMaking
