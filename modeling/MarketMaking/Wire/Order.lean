import MarketMaking.Batch
import MarketMaking.Json.Reader
import MarketMaking.Tracker

/-! Orders, operations and receipts as JSON, written and read. Decimals are written as strings,
client ids as numbers, and what is absent as null. -/

namespace MarketMaking
open Json Json.Source

def Decimal.toJson (d : Decimal) : Json := .string d.toText

def Side.variants : List (String × Side) := [("Buy", .buy), ("Sell", .sell)]

def Side.toJson : Side → Json
  | .buy => .string "Buy"
  | .sell => .string "Sell"

def Side.read : Reader Side := readVariant Side.variants

def OrderType.variants : List (String × OrderType) :=
  [("limit", .limit), ("post_only", .postOnly), ("immediate_or_cancel", .immediateOrCancel)]

def OrderType.toJson : OrderType → Json
  | .limit => .string "limit"
  | .postOnly => .string "post_only"
  | .immediateOrCancel => .string "immediate_or_cancel"

def OrderType.read : Reader OrderType := readVariant OrderType.variants

def ClientId.toJson (id : ClientId) : Json := .ofWord id.value

def ClientId.read : Reader ClientId := fun s => (readWord "u64" s).map ClientId.mk

namespace Order

def toJson (o : Order) : Json := .object [
  ("side", o.side.toJson),
  ("price", o.price.toJson),
  ("quantity", o.quantity.toJson),
  ("order_type", o.orderType.toJson),
  ("exchange_order_id", .ofOption .string o.exchangeId),
  ("client_id", .ofOption ClientId.toJson o.clientId)]

def shape : Shape where
  title := "struct Order"
  fields := [
    field "side" Side.read,
    field "price" readDecimal,
    field "quantity" readDecimal,
    field "order_type" OrderType.read,
    field "exchange_order_id" (readOption readText),
    field "client_id" (readOption ClientId.read)]

def read : Reader Order := fun s => do
  let m ← readRecord shape s
  return {
    side := ← m.required "side" Side.read
    price := ← m.required "price" readDecimal
    quantity := ← m.required "quantity" readDecimal
    orderType := ← m.required "order_type" OrderType.read
    exchangeId := ← m.optional "exchange_order_id" readText
    clientId := ← m.optional "client_id" ClientId.read }

end Order

namespace Operation

def toJson : Operation → Json
  | .cancel order okIfMissing => .object [("Cancel", .object [
      ("order", order.toJson), ("ok_if_missing", .bool okIfMissing)])]
  | .place order => .object [("Place", order.toJson)]
  | .crank => .string "Crank"
  | .settle => .string "Settle"
  | .redeem => .string "Redeem"

def cancelShape : Shape where
  title := "struct variant Operation::Cancel"
  fields := [field "order" Order.read, field "ok_if_missing" readBool]

def readCancel : Reader Operation := fun s => do
  let m ← readRecord cancelShape s
  return .cancel (← m.required "order" Order.read) (← m.required "ok_if_missing" readBool)

inductive Content where
  | cancel
  | place
  | nothing (op : Operation)

def variants : List (String × Content) :=
  [("Cancel", .cancel), ("Place", .place), ("Crank", .nothing .crank),
    ("Settle", .nothing .settle), ("Redeem", .nothing .redeem)]

def read : Reader Operation
  | .string (some name) => do
    match ← variantOf variants name with
    | .cancel => mismatch (.type .bareVariant "struct variant")
    | .place => mismatch (.type .bareVariant "newtype variant")
    | .nothing op => return op
  | s => do
    let (name, content, alone) ← s.variantName
    let op ←
      match ← variantOf variants name with
      | .cancel => readCancel content
      | .place => (Order.read content).map Operation.place
      | .nothing op => (content.readNull "unit").map fun _ => op
    if alone then return op else throw .malformed

end Operation

namespace Receipt

def toJson (r : Receipt) : Json := .object [
  ("signature", .string r.signature),
  ("cancelled", .ofWord r.cancelled),
  ("placed", .ofWord r.placed),
  ("cranked", .ofWord r.cranked),
  ("settled", .ofWord r.settled)]

def shape : Shape where
  title := "struct Receipt"
  fields := [
    field "signature" readText,
    field "cancelled" (readWord "usize"),
    field "placed" (readWord "usize"),
    field "cranked" (readWord "usize"),
    field "settled" (readWord "usize")]

def read : Reader Receipt := fun s => do
  let m ← readRecord shape s
  return {
    signature := ← m.required "signature" readText
    cancelled := ← m.required "cancelled" (readWord "usize")
    placed := ← m.required "placed" (readWord "usize")
    cranked := ← m.required "cranked" (readWord "usize")
    settled := ← m.required "settled" (readWord "usize") }

end Receipt

namespace TrackerConfig

def toJson (c : TrackerConfig) : Json := .object [
  ("max_tracked", .ofWord c.maxTracked),
  ("max_unconfirmed_pulses", .ofWord c.maxUnconfirmed)]

def shape : Shape where
  title := "struct TrackerConfig"
  fields := [
    field "max_tracked" (readWord "usize"),
    field "max_unconfirmed_pulses" (readWord "usize")]

def read : Reader TrackerConfig := fun s => do
  let m ← readRecord shape s
  return {
    maxTracked := ← m.required "max_tracked" (readWord "usize")
    maxUnconfirmed := ← m.required "max_unconfirmed_pulses" (readWord "usize") }

end TrackerConfig
end MarketMaking
