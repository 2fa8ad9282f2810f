import MarketMaking.Model
import MarketMaking.Wire.Order

/-! Model states as JSON, written and read. Timestamps are written as RFC 3339 text. -/

namespace MarketMaking
open Json Json.Source

def Timestamp.toJson (t : Timestamp) : Json := .string t.toText

namespace PriceSnapshot

def toJson (p : PriceSnapshot) : Json := .object [
  ("bid", p.bid.toJson), ("ask", p.ask.toJson), ("mid", p.mid.toJson)]

def shape : Shape where
  title := "struct PriceSnapshot"
  fields := [field "bid" readDecimal, field "ask" readDecimal, field "mid" readDecimal]

def read : Reader PriceSnapshot := fun s => do
  let m ← readRecord shape s
  return {
    bid := ← m.required "bid" readDecimal
    ask := ← m.required "ask" readDecimal
    mid := ← m.required "mid" readDecimal }

end PriceSnapshot

namespace Inventory

def toJson (i : Inventory) : Json := .object [
  ("base", i.base.toJson), ("quote", i.quote.toJson),
  ("liquidity_incentives", i.incentives.toJson)]

def shape : Shape where
  title := "struct Inventory"
  fields := [
    field "base" readDecimal,
    field "quote" readDecimal,
    field "liquidity_incentives" readDecimal]

def read : Reader Inventory := fun s => do
  let m ← readRecord shape s
  return {
    base := ← m.required "base" readDecimal
    quote := ← m.required "quote" readDecimal
    incentives := ← m.required "liquidity_incentives" readDecimal }

end Inventory

namespace ModelState

def toJson (s : ModelState) : Json := .object [
  ("market", .string s.market),
  ("price", .ofOption PriceSnapshot.toJson s.price),
  ("inventory", s.inventory.toJson),
  ("observed_at", s.observedAt.toJson)]

def shape : Shape where
  title := "struct ModelState"
  fields := [
    field "market" readText,
    field "price" (readOption PriceSnapshot.read),
    field "inventory" Inventory.read,
    field "observed_at" readTimestamp]

def read : Reader ModelState := fun s => do
  let m ← readRecord shape s
  return {
    market := ← m.required "market" readText
    price := ← m.optional "price" PriceSnapshot.read
    inventory := ← m.required "inventory" Inventory.read
    observedAt := ← m.required "observed_at" readTimestamp }

end ModelState
end MarketMaking
