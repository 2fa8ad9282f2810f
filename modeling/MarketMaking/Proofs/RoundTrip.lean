import MarketMaking.Proofs.WireValues

/-! Orders, operations, receipts and model states on the wire: what is written is read again as it
was, numbers at the same scale (`parse_toText`). Lost are the minus sign of a zero, and that a leap
second was one unless it ends its minute. -/

namespace MarketMaking
open Json Json.Source

structure Decimal.Same (a b : Decimal) : Prop where
  equiv : a ≈ b
  scale : a.scale = b.scale

theorem Decimal.plain_same (a : Decimal) : a.plain.Same a := ⟨a.plain_equiv, rfl⟩

namespace PriceSnapshot

structure Same (p q : PriceSnapshot) : Prop where
  bid : p.bid.Same q.bid
  ask : p.ask.Same q.ask
  mid : p.mid.Same q.mid

def plain (p : PriceSnapshot) : PriceSnapshot := ⟨p.bid.plain, p.ask.plain, p.mid.plain⟩

theorem plain_same (p : PriceSnapshot) : p.plain.Same p :=
  ⟨p.bid.plain_same, p.ask.plain_same, p.mid.plain_same⟩

def slots (p : PriceSnapshot) : List Slot := [
  ⟨_, "bid", readDecimal, _, _, readDecimal_toJson p.bid⟩,
  ⟨_, "ask", readDecimal, _, _, readDecimal_toJson p.ask⟩,
  ⟨_, "mid", readDecimal, _, _, readDecimal_toJson p.mid⟩]

theorem toJson_eq (p : PriceSnapshot) : p.toJson = .object (p.slots.map Slot.member) := rfl

theorem read_toJson (p : PriceSnapshot) : read (ofJson p.toJson) = .ok p.plain := by
  obtain ⟨m, accepted, found⟩ := readRecord_whole shape p.slots rfl (by decide)
  simp only [slots, List.forall_mem_cons] at found
  simp only [toJson_eq, read, accepted, found, bind, Except.bind, pure, Except.pure]
  rfl

end PriceSnapshot

namespace Inventory

structure Same (i j : Inventory) : Prop where
  base : i.base.Same j.base
  quote : i.quote.Same j.quote
  incentives : i.incentives.Same j.incentives

def plain (i : Inventory) : Inventory := ⟨i.base.plain, i.quote.plain, i.incentives.plain⟩

theorem plain_same (i : Inventory) : i.plain.Same i :=
  ⟨i.base.plain_same, i.quote.plain_same, i.incentives.plain_same⟩

def slots (i : Inventory) : List Slot := [
  ⟨_, "base", readDecimal, _, _, readDecimal_toJson i.base⟩,
  ⟨_, "quote", readDecimal, _, _, readDecimal_toJson i.quote⟩,
  ⟨_, "liquidity_incentives", readDecimal, _, _, readDecimal_toJson i.incentives⟩]

theorem toJson_eq (i : Inventory) : i.toJson = .object (i.slots.map Slot.member) := rfl

theorem read_toJson (i : Inventory) : read (ofJson i.toJson) = .ok i.plain := by
  obtain ⟨m, accepted, found⟩ := readRecord_whole shape i.slots rfl (by decide)
  simp only [slots, List.forall_mem_cons] at found
  simp only [toJson_eq, read, accepted, found, bind, Except.bind, pure, Except.pure]
  rfl

end Inventory

namespace ModelState

structure Same (s t : ModelState) : Prop where
  market : s.market = t.market
  price : Option.Rel PriceSnapshot.Same s.price t.price
  inventory : s.inventory.Same t.inventory
  observedAt : s.observedAt = t.observedAt

def legible (s : ModelState) : ModelState := { s with observedAt := s.observedAt.legible }

def plain (s : ModelState) : ModelState :=
  { s with
    price := s.price.map PriceSnapshot.plain
    inventory := s.inventory.plain }

theorem plain_same (s : ModelState) : s.plain.Same s := by
  refine ⟨rfl, ?_, s.inventory.plain_same, rfl⟩
  unfold plain
  cases s.price with
  | none => exact .none
  | some p => exact .some p.plain_same

def slots (s : ModelState) : List Slot := [
  ⟨_, "market", readText, s.market, .string s.market, rfl⟩,
  ⟨_, "price", readOption PriceSnapshot.read, _, _, readOption_ofOption PriceSnapshot.read_toJson
    (fun _ => by rw [PriceSnapshot.toJson, ofJson]; nofun) s.price⟩,
  ⟨_, "inventory", Inventory.read, _, _, s.inventory.read_toJson⟩,
  ⟨_, "observed_at", readTimestamp, _, _, readTimestamp_toJson s.observedAt⟩]

theorem toJson_eq (s : ModelState) : s.toJson = .object (s.slots.map Slot.member) := rfl

theorem legible_eq_self_iff (s : ModelState) : s.legible = s ↔
    (1000000000 ≤ s.observedAt.nano → s.observedAt.second % 60 = 59) := by
  rw [← s.observedAt.legible_eq_self_iff]
  constructor
  · intro same
    exact congrArg ModelState.observedAt same
  · intro same
    rw [legible, same]

theorem read_toJson (s : ModelState) : read (ofJson s.toJson) = .ok s.legible.plain := by
  obtain ⟨m, accepted, found⟩ := readRecord_whole shape s.slots rfl (by decide)
  simp only [slots, List.forall_mem_cons] at found
  obtain ⟨market, price, inventory, observedAt, -⟩ := found
  simp only [toJson_eq, read, accepted, market, Members.optional_eq price, inventory, observedAt,
    bind, Except.bind, pure, Except.pure]
  rfl

end ModelState

namespace Order

structure Same (o p : Order) : Prop where
  side : o.side = p.side
  price : o.price.Same p.price
  quantity : o.quantity.Same p.quantity
  orderType : o.orderType = p.orderType
  exchangeId : o.exchangeId = p.exchangeId
  clientId : o.clientId = p.clientId

def plain (o : Order) : Order := { o with price := o.price.plain, quantity := o.quantity.plain }

theorem plain_same (o : Order) : o.plain.Same o :=
  ⟨rfl, o.price.plain_same, o.quantity.plain_same, rfl, rfl, rfl⟩

def slots (o : Order) : List Slot := [
  ⟨_, "side", Side.read, _, _, o.side.read_toJson⟩,
  ⟨_, "price", readDecimal, _, _, readDecimal_toJson o.price⟩,
  ⟨_, "quantity", readDecimal, _, _, readDecimal_toJson o.quantity⟩,
  ⟨_, "order_type", OrderType.read, _, _, o.orderType.read_toJson⟩,
  ⟨_, "exchange_order_id", readOption readText, _, _, readOption_text o.exchangeId⟩,
  ⟨_, "client_id", readOption ClientId.read, _, _, readOption_clientId o.clientId⟩]

theorem toJson_eq (o : Order) : o.toJson = .object (o.slots.map Slot.member) := rfl

theorem read_toJson (o : Order) : read (ofJson o.toJson) = .ok o.plain := by
  obtain ⟨m, accepted, found⟩ := readRecord_whole shape o.slots rfl (by decide)
  simp only [slots, List.forall_mem_cons] at found
  obtain ⟨side, price, quantity, orderType, exchangeId, clientId, -⟩ := found
  simp only [toJson_eq, read, accepted, side, price, quantity, orderType,
    Members.optional_eq exchangeId, Members.optional_eq clientId, bind, Except.bind, pure,
    Except.pure]
  rfl

end Order

namespace Operation

def Same : Operation → Operation → Prop
  | .cancel o okIfMissing, .cancel p okIfMissing' => o.Same p ∧ okIfMissing = okIfMissing'
  | .place o, .place p => o.Same p
  | op, op' => op = op'

def plain : Operation → Operation
  | .cancel o okIfMissing => .cancel o.plain okIfMissing
  | .place o => .place o.plain
  | op => op

theorem plain_same (op : Operation) : op.plain.Same op := by
  cases op with
  | cancel o okIfMissing => exact ⟨o.plain_same, rfl⟩
  | place o => exact o.plain_same
  | crank | settle | redeem => rfl

def cancelSlots (o : Order) (okIfMissing : Bool) : List Slot := [
  ⟨_, "order", Order.read, _, _, o.read_toJson⟩,
  ⟨_, "ok_if_missing", readBool, okIfMissing, .bool okIfMissing, rfl⟩]

theorem readCancel_slots (o : Order) (okIfMissing : Bool) :
    readCancel (ofJson (.object ((cancelSlots o okIfMissing).map Slot.member))) =
      .ok (.cancel o.plain okIfMissing) := by
  obtain ⟨m, accepted, found⟩ :=
    readRecord_whole cancelShape (cancelSlots o okIfMissing) rfl (by decide)
  simp only [cancelSlots, List.forall_mem_cons] at found
  simp only [readCancel, accepted, found, bind, Except.bind, pure, Except.pure]

def readContent : Content → Reader Operation
  | .cancel => readCancel
  | .place => fun s => (Order.read s).map Operation.place
  | .nothing op => fun s => (s.readNull "unit").map fun _ => op

theorem read_object {name : String} {content : Json} {holds : Content}
    (known : variantOf variants name = .ok holds) :
    read (ofJson (.object [(name, content)])) = readContent holds (ofJson content) := by
  simp only [ofJson, ofMembers, read, variantName, known, bind, Except.bind, List.isEmpty_nil,
    Bool.and_true, if_true, pure, Except.pure]
  cases holds with
  | cancel => cases read : readCancel (ofJson content) <;> simp [readContent, read]
  | place => cases read : Order.read (ofJson content) <;> simp [readContent, read, Except.map]
  | nothing op =>
    cases read : (ofJson content).readNull "unit" <;> simp [readContent, read, Except.map]

theorem read_toJson (op : Operation) : read (ofJson op.toJson) = .ok op.plain := by
  cases op with
  | cancel o okIfMissing =>
    have written : (cancel o okIfMissing).toJson =
      .object [("Cancel", .object ((cancelSlots o okIfMissing).map Slot.member))] := rfl
    rw [written, read_object rfl]
    exact readCancel_slots o okIfMissing
  | place o =>
    rw [toJson, read_object rfl]
    simp only [readContent, o.read_toJson]
    rfl
  | crank | settle | redeem => rfl

end Operation

namespace Receipt

def slots (r : Receipt) : List Slot := [
  ⟨_, "signature", readText, r.signature, .string r.signature, rfl⟩,
  ⟨_, "cancelled", readWord "usize", _, _, readWord_ofWord "usize" r.cancelled⟩,
  ⟨_, "placed", readWord "usize", _, _, readWord_ofWord "usize" r.placed⟩,
  ⟨_, "cranked", readWord "usize", _, _, readWord_ofWord "usize" r.cranked⟩,
  ⟨_, "settled", readWord "usize", _, _, readWord_ofWord "usize" r.settled⟩]

theorem toJson_eq (r : Receipt) : r.toJson = .object (r.slots.map Slot.member) := rfl

theorem read_toJson (r : Receipt) : read (ofJson r.toJson) = .ok r := by
  obtain ⟨m, accepted, found⟩ := readRecord_whole shape r.slots rfl (by decide)
  simp only [slots, List.forall_mem_cons] at found
  simp only [toJson_eq, read, accepted, found, bind, Except.bind, pure, Except.pure]

end Receipt

theorem parse_of_read {read : Reader α} {j : Json} {a : α} (reads : read (ofJson j) = .ok a) :
    parse read j.toText = .ok a := by
  unfold parse
  rw [ofText_toText]
  simp only [reads]
  rfl

theorem parse_toText :
    (∀ o : Order, ∃ p, parse Order.read o.toJson.toText = .ok p ∧ p.Same o) ∧
    (∀ op : Operation, ∃ op', parse Operation.read op.toJson.toText = .ok op' ∧ op'.Same op) ∧
    (∀ r : Receipt, parse Receipt.read r.toJson.toText = .ok r) ∧
    (∀ p : PriceSnapshot, ∃ q, parse PriceSnapshot.read p.toJson.toText = .ok q ∧ q.Same p) ∧
    (∀ i : Inventory, ∃ j, parse Inventory.read i.toJson.toText = .ok j ∧ j.Same i) ∧
    (∀ s : ModelState, ∃ t, parse ModelState.read s.toJson.toText = .ok t ∧ t.Same s.legible) ∧
    (∀ s : ModelState, s.legible = s ↔
      (1000000000 ≤ s.observedAt.nano → s.observedAt.second % 60 = 59)) := by
  refine ⟨?_, ?_, ?_, ?_, ?_, ?_, ModelState.legible_eq_self_iff⟩
  · exact fun o => ⟨_, parse_of_read o.read_toJson, o.plain_same⟩
  · exact fun op => ⟨_, parse_of_read op.read_toJson, op.plain_same⟩
  · exact fun r => parse_of_read r.read_toJson
  · exact fun p => ⟨_, parse_of_read p.read_toJson, p.plain_same⟩
  · exact fun i => ⟨_, parse_of_read i.read_toJson, i.plain_same⟩
  · exact fun s => ⟨_, parse_of_read s.read_toJson, s.legible.plain_same⟩

-- Half a second into a leap second that does not end its minute.
theorem leap_second_lost :
    let inside : Timestamp := { second := 1483228770, nano := 1500000000 }
    let after : Timestamp := { second := 1483228771, nano := 500000000 }
    let s : ModelState := ⟨"SOL/USDC", none, ⟨.zero, .zero, .zero⟩, inside⟩
    parse ModelState.read s.toJson.toText = .ok { s with observedAt := after } ∧
      ¬ ∃ t, parse ModelState.read s.toJson.toText = .ok t ∧ t.Same s := by
  intro inside after s
  have moved : s.legible.plain = { s with observedAt := after } := by decide
  have read : parse ModelState.read s.toJson.toText = .ok { s with observedAt := after } :=
    moved ▸ parse_of_read s.read_toJson
  refine ⟨read, fun ⟨t, through, same⟩ => ?_⟩
  cases read.symm.trans through
  exact absurd same.observedAt (by decide)

end MarketMaking
