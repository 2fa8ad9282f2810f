import MarketMaking.Proofs.Division
import MarketMaking.Proofs.TwoSided

/-! The configured chain from end to end: when it fails, when it suppresses, and what it quotes
otherwise (`QuotingConfig.desiredOrders_answers`). Rounded prices never cross, although the bid, the
ask and their numbers of ticks are each rounded on their own (`Rounding.prices_ordered`). -/

namespace MarketMaking

namespace Decimal
variable {a b t p q : Decimal}

theorem sub_le_add {mid offset bid ask : Decimal} (some : 0 < mid.coefficient)
    (nonneg : 0 ≤ offset.coefficient) (lower : mid.sub offset = .ok bid)
    (upper : mid.add offset = .ok ask) (pos : 0 < bid.coefficient) :
    bid ≤ ask ∧ (bid ≈ ask → bid = ask) := by
  unfold sub at lower
  unfold add at upper
  rw [if_neg some.ne'] at lower upper
  split at lower
  · rename_i none
    rw [if_pos none] at upper
    cases lower
    cases upper
    exact ⟨Int.le_refl _, fun _ => rfl⟩
  · rename_i some
    rw [if_neg some] at upper
    have kept := Checked.of_ofOption lower
    have wide (k : Nat) : 0 ≤ offset.coefficient * (tenTo k : Int) :=
      Int.mul_nonneg nonneg (Int.natCast_nonneg _)
    have apart := wide (max mid.scale offset.scale - offset.scale)
    apply ofExact?_mono (ofExact?_pos kept pos).le _ kept (Checked.of_ofOption upper)
    omega

theorem mul_le_mul (nonneg : 0 ≤ a.coefficient) (le : a.coefficient ≤ b.coefficient)
    (same : a.scale = b.scale) (factor : 0 ≤ t.coefficient) (short : a.scale + t.scale ≤ 47)
    (first : a.mul t = .ok p) (second : b.mul t = .ok q) : p ≤ q := by
  have least := mul_nonneg (nonneg.trans le) factor second
  unfold mul at first second
  split at first
  · cases first
    rw [le_def]
    simpa [tenTo_zero] using least
  · rename_i more
    have more' : ¬ (b.coefficient = 0 ∨ t.coefficient = 0 ∨ vanishes b t) := by
      simp only [vanishes, not_or, not_and] at more ⊢
      omega
    rw [if_neg more'] at second
    rw [← same] at second
    exact (ofExact?_mono (by positivity) (mul_le_mul_of_nonneg_right le factor)
      (Checked.of_ofOption first) (Checked.of_ofOption second)).1

theorem mul_pos_left (factor : 0 ≤ t.coefficient) (through : a.mul t = .ok p)
    (pos : 0 < p.coefficient) : 0 < a.coefficient := by
  unfold mul at through
  split at through
  · cases through
    exact absurd pos (Int.lt_irrefl 0)
  · have product := ofExact?_pos (Checked.of_ofOption through) pos
    by_contra none
    exact absurd product (Int.not_lt.mpr (mul_nonpos_of_nonpos_of_nonneg (by omega) factor))

end Decimal

namespace Rounding
variable {r : Rounding} {o : Order} {price price' : Decimal}

theorem price_of_untick (off : r.tickSize ≤ .zero) (o : Order) : r.price o = .ok o.price := by
  unfold price
  simp only [off, if_true]
  rfl

theorem price_of_tick (on : ¬ r.tickSize ≤ .zero) (through : r.price o = .ok price) :
    ∃ ticks, o.price.div r.tickSize = .ok ticks ∧
      (match o.side with | .buy => ticks.floor | .sell => ticks.ceil).mul r.tickSize =
        .ok price := by
  unfold Rounding.price at through
  simp only [on, if_false] at through
  exact Checked.of_bind through

theorem prices_ordered {o p : Order} (buys : o.side = .buy) (sells : p.side = .sell)
    (ordered : 0 < o.price.coefficient →
      o.price ≤ p.price ∧ (o.price ≈ p.price → o.price = p.price))
    (bid : r.price o = .ok price) (ask : r.price p = .ok price')
    (pos : 0 < price.coefficient) : price ≤ price' := by
  by_cases off : r.tickSize ≤ .zero
  · rw [price_of_untick off] at bid ask
    cases bid
    cases ask
    exact (ordered pos).1
  · obtain ⟨ticks, divided, bid⟩ := price_of_tick off bid
    obtain ⟨ticks', divided', ask⟩ := price_of_tick off ask
    rw [buys] at bid
    rw [sells] at ask
    simp only at bid ask
    have tick : 0 < r.tickSize.coefficient := Decimal.pos_iff.mp (by
      by_contra h; exact off (Decimal.not_lt.mp h))
    have some := Decimal.mul_pos_left tick.le bid pos
    obtain ⟨le, same⟩ := ordered (Decimal.pos_of_floor_pos tick divided some)
    have places := r.tickSize.scale_le
    have ticks_le : ticks.floor.coefficient ≤ ticks'.ceil.coefficient := by
      by_cases equal : o.price ≈ p.price
      · -- A tie may be rounded either way, but equal prices are one price here.
        rw [same equal] at divided
        cases divided.symm.trans divided'
        rw [Decimal.coefficient_floor, Decimal.coefficient_ceil]
        exact Int.floor_le_ceil _
      · exact Decimal.floor_le_ceil tick (lt_of_le_of_ne le equal) divided divided'
    apply Decimal.mul_le_mul (a := ticks.floor) (b := ticks'.ceil) some.le ticks_le rfl tick.le _
      bid ask
    exact (Nat.add_le_add_left places 0).trans (by decide)

theorem quantity_congr {p : Order} (same : o.quantity = p.quantity) :
    r.quantity o = r.quantity p := by
  unfold quantity
  rw [same]

theorem mem_of_mapM {orders rounded : List Order} (through : orders.mapM r.round = .ok rounded)
    {p : Order} (here : p ∈ rounded) : ∃ o ∈ orders, r.round o = .ok p := by
  induction orders generalizing rounded with
  | nil => cases through; cases here
  | cons o rest ih =>
    rw [List.mapM_cons] at through
    obtain ⟨q, one, through⟩ := Checked.of_bind through
    obtain ⟨others, later, through⟩ := Checked.of_bind through
    cases through
    cases here with
    | head => exact ⟨o, List.mem_cons_self, one⟩
    | tail _ here =>
      obtain ⟨o', wanted, rounds⟩ := ih later here
      exact ⟨o', List.mem_cons_of_mem o wanted, rounds⟩

theorem mem_roundAll {orders kept : List Order} (through : r.roundAll orders = .ok kept)
    {p : Order} (here : p ∈ kept) : ∃ o ∈ orders, r.round o = .ok p := by
  obtain ⟨rounded, all, through⟩ := Checked.of_bind through
  cases through
  exact mem_of_mapM all (List.mem_of_mem_filter here)

end Rounding

namespace FixedSpread
variable {f : FixedSpread} {state : ModelState} {answer : Except ProducerError Quote}

theorem Answers.high {orders : List Order} (answers : f.Answers state (.ok (.live orders))) :
    ∃ mid, state.midPrice = some mid ∧ .zero < mid := by
  cases answers with
  | worthless priced high | spread priced high => exact ⟨_, priced, high⟩

theorem Answers.fresh {orders : List Order} {o : Order}
    (answers : f.Answers state (.ok (.live orders))) (wanted : o ∈ orders) :
    o.orderType = f.orderType ∧ o.exchangeId = none ∧ o.clientId = none := by
  cases answers with
  | worthless => cases wanted
  | spread =>
    simp only [FixedSpread.orders, List.mem_cons, List.not_mem_nil, or_false] at wanted
    rcases wanted with rfl | rfl <;> exact ⟨rfl, rfl, rfl⟩

theorem Answers.ordered {orders : List Order} {buy sell : Order} (ratio : .zero ≤ f.spreadRatio)
    (answers : f.Answers state (.ok (.live orders))) (wanted : buy ∈ orders)
    (wanted' : sell ∈ orders) (buys : buy.side = .buy) (sells : sell.side = .sell) :
    buy.quantity = sell.quantity ∧ (0 < buy.price.coefficient →
      buy.price ≤ sell.price ∧ (buy.price ≈ sell.price → buy.price = sell.price)) := by
  cases answers with
  | worthless => cases wanted
  | @spread mid _ offset _ _ priced high sized positive part lower upper =>
    simp only [FixedSpread.orders, List.mem_cons, List.not_mem_nil, or_false] at wanted wanted'
    rcases wanted with rfl | rfl
    · rcases wanted' with rfl | rfl
      · cases sells
      · have mid_pos := Decimal.pos_iff.mp high
        have nonneg : 0 ≤ offset.coefficient :=
          Decimal.mul_nonneg mid_pos.le (Decimal.nonneg_iff.mp ratio) part
        exact ⟨rfl, Decimal.sub_le_add mid_pos nonneg lower upper⟩
    · cases buys

end FixedSpread

namespace QuotingConfig
variable {c : QuotingConfig} {state : ModelState} {answer : Except ProducerError Quote}

def spread (c : QuotingConfig) : FixedSpread := ⟨c.spreadRatio, c.positionSizeRatio, c.orderType⟩
def limits (c : QuotingConfig) : InventoryLimit := ⟨c.maxBase, c.minBase⟩
def rounding (c : QuotingConfig) : Rounding := ⟨c.tickSize, c.lotSize⟩

def allowed (c : QuotingConfig) (state : ModelState) (orders : List Order) : List Order :=
  orders.filter fun o => c.limits.allows state.inventory.base o.side

-- The ways in which the chain ends: as its first element ends it, with nothing that the limits
-- allow, or with what is left after rounding.
inductive Outcome (c : QuotingConfig) (state : ModelState) : Except ProducerError Quote → Prop where
  | failed (first : c.spread.Answers state (.error e)) : Outcome c state (.error e)
  | suppressed (first : c.spread.Answers state (.ok .suppressed)) :
      Outcome c state (.ok .suppressed)
  | blocked (first : c.spread.Answers state (.ok (.live orders))) (some : orders ≠ [])
      (none : c.allowed state orders = []) : Outcome c state (.ok .suppressed)
  | quoted (first : c.spread.Answers state (.ok (.live orders)))
      (left : orders = [] ∨ c.allowed state orders ≠ [])
      (rounded : c.rounding.roundAll (c.allowed state orders) = .ok kept) :
      Outcome c state (.ok (.live kept))

theorem process_limits (c : QuotingConfig) (state : ModelState) (orders : List Order) :
    c.limits.process state (.live orders) =
      if orders ≠ [] ∧ c.allowed state orders = [] then .suppressed
      else .live (c.allowed state orders) := by
  cases orders with
  | nil => rfl
  | cons o rest =>
    simp only [InventoryLimit.process, Quote.mapOrders, Quote.orders, allowed, List.isEmpty_cons,
      List.isEmpty_iff, Bool.false_eq_true, if_false, ne_eq, reduceCtorEq, not_false_eq_true,
      true_and]

theorem process_rounding {orders : List Order}
    (ran : (Chain.process state (.live orders) [.rounding c.rounding]).run = .ok answer) :
    ∃ kept, c.rounding.roundAll orders = .ok kept ∧ answer = .ok (.live kept) := by
  obtain ⟨first, rounds, ran⟩ := Chain.run_process ran
  have rounds : (liftM ((c.rounding.roundAll orders).map Quote.live) : Quoting Quote).run =
      .ok first := rounds
  cases rounded : c.rounding.roundAll orders with
  | error o =>
    rw [rounded] at rounds
    cases rounds
  | ok kept =>
    rw [rounded] at rounds
    cases rounds
    cases ran
    exact ⟨kept, rfl, rfl⟩

theorem outcome (ran : (c.chain.desiredOrders state).run = .ok answer) :
    c.Outcome state answer := by
  obtain ⟨first, spreads, ran⟩ := Chain.run_process ran
  have first_answers : c.spread.Answers state first := FixedSpread.process_answers spreads
  rcases first with e | ⟨orders⟩ | _
  · cases ran
    exact .failed first_answers
  · simp only at ran
    obtain ⟨second, limits, ran⟩ := Chain.run_process ran
    have limited : second = .ok (c.limits.process state (.live orders)) := by cases limits; rfl
    rw [process_limits] at limited
    split at limited
    · rename_i emptied
      cases limited
      cases ran
      exact .blocked first_answers emptied.1 emptied.2
    · rename_i left
      cases limited
      obtain ⟨kept, rounded, same⟩ := process_rounding ran
      rw [same]
      apply Outcome.quoted first_answers _ rounded
      by_cases none : orders = []
      · exact .inl none
      · exact .inr fun gone => left ⟨none, gone⟩
  · cases ran
    exact .suppressed first_answers

def Blocks (c : QuotingConfig) (base : Decimal) : Prop :=
  ∃ most least, c.maxBase = some most ∧ c.minBase = some least ∧ most ≤ base ∧ base ≤ least

-- There is no price, or there would be something to quote but both sides are blocked.
def Suppresses (c : QuotingConfig) (state : ModelState) : Prop :=
  state.midPrice = none ∨ ∃ mid amount, state.midPrice = some mid ∧ .zero < mid ∧
    c.spread.size state.inventory mid = .ok amount ∧ .zero < amount ∧
    c.Blocks state.inventory.base

theorem allowed_eq_nil (bid ask amount : Decimal) :
    c.allowed state (c.spread.orders bid ask amount) = [] ↔ c.Blocks state.inventory.base := by
  simp only [allowed, FixedSpread.orders, limits, InventoryLimit.allows, Blocks]
  cases c.maxBase with
  | none => simp
  | some most =>
    cases c.minBase with
    | none => simp
    | some least => simp [Decimal.not_lt]

theorem Outcome.failed_iff (outcome : c.Outcome state answer) (e : ProducerError) :
    answer = .error e ↔ ∃ mid, state.midPrice = some mid ∧ mid ≤ .zero ∧
      e = .invalidState ("non-positive mid price " ++ mid.toText) := by
  constructor
  · intro failed
    cases failed
    cases outcome with
    | failed first =>
      cases first with
      | invalid priced low => exact ⟨_, priced, low, rfl⟩
  · rintro ⟨mid, priced, low, rfl⟩
    cases outcome with
    | failed first =>
      cases first with
      | invalid priced' =>
        cases priced.symm.trans priced'
        rfl
    | suppressed first =>
      cases first with
      | unpriced none => cases priced.symm.trans none
    | blocked first | quoted first =>
      obtain ⟨mid', priced', high⟩ := first.high
      cases priced.symm.trans priced'
      exact absurd low (Decimal.not_le.mpr high)

theorem Outcome.suppressed_iff (outcome : c.Outcome state answer) :
    answer = .ok .suppressed ↔ c.Suppresses state := by
  constructor
  · intro suppressed
    cases suppressed
    cases outcome with
    | suppressed first =>
      cases first with
      | unpriced none => exact .inl none
    | blocked first some none =>
      cases first with
      | worthless => exact absurd rfl some
      | spread priced high sized positive =>
        exact .inr ⟨_, _, priced, high, sized, positive, (allowed_eq_nil _ _ _).mp none⟩
  · rintro (none | ⟨mid, amount, priced, high, sized, positive, blocks⟩)
    · cases outcome with
      | failed first =>
        cases first with
        | invalid priced => cases none.symm.trans priced
      | suppressed first | blocked first => rfl
      | quoted first =>
        obtain ⟨mid, priced, -⟩ := first.high
        cases none.symm.trans priced
    · cases outcome with
      | failed first =>
        cases first with
        | invalid priced' low =>
          cases priced.symm.trans priced'
          exact absurd low (Decimal.not_le.mpr high)
      | suppressed first | blocked first => rfl
      | quoted first left =>
        cases first with
        | worthless priced' high' sized' low =>
          cases priced.symm.trans priced'
          cases sized.symm.trans sized'
          exact absurd low (Decimal.not_le.mpr positive)
        | spread =>
          rcases left with none | some
          · cases none
          · exact absurd ((allowed_eq_nil _ _ _).mpr blocks) some

structure Quotes (c : QuotingConfig) (state : ModelState) (orders : List Order) : Prop where
  sides : (orders.map (·.side)).Sublist [.buy, .sell]
  placeable : Placeable orders
  fresh : ∀ o ∈ orders, o.orderType = c.orderType ∧ o.exchangeId = none ∧ o.clientId = none
  below_most : ∀ o ∈ orders, o.side = .buy → ∀ most, c.maxBase = some most →
    state.inventory.base < most
  above_least : ∀ o ∈ orders, o.side = .sell → ∀ least, c.minBase = some least →
    least < state.inventory.base
  uncrossed : ∀ buy ∈ orders, ∀ sell ∈ orders, buy.side = .buy → sell.side = .sell →
    buy.quantity = sell.quantity ∧ buy.price ≤ sell.price

theorem quotes {kept : List Order} (ratio : .zero ≤ c.spreadRatio)
    (ran : (c.chain.desiredOrders state).run = .ok (.ok (.live kept))) : c.Quotes state kept := by
  obtain ⟨twoSided, placeable⟩ := quotes_twoSided ran
  cases outcome ran with
  | @quoted orders _ first left rounded =>
    have origin (o : Order) (here : o ∈ kept) : ∃ p ∈ orders,
        c.limits.allows state.inventory.base p.side = true ∧ c.rounding.round p = .ok o := by
      obtain ⟨p, allowed, rounds⟩ := Rounding.mem_roundAll rounded here
      obtain ⟨wanted, allows⟩ := List.mem_filter.mp allowed
      exact ⟨p, wanted, allows, rounds⟩
    constructor
    · exact twoSided.sides
    · exact placeable
    · intro o here
      obtain ⟨p, wanted, -, rounds⟩ := origin o here
      obtain ⟨_, _, -, -, rfl⟩ := Rounding.of_round rounds
      exact first.fresh (o := p) wanted
    · intro o here buys most capped
      obtain ⟨p, -, allows, rounds⟩ := origin o here
      rw [← (Rounding.side_round rounds).1, buys] at allows
      simpa [limits, InventoryLimit.allows, capped] using allows
    · intro o here sells least floored
      obtain ⟨p, -, allows, rounds⟩ := origin o here
      rw [← (Rounding.side_round rounds).1, sells] at allows
      simpa [limits, InventoryLimit.allows, floored] using allows
    · intro buy here sell here' buys sells
      obtain ⟨p, wanted, -, rounds⟩ := origin buy here
      obtain ⟨p', wanted', -, rounds'⟩ := origin sell here'
      have pos := Decimal.pos_iff.mp (placeable buy here).1
      obtain ⟨price, quantity, priced, sized, rfl⟩ := Rounding.of_round rounds
      obtain ⟨price', quantity', priced', sized', rfl⟩ := Rounding.of_round rounds'
      have buys : p.side = .buy := buys
      have sells : p'.side = .sell := sells
      obtain ⟨same, ordered⟩ := first.ordered ratio wanted wanted' buys sells
      rw [Rounding.quantity_congr same] at sized
      cases sized.symm.trans sized'
      exact ⟨rfl, Rounding.prices_ordered (p := p') buys sells ordered priced priced' pos⟩

end QuotingConfig

theorem Maker.faultless_prepared {m n : Maker} {desired listing : List Order} {ready : Ready}
    {incentives : Decimal} (placeable : Placeable desired)
    (prepared : m.prepare desired incentives listing = (.ok ready, n)) (x : Exchange) :
    ready.batch.toList.findSome? x.fault = none := by
  cases planned : m.reconciler.plan (m.tracker.existing listing).1 desired with
  | error o =>
    unfold prepare at prepared
    simp only [planned] at prepared
    cases prepared
  | ok plan =>
    cases placed : (m.observe listing).placeAll
        (Batch.ofList (plan.toCancel.map (.cancel · true))) plan.toPlace with
    | mk answer last =>
      rw [prepare_of_placed planned placed] at prepared
      cases answer with
      | error stop => cases prepared
      | ok b =>
        obtain ⟨ids, -, rfl⟩ := placeAll_batch placed
        cases prepared
        have places : Placeable plan.toPlace := fun o here =>
          placeable o ((Reconciler.plan_sublists planned).2.subset here)
        have assembled := m.toList_assemble incentives plan.toCancel (tagged ids plan.toPlace)
        unfold assemble at assembled
        simp only [assembled]
        exact List.findSome?_eq_none_iff.mpr (fault_instructions places x)

-- Whatever maker makes a batch of these orders, no exchange finds anything wrong with it: it only
-- fails where a failure was injected.
def NeverRefused (desired : List Order) : Prop :=
  ∀ (m n : Maker) (incentives : Decimal) (listing : List Order) (ready : Maker.Ready)
    (x : Exchange), m.prepare desired incentives listing = (.ok ready, n) →
    x.failingSubmissions = 0 → x.rejectedSubmissions = 0 →
    ∃ receipt, (Exchange.submit ready.batch x).1 = .ok receipt

theorem neverRefused_of_placeable {desired : List Order} (placeable : Placeable desired) :
    NeverRefused desired := by
  intro m n incentives listing ready x prepared works accepts
  have clear := Maker.faultless_prepared placeable prepared
    { x with submissions := x.submissions + 1 }
  have submitted : Exchange.submit ready.batch x = _ :=
    (if_neg (Nat.not_lt.mpr works.le)).trans (if_neg (Nat.not_lt.mpr accepts.le))
  simp only [clear] at submitted
  rw [submitted]
  exact ⟨_, rfl⟩

namespace QuotingConfig
variable {c : QuotingConfig} {state : ModelState} {answer : Except ProducerError Quote}

structure Answers (c : QuotingConfig) (state : ModelState) (answer : Except ProducerError Quote) :
    Prop where
  failed : ∀ e, answer = .error e ↔ ∃ mid, state.midPrice = some mid ∧ mid ≤ .zero ∧
    e = .invalidState ("non-positive mid price " ++ mid.toText)
  suppressed : answer = .ok .suppressed ↔ c.Suppresses state
  live : (∀ mid, state.midPrice = some mid → .zero < mid) → ¬ c.Suppresses state →
    ∃ orders, answer = .ok (.live orders) ∧ c.Quotes state orders ∧ NeverRefused orders

theorem desiredOrders_answers (ratio : .zero ≤ c.spreadRatio)
    (ran : (c.chain.desiredOrders state).run = .ok answer) : c.Answers state answer := by
  have failed := (outcome ran).failed_iff
  have suppressed := (outcome ran).suppressed_iff
  refine ⟨failed, suppressed, fun high quoted => ?_⟩
  rcases answer with e | ⟨orders⟩ | _
  · obtain ⟨mid, priced, low, -⟩ := (failed e).mp rfl
    exact absurd low (Decimal.not_le.mpr (high mid priced))
  · have fine := quotes ratio ran
    exact ⟨orders, rfl, fine, neverRefused_of_placeable fine.placeable⟩
  · exact absurd (suppressed.mp rfl) quoted

def sampleState : ModelState :=
  ⟨"SOL/USDC", some (.ofMid (.ofWord 100 0)), ⟨.ofWord 10 0, .ofWord 1000 0, .zero⟩, .epoch⟩

def sampleOrders : List Order :=
  [{ side := .buy, price := .ofWord 9950 2, quantity := .ofWord 200 3, orderType := .postOnly },
    { side := .sell, price := .ofWord 10050 2, quantity := .ofWord 200 3, orderType := .postOnly }]

theorem desiredOrders_answers_by_default :
    .zero ≤ ({} : QuotingConfig).spreadRatio ∧
      ({} : QuotingConfig).Answers sampleState (.ok (.live sampleOrders)) := by
  have ratio : .zero ≤ ({} : QuotingConfig).spreadRatio := by decide
  have ran : ((({} : QuotingConfig).chain).desiredOrders sampleState).run =
    .ok (.ok (.live sampleOrders)) := by decide +kernel
  exact ⟨ratio, desiredOrders_answers ratio ran⟩

end QuotingConfig
end MarketMaking
