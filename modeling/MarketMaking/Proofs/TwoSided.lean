import MarketMaking.Config
import MarketMaking.Proofs.Calm
import MarketMaking.Proofs.Closeness

/-! What the configured chain can quote: at most one buy and then at most one sell, at prices and of
quantities that an exchange takes (`QuotingConfig.quotes_twoSided`). -/

namespace MarketMaking

theorem Quoting.of_lift_bind {x : Checked α} {next : α → Quoting β}
    {answer : Except ProducerError β}
    (through : ((liftM x : Quoting α) >>= next).run = .ok answer) :
    ∃ a, x = .ok a ∧ (next a).run = .ok answer := by
  cases x with
  | error o => cases through
  | ok a => exact ⟨a, rfl, through⟩

theorem Quoting.of_lift {x : Checked α} (through : (liftM x : Quoting α).run = .ok (.ok a)) :
    x = .ok a := by
  cases x with
  | error o => cases through
  | ok b => cases through; rfl

structure Quote.TwoSided (q : Quote) : Prop where
  sides : (q.orders.map (·.side)).Sublist [.buy, .sell]
  plain : ∀ o ∈ q.orders, o.exchangeId = none

variable {state : ModelState} {q q' : Quote}

theorem Quote.twoSided_of_empty (none : q.orders = []) : q.TwoSided := by
  constructor <;> simp [none]

namespace FixedSpread
variable {f : FixedSpread} {answer : Except ProducerError Quote}

def orders (f : FixedSpread) (bid ask amount : Decimal) : List Order :=
  [{ side := .buy, price := bid, quantity := amount, orderType := f.orderType },
    { side := .sell, price := ask, quantity := amount, orderType := f.orderType }]

inductive Answers (f : FixedSpread) (state : ModelState) : Except ProducerError Quote → Prop where
  | unpriced (none : state.midPrice = none) : Answers f state (.ok .suppressed)
  | invalid (priced : state.midPrice = some mid) (low : mid ≤ .zero) :
      Answers f state (.error (.invalidState ("non-positive mid price " ++ mid.toText)))
  | worthless (priced : state.midPrice = some mid) (high : .zero < mid)
      (sized : f.size state.inventory mid = .ok amount) (low : amount ≤ .zero) :
      Answers f state (.ok (.live []))
  | spread (priced : state.midPrice = some mid) (high : .zero < mid)
      (sized : f.size state.inventory mid = .ok amount) (some : .zero < amount)
      (part : mid.mul f.spreadRatio = .ok offset) (lower : mid.sub offset = .ok bid)
      (upper : mid.add offset = .ok ask) :
      Answers f state (.ok (.live (f.orders bid ask amount)))

theorem process_answers (ran : (f.process state .empty).run = .ok answer) :
    f.Answers state answer := by
  unfold process at ran
  cases priced : state.midPrice with
  | none =>
    simp only [priced] at ran
    cases ran
    exact .unpriced priced
  | some mid =>
    simp only [priced] at ran
    by_cases low : mid ≤ .zero
    · simp only [low, if_true] at ran
      cases ran
      exact .invalid priced low
    · simp only [low, if_false] at ran
      have high := Decimal.not_le.mp low
      obtain ⟨amount, sized, ran⟩ := Quoting.of_lift_bind ran
      by_cases worthless : amount ≤ .zero
      · simp only [worthless, if_true] at ran
        cases ran
        exact .worthless priced high sized worthless
      · simp only [worthless, if_false] at ran
        obtain ⟨offset, part, ran⟩ := Quoting.of_lift_bind ran
        obtain ⟨bid, lower, ran⟩ := Quoting.of_lift_bind ran
        obtain ⟨ask, upper, ran⟩ := Quoting.of_lift_bind ran
        cases ran
        exact .spread priced high sized (Decimal.not_le.mp worthless) part lower upper

theorem twoSided (made : (f.process state .empty).run = .ok (.ok q)) : q.TwoSided := by
  cases process_answers made with
  | unpriced | worthless => exact Quote.twoSided_of_empty rfl
  | spread => constructor <;> simp [Quote.orders, orders]

end FixedSpread

theorem InventoryLimit.twoSided (l : InventoryLimit) (twoSided : q.TwoSided) :
    (l.process state q).TwoSided := by
  unfold InventoryLimit.process
  split
  · exact twoSided
  · simp only
    split
    · exact Quote.twoSided_of_empty rfl
    · cases q with
      | suppressed => exact twoSided
      | live orders =>
        have part : (orders.filter fun o => l.allows state.inventory.base o.side).Sublist orders :=
          List.filter_sublist
        exact ⟨(part.map _).trans twoSided.sides, fun o here => twoSided.plain o (part.subset here)⟩

theorem Rounding.of_round {r : Rounding} {o p : Order} (rounded : r.round o = .ok p) :
    ∃ price quantity, r.price o = .ok price ∧ r.quantity o = .ok quantity ∧
      p = { o with price, quantity } := by
  obtain ⟨price, priced, rounded⟩ := Checked.of_bind rounded
  obtain ⟨quantity, sized, rounded⟩ := Checked.of_bind rounded
  cases rounded
  exact ⟨price, quantity, priced, sized, rfl⟩

theorem Rounding.side_round {r : Rounding} {o p : Order} (rounded : r.round o = .ok p) :
    p.side = o.side ∧ p.exchangeId = o.exchangeId := by
  obtain ⟨_, _, -, -, rfl⟩ := of_round rounded
  exact ⟨rfl, rfl⟩

theorem Rounding.mapM_round {r : Rounding} {orders rounded : List Order}
    (through : orders.mapM r.round = .ok rounded) :
    rounded.map (·.side) = orders.map (·.side) ∧
      rounded.map (·.exchangeId) = orders.map (·.exchangeId) := by
  induction orders generalizing rounded with
  | nil => cases through; exact ⟨rfl, rfl⟩
  | cons o rest ih =>
    rw [List.mapM_cons] at through
    obtain ⟨p, one, through⟩ := Checked.of_bind through
    obtain ⟨others, later, through⟩ := Checked.of_bind through
    cases through
    obtain ⟨side, plain⟩ := side_round one
    obtain ⟨sides, plains⟩ := ih later
    exact ⟨by simp [side, sides], by simp [plain, plains]⟩

theorem Rounding.twoSided {r : Rounding} (made : r.process q = .ok q') (twoSided : q.TwoSided) :
    q'.TwoSided ∧ Placeable q'.orders := by
  cases q with
  | suppressed =>
    cases made
    exact ⟨twoSided, nofun⟩
  | live orders =>
    unfold Rounding.process at made
    cases all : r.roundAll orders with
    | error o => simp only [all] at made; cases made
    | ok kept =>
      simp only [all] at made
      cases made
      obtain ⟨rounded, through, all⟩ := Checked.of_bind all
      cases all
      obtain ⟨sides, plains⟩ := mapM_round through
      refine ⟨⟨?_, fun o here => ?_⟩, fun o here => ?_⟩
      · have part := (List.filter_sublist (p := fun o : Order =>
          decide (.zero < o.quantity) && decide (.zero < o.price)) (l := rounded)).map (·.side)
        exact part.trans (sides ▸ twoSided.sides)
      · have known : o.exchangeId ∈ orders.map (·.exchangeId) :=
          plains ▸ List.mem_map_of_mem (List.mem_of_mem_filter here)
        obtain ⟨p, wanted, same⟩ := List.mem_map.mp known
        exact same ▸ twoSided.plain p wanted
      · have positive := List.of_mem_filter here
        simp only [Bool.and_eq_true, decide_eq_true_eq] at positive
        exact ⟨positive.2, positive.1⟩

theorem Chain.run_process {e : Element} {rest : List Element} {state : ModelState} {q : Quote}
    {answer : Except ProducerError Quote}
    (ran : (process state q (e :: rest)).run = .ok answer) :
    ∃ first, (e.process state q).run = .ok first ∧
      match first with
      | .ok (.live orders) => (process state (.live orders) rest).run = .ok answer
      | ended => answer = ended := by
  unfold process at ran
  rw [ExceptT.run_bind] at ran
  obtain ⟨first, asked, ran⟩ := Checked.of_bind ran
  refine ⟨first, asked, ?_⟩
  rcases first with e | ⟨orders⟩ | _
  · cases ran; rfl
  · exact ran
  · cases ran; rfl

-- A chain that got through got through its first element, and then through the others unless that
-- element suppressed the quote.
theorem Chain.of_process {e : Element} {rest : List Element}
    (made : (process state q (e :: rest)).run = .ok (.ok q')) :
    ∃ next, (e.process state q).run = .ok (.ok next) ∧
      (q' = .suppressed ∨ (process state next rest).run = .ok (.ok q')) := by
  obtain ⟨first, asked, left⟩ := run_process made
  rcases first with e | ⟨orders⟩ | _
  · cases left
  · exact ⟨_, asked, .inr left⟩
  · cases left; exact ⟨_, asked, .inl rfl⟩

theorem QuotingConfig.quotes_twoSided {c : QuotingConfig}
    (made : (c.chain.desiredOrders state).run = .ok (.ok q)) :
    q.TwoSided ∧ Placeable q.orders := by
  have suppressed : Quote.suppressed.TwoSided ∧ Placeable Quote.suppressed.orders :=
    ⟨Quote.twoSided_of_empty rfl, nofun⟩
  obtain ⟨spread, spreads, rfl | made⟩ := Chain.of_process made
  · exact suppressed
  obtain ⟨limited, limits, rfl | made⟩ := Chain.of_process made
  · exact suppressed
  obtain ⟨rounded, rounds, rfl | made⟩ := Chain.of_process made
  · exact suppressed
  cases made
  cases limits
  have twoSided : (InventoryLimit.process ⟨c.maxBase, c.minBase⟩ state spread).TwoSided :=
    InventoryLimit.twoSided _ (FixedSpread.twoSided spreads)
  exact Rounding.twoSided (Quoting.of_lift rounds) twoSided

end MarketMaking
