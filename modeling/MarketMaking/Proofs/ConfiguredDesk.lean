import MarketMaking.Proofs.Convergence
import MarketMaking.Proofs.SingleQuotes
import MarketMaking.Simulation.Day

/-! What a configuration keeps on the book: one order a side, if its tracker has room for one order
more than there are listings that miss a new one, or for three. Validation does not ask for that
much. -/

namespace MarketMaking

def Exchange.OneEach (x : Exchange) : Prop :=
  ∀ side, (x.resting.filter (·.order.side == side)).length ≤ 1

theorem Exchange.oneEach_of_nodup {x : Exchange} (sides : (x.resting.map (·.order.side)).Nodup) :
    x.OneEach := by
  intro side
  have once := List.nodup_iff_count_le_one.mp sides side
  rwa [List.count_eq_countP, List.countP_map, List.countP_eq_length_filter] at once

def RunConfig.desk (c : RunConfig) (draws : List ClientId) (rest : τ) :
    Except GatewayError (Desk τ) := do
  let maker ← Maker.create c.market c.cycle draws
  return ⟨maker, { exchange := { lag := c.paper.visibilityLag.toNat }, rest }⟩

theorem RunConfig.desk_of_day {c : RunConfig} {day : Simulation.Day} (rest : τ)
    (made : Simulation.Day.ofConfig c draws walkDraws start agenda = .ok day) :
    c.desk draws rest = .ok ⟨day.maker, { exchange := day.world.exchange, rest }⟩ ∧
      day.world.producer = .chain c.quoting.chain := by
  unfold Simulation.Day.ofConfig at made
  unfold desk
  cases built : Maker.create c.market c.cycle draws with
  | error e =>
    rw [built] at made
    cases made
  | ok maker =>
    rw [built] at made
    cases made
    exact ⟨rfl, rfl⟩

namespace Desk
variable {w : Surroundings τ} {d : Desk τ} {c : QuotingConfig}

-- One pulse for each state, up to one that leaves the range of its numbers or finds no id to draw.
def quoteAll (w : Surroundings τ) (chain : Chain) (d : Desk τ) : List ModelState → Desk τ
  | [] => d
  | state :: later =>
    match (chain.desiredOrders state).run with
    | .error _ => d
    | .ok quote =>
      match d.maker.pulse w.venue quote state.inventory.incentives d.floor with
      | (.error _, maker, floor) => ⟨maker, floor⟩
      | (.ok _, maker, floor) => quoteAll w chain ⟨maker, floor⟩ later

theorem sides_quoteAll (single : Single d.maker d.floor) (calm : w.Calm)
    (healthy : d.floor.exchange.Healthy) (states : List ModelState) :
    ((d.quoteAll w c.chain states).floor.exchange.resting.map (·.order.side)).Nodup := by
  induction states generalizing d with
  | nil => exact single.sides
  | cons state later ih =>
    unfold quoteAll
    cases quoted : (c.chain.desiredOrders state).run with
    | error o => exact single.sides
    | ok quote =>
      have fine : ∀ q, quote = .ok q → q.TwoSided ∧ Placeable q.orders := by
        rintro q rfl
        exact QuotingConfig.quotes_twoSided quoted
      have leaves := single.pulse calm healthy fine state.inventory.incentives
      simp only
      revert leaves
      rcases d.maker.pulse w.venue quote state.inventory.incentives d.floor with
        ⟨_ | outcome, maker, floor⟩
      · exact fun leaves => leaves.sides
      · rintro ⟨-, ⟨_, ⟨⟩⟩ | ⟨next, well⟩⟩
        exact ih (d := ⟨maker, floor⟩) next well

end Desk

namespace RunConfig
variable {c : RunConfig} {draws : List ClientId} {w : Surroundings τ}

theorem passes (valid : c.validate = .ok ()) : ∀ check ∈ c.checks, check.1 = false := by
  unfold validate at valid
  cases found : c.checks.find? (·.1) with
  | some check => simp only [found] at valid; cases valid
  | none => simpa using found

theorem outlives_of_valid (valid : c.validate = .ok ()) :
    c.paper.visibilityLag.toNat < c.cycle.maxUnconfirmed.toNat := by
  have check := passes valid
    (decide (c.cycle.maxUnconfirmed ≤ c.paper.visibilityLag), .givesUpBeforeVisible)
    (by simp [checks])
  simpa [UInt64.le_iff_toNat_le] using check

theorem desk_of_valid (valid : c.validate = .ok ()) (draws : List ClientId) (rest : τ) :
    ∃ d, c.desk draws rest = .ok d ∧ d.maker.tracker = { config := c.cycle.tracker } ∧
      d.maker.draws = draws ∧
      d.floor = { exchange := { lag := c.paper.visibilityLag.toNat }, rest } := by
  have fetches := passes valid (c.cycle.fetchRetryPauses.isEmpty, .noFetchPause) (by simp [checks])
  have submits := passes valid (c.cycle.submitRetryPauses.isEmpty, .noSubmitPause)
    (by simp [checks])
  unfold desk Maker.create
  cases fetch : c.cycle.fetchRetryPauses with
  | nil => simp [fetch] at fetches
  | cons one more =>
    cases submit : c.cycle.submitRetryPauses with
    | nil => simp [submit] at submits
    | cons first others => exact ⟨_, rfl, rfl, rfl, rfl⟩

theorem quotes_one_each (valid : c.validate = .ok ())
    (room : min (c.paper.visibilityLag.toNat + 1) 3 ≤ c.cycle.maxTracked.toNat)
    (distinct : draws.Nodup) (calm : w.Calm) (rest : τ) (states : List ModelState) :
    ∃ d, c.desk draws rest = .ok d ∧
      (d.quoteAll w c.quoting.chain states).floor.exchange.OneEach := by
  obtain ⟨d, described, tracker, ids, floor⟩ := desk_of_valid valid draws rest
  have single : Single d.maker d.floor := by
    refine .empty ?_ ?_ (ids ▸ distinct) ?_ ?_
    · rw [tracker]
    · rw [floor]
    · rw [floor, tracker]
      exact outlives_of_valid valid
    · rw [floor, tracker]
      exact Nat.le_trans room (Nat.le_max_left _ _)
  have healthy : d.floor.exchange.Healthy := by
    rw [floor]
    exact ⟨rfl, rfl, rfl⟩
  exact ⟨d, described, Exchange.oneEach_of_nodup (Desk.sides_quoteAll single calm healthy states)⟩

def wholePrices : QuotingConfig where
  spreadRatio := .ofWord 1 2
  positionSizeRatio := .ofWord 1 1
  tickSize := .one
  lotSize := .one

def tracking (entries lag : UInt64) : RunConfig where
  cycle := { maxTracked := entries }
  quoting := wholePrices
  paper := { visibilityLag := lag }

def holding (cents : UInt64) : ModelState :=
  ⟨"SOL/USDC", some (.ofMid (.ofWord cents 2)), ⟨.ofWord 10 0, .zero, .zero⟩, .epoch⟩

def someIds : List ClientId := (List.range 20).map fun i => ⟨i.toUInt64⟩

theorem quotes_one_each_with_three_entries :
    let c := tracking 3 2
    let states := [holding 10000, holding 10050, holding 10050]
    c.validate = .ok () ∧ someIds.Nodup ∧ ∃ d, c.desk someIds () = .ok d ∧
      (d.quoteAll .still c.quoting.chain states).floor.exchange.OneEach := by
  intro c states
  have valid : c.validate = .ok () := by decide
  have room : min (c.paper.visibilityLag.toNat + 1) 3 ≤ c.cycle.maxTracked.toNat := by decide
  have distinct : someIds.Nodup := by decide
  exact ⟨valid, distinct,
    quotes_one_each valid room distinct Surroundings.still_calm () states⟩

def RepeatsQuote (c : RunConfig) (states : List ModelState) : Prop :=
  c.validate = .ok () ∧ ∃ d, c.desk someIds () = .ok d ∧
    ¬ (d.quoteAll .still c.quoting.chain states).floor.exchange.OneEach

theorem repeatsQuote_of_buys {d : Desk Unit} {states : List ModelState}
    (valid : c.validate = .ok ())
    (described : c.desk someIds () = .ok d)
    (buys : ((d.quoteAll .still c.quoting.chain states).floor.exchange.resting.filter
      (·.order.side == .buy)).length = 2) : c.RepeatsQuote states :=
  ⟨valid, d, described, fun each => absurd (buys ▸ each .buy) (by decide)⟩

-- The sell pushes the buy out of a tracker with a single entry, and the next pulse, which sees
-- neither on the book, buys once more. Out of two entries, a new sell pushes the buy that stays.
theorem short_trackers_repeat_quotes :
    someIds.Nodup ∧ (Surroundings.still : Surroundings Unit).Calm ∧
      (tracking 1 1).RepeatsQuote [holding 10000, holding 10000] ∧
      (tracking 2 2).RepeatsQuote [holding 10000, holding 10050, holding 10050] := by
  have lower : (wholePrices.chain.desiredOrders (holding 10000)).run =
      .ok (.ok (.live (Desk.spread 99 101))) := by decide +kernel
  have higher : (wholePrices.chain.desiredOrders (holding 10050)).run =
      .ok (.ok (.live (Desk.spread 99 102))) := by decide +kernel
  refine ⟨by decide, Surroundings.still_calm, repeatsQuote_of_buys (by decide) rfl ?_,
    repeatsQuote_of_buys (by decide) rfl ?_⟩
  · simp only [tracking, Desk.quoteAll, lower]
    cbv
  · simp only [tracking, Desk.quoteAll, lower, higher]
    cbv

end RunConfig
end MarketMaking
