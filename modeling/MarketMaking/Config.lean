import MarketMaking.Chain
import MarketMaking.Text.Blank
import MarketMaking.Tracker

/-! The configuration of a run: the market and its rhythm, the pulse cycle, the quoting chain and
the paper exchange. Every field has a default. A configuration that passes `validate` has consistent
parts; one that does not is told the first thing wrong with it. -/

namespace MarketMaking

structure CycleConfig where
  tolerance : Decimal := .ofWord 1 3
  redeemThreshold : Option Decimal := none
  crankEachPulse : Bool := true
  settleEachPulse : Bool := true
  -- Milliseconds between attempts, one attempt for each.
  fetchRetryPauses : List UInt64 := [100, 200, 400]
  submitRetryPauses : List UInt64 := [100, 200, 400]
  maxTracked : UInt64 := 64
  maxUnconfirmed : UInt64 := 3
  deriving DecidableEq

def CycleConfig.tracker (c : CycleConfig) : TrackerConfig := ⟨c.maxTracked, c.maxUnconfirmed⟩

structure QuotingConfig where
  spreadRatio : Decimal := .ofWord 5 3
  positionSizeRatio : Decimal := .ofWord 1 2
  orderType : OrderType := .postOnly
  tickSize : Decimal := .ofWord 1 2
  lotSize : Decimal := .ofWord 1 3
  maxBase : Option Decimal := none
  minBase : Option Decimal := none
  deriving DecidableEq

def QuotingConfig.chain (c : QuotingConfig) : Chain :=
  ⟨[.fixedSpread ⟨c.spreadRatio, c.positionSizeRatio, c.orderType⟩,
    .inventoryLimit ⟨c.maxBase, c.minBase⟩,
    .rounding ⟨c.tickSize, c.lotSize⟩]⟩

structure PaperConfig where
  initialPrice : Decimal := .ofWord 100 0
  volatility : Decimal := .ofWord 1 3
  bookHalfSpreadRatio : Decimal := .ofWord 5 4
  baseBalance : Decimal := .ofWord 10 0
  quoteBalance : Decimal := .ofWord 1000 0
  incentivePerPulse : Decimal := .zero
  visibilityLag : UInt64 := 0
  seed : Option UInt64 := none
  deriving DecidableEq

structure RunConfig where
  market : String := "SOL/USDC"
  pulseInterval : UInt64 := 30000
  pulseTimeout : UInt64 := 20000
  cycle : CycleConfig := {}
  quoting : QuotingConfig := {}
  paper : PaperConfig := {}
  deriving DecidableEq

def optionAgrees (a b : Option Decimal) : Bool :=
  match a, b with
  | none, none => true
  | some a, some b => decide (a ≈ b)
  | _, _ => false

def CycleConfig.agrees (a b : CycleConfig) : Bool :=
  decide (a.tolerance ≈ b.tolerance) && optionAgrees a.redeemThreshold b.redeemThreshold &&
    a.crankEachPulse == b.crankEachPulse && a.settleEachPulse == b.settleEachPulse &&
    a.fetchRetryPauses == b.fetchRetryPauses && a.submitRetryPauses == b.submitRetryPauses &&
    a.maxTracked == b.maxTracked && a.maxUnconfirmed == b.maxUnconfirmed

def QuotingConfig.agrees (a b : QuotingConfig) : Bool :=
  decide (a.spreadRatio ≈ b.spreadRatio) && decide (a.positionSizeRatio ≈ b.positionSizeRatio) &&
    a.orderType == b.orderType && decide (a.tickSize ≈ b.tickSize) &&
    decide (a.lotSize ≈ b.lotSize) && optionAgrees a.maxBase b.maxBase &&
    optionAgrees a.minBase b.minBase

def PaperConfig.agrees (a b : PaperConfig) : Bool :=
  decide (a.initialPrice ≈ b.initialPrice) && decide (a.volatility ≈ b.volatility) &&
    decide (a.bookHalfSpreadRatio ≈ b.bookHalfSpreadRatio) &&
    decide (a.baseBalance ≈ b.baseBalance) && decide (a.quoteBalance ≈ b.quoteBalance) &&
    decide (a.incentivePerPulse ≈ b.incentivePerPulse) && a.visibilityLag == b.visibilityLag &&
    a.seed == b.seed

def RunConfig.agrees (a b : RunConfig) : Bool :=
  a.market == b.market && a.pulseInterval == b.pulseInterval &&
    a.pulseTimeout == b.pulseTimeout && a.cycle.agrees b.cycle && a.quoting.agrees b.quoting &&
    a.paper.agrees b.paper

inductive InvalidConfig where
  | blankMarket
  | noPulseInterval
  | noPulseTimeout
  | negativeTolerance
  | noFetchPause
  | noSubmitPause
  | nothingTracked
  | givesUpBeforeVisible
  | negativeSpread
  | noPositionSize
  | negativeTickOrLot
  | noInitialPrice
  deriving DecidableEq

def InvalidConfig.message : InvalidConfig → String
  | .blankMarket => "market must not be empty"
  | .noPulseInterval => "pulse_interval_ms must be positive"
  | .noPulseTimeout => "pulse_timeout_ms must be positive"
  | .negativeTolerance => "cycle.tolerance must not be negative"
  | .noFetchPause => "cycle.fetch_retry_pauses_ms needs at least one pause"
  | .noSubmitPause => "cycle.submit_retry_pauses_ms needs at least one pause"
  | .nothingTracked => "cycle.max_tracked must be positive"
  | .givesUpBeforeVisible => "cycle.max_unconfirmed_pulses must exceed paper.visibility_lag"
  | .negativeSpread => "quoting.spread_ratio must not be negative"
  | .noPositionSize => "quoting.position_size_ratio must be positive"
  | .negativeTickOrLot => "quoting.tick_size and quoting.lot_size must not be negative"
  | .noInitialPrice => "paper.initial_price must be positive"

-- The checks in the order in which they are made, each with what it would find wrong.
def RunConfig.checks (c : RunConfig) : List (Bool × InvalidConfig) :=
  [(Text.isBlankText c.market, .blankMarket),
    (c.pulseInterval == 0, .noPulseInterval),
    (c.pulseTimeout == 0, .noPulseTimeout),
    (decide (c.cycle.tolerance < .zero), .negativeTolerance),
    (c.cycle.fetchRetryPauses.isEmpty, .noFetchPause),
    (c.cycle.submitRetryPauses.isEmpty, .noSubmitPause),
    (c.cycle.maxTracked == 0, .nothingTracked),
    (decide (c.cycle.maxUnconfirmed ≤ c.paper.visibilityLag), .givesUpBeforeVisible),
    (decide (c.quoting.spreadRatio < .zero), .negativeSpread),
    (decide (c.quoting.positionSizeRatio ≤ .zero), .noPositionSize),
    (decide (c.quoting.tickSize < .zero) || decide (c.quoting.lotSize < .zero),
      .negativeTickOrLot),
    (decide (c.paper.initialPrice ≤ .zero), .noInitialPrice)]

def RunConfig.validate (c : RunConfig) : Except InvalidConfig Unit :=
  match c.checks.find? (·.1) with
  | some (_, wrong) => .error wrong
  | none => .ok ()

end MarketMaking
