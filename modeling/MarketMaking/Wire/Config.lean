import MarketMaking.Config
import MarketMaking.Wire.Order

/-! Configurations as JSON, written and read. Every member may be left out; what is left out has its
default. -/

namespace MarketMaking
open Json Json.Source

namespace CycleConfig

def toJson (c : CycleConfig) : Json := .object [
  ("tolerance", c.tolerance.toJson),
  ("redeem_threshold", .ofOption Decimal.toJson c.redeemThreshold),
  ("crank_each_pulse", .bool c.crankEachPulse),
  ("settle_each_pulse", .bool c.settleEachPulse),
  ("fetch_retry_pauses_ms", .ofList .ofWord c.fetchRetryPauses),
  ("submit_retry_pauses_ms", .ofList .ofWord c.submitRetryPauses),
  ("max_tracked", .ofWord c.maxTracked),
  ("max_unconfirmed_pulses", .ofWord c.maxUnconfirmed)]

def shape : Shape where
  title := "struct CycleConfig"
  fields := [
    field "tolerance" readDecimal,
    field "redeem_threshold" (readOption readDecimal),
    field "crank_each_pulse" readBool,
    field "settle_each_pulse" readBool,
    field "fetch_retry_pauses_ms" (readList (readWord "u64")),
    field "submit_retry_pauses_ms" (readList (readWord "u64")),
    field "max_tracked" (readWord "usize"),
    field "max_unconfirmed_pulses" (readWord "usize")]
  lenient := true

def read : Reader CycleConfig := fun s => do
  let m ← readRecord shape s
  let d : CycleConfig := {}
  return {
    tolerance := ← m.withDefault "tolerance" d.tolerance readDecimal
    redeemThreshold :=
      ← m.withDefault "redeem_threshold" d.redeemThreshold (readOption readDecimal)
    crankEachPulse := ← m.withDefault "crank_each_pulse" d.crankEachPulse readBool
    settleEachPulse := ← m.withDefault "settle_each_pulse" d.settleEachPulse readBool
    fetchRetryPauses :=
      ← m.withDefault "fetch_retry_pauses_ms" d.fetchRetryPauses (readList (readWord "u64"))
    submitRetryPauses :=
      ← m.withDefault "submit_retry_pauses_ms" d.submitRetryPauses (readList (readWord "u64"))
    maxTracked := ← m.withDefault "max_tracked" d.maxTracked (readWord "usize")
    maxUnconfirmed :=
      ← m.withDefault "max_unconfirmed_pulses" d.maxUnconfirmed (readWord "usize") }

end CycleConfig

namespace QuotingConfig

def toJson (c : QuotingConfig) : Json := .object [
  ("spread_ratio", c.spreadRatio.toJson),
  ("position_size_ratio", c.positionSizeRatio.toJson),
  ("order_type", c.orderType.toJson),
  ("tick_size", c.tickSize.toJson),
  ("lot_size", c.lotSize.toJson),
  ("max_base", .ofOption Decimal.toJson c.maxBase),
  ("min_base", .ofOption Decimal.toJson c.minBase)]

def shape : Shape where
  title := "struct QuotingConfig"
  fields := [
    field "spread_ratio" readDecimal,
    field "position_size_ratio" readDecimal,
    field "order_type" OrderType.read,
    field "tick_size" readDecimal,
    field "lot_size" readDecimal,
    field "max_base" (readOption readDecimal),
    field "min_base" (readOption readDecimal)]
  lenient := true

def read : Reader QuotingConfig := fun s => do
  let m ← readRecord shape s
  let d : QuotingConfig := {}
  return {
    spreadRatio := ← m.withDefault "spread_ratio" d.spreadRatio readDecimal
    positionSizeRatio := ← m.withDefault "position_size_ratio" d.positionSizeRatio readDecimal
    orderType := ← m.withDefault "order_type" d.orderType OrderType.read
    tickSize := ← m.withDefault "tick_size" d.tickSize readDecimal
    lotSize := ← m.withDefault "lot_size" d.lotSize readDecimal
    maxBase := ← m.withDefault "max_base" d.maxBase (readOption readDecimal)
    minBase := ← m.withDefault "min_base" d.minBase (readOption readDecimal) }

end QuotingConfig

namespace PaperConfig

def toJson (c : PaperConfig) : Json := .object [
  ("initial_price", c.initialPrice.toJson),
  ("volatility", c.volatility.toJson),
  ("book_half_spread_ratio", c.bookHalfSpreadRatio.toJson),
  ("base_balance", c.baseBalance.toJson),
  ("quote_balance", c.quoteBalance.toJson),
  ("incentive_per_pulse", c.incentivePerPulse.toJson),
  ("visibility_lag", .ofWord c.visibilityLag),
  ("seed", .ofOption .ofWord c.seed)]

def shape : Shape where
  title := "struct PaperConfig"
  fields := [
    field "initial_price" readDecimal,
    field "volatility" readDecimal,
    field "book_half_spread_ratio" readDecimal,
    field "base_balance" readDecimal,
    field "quote_balance" readDecimal,
    field "incentive_per_pulse" readDecimal,
    field "visibility_lag" (readWord "usize"),
    field "seed" (readOption (readWord "u64"))]
  lenient := true

def read : Reader PaperConfig := fun s => do
  let m ← readRecord shape s
  let d : PaperConfig := {}
  return {
    initialPrice := ← m.withDefault "initial_price" d.initialPrice readDecimal
    volatility := ← m.withDefault "volatility" d.volatility readDecimal
    bookHalfSpreadRatio :=
      ← m.withDefault "book_half_spread_ratio" d.bookHalfSpreadRatio readDecimal
    baseBalance := ← m.withDefault "base_balance" d.baseBalance readDecimal
    quoteBalance := ← m.withDefault "quote_balance" d.quoteBalance readDecimal
    incentivePerPulse := ← m.withDefault "incentive_per_pulse" d.incentivePerPulse readDecimal
    visibilityLag := ← m.withDefault "visibility_lag" d.visibilityLag (readWord "usize")
    seed := ← m.withDefault "seed" d.seed (readOption (readWord "u64")) }

end PaperConfig

namespace RunConfig

def toJson (c : RunConfig) : Json := .object [
  ("market", .string c.market),
  ("pulse_interval_ms", .ofWord c.pulseInterval),
  ("pulse_timeout_ms", .ofWord c.pulseTimeout),
  ("cycle", c.cycle.toJson),
  ("quoting", c.quoting.toJson),
  ("paper", c.paper.toJson)]

def shape : Shape where
  title := "struct RunnerConfig"
  fields := [
    field "market" readText,
    field "pulse_interval_ms" (readWord "u64"),
    field "pulse_timeout_ms" (readWord "u64"),
    field "cycle" CycleConfig.read,
    field "quoting" QuotingConfig.read,
    field "paper" PaperConfig.read]
  lenient := true

def read : Reader RunConfig := fun s => do
  let m ← readRecord shape s
  let d : RunConfig := {}
  return {
    market := ← m.withDefault "market" d.market readText
    pulseInterval := ← m.withDefault "pulse_interval_ms" d.pulseInterval (readWord "u64")
    pulseTimeout := ← m.withDefault "pulse_timeout_ms" d.pulseTimeout (readWord "u64")
    cycle := ← m.withDefault "cycle" d.cycle CycleConfig.read
    quoting := ← m.withDefault "quoting" d.quoting QuotingConfig.read
    paper := ← m.withDefault "paper" d.paper PaperConfig.read }

end RunConfig

inductive ConfigError where
  | unreadable
  | malformed
  | mismatch (m : Mismatch)
  | invalid (wrong : InvalidConfig)

def ConfigError.message : ConfigError → String
  | .unreadable => "Failed to read config file"
  | .malformed => "Failed to parse config: the text is not well formed"
  | .mismatch m => "Failed to parse config: " ++ m.message
  | .invalid wrong => "Invalid config: " ++ wrong.message

namespace RunConfig

def load (text : String) : Except ConfigError RunConfig :=
  match Json.parse read text with
  | .ok c => .ok c
  | .error .malformed => .error .malformed
  | .error (.mismatch m) => .error (.mismatch m)

def loadValid (text : String) : Except ConfigError RunConfig := do
  let c ← load text
  match c.validate with
  | .ok () => return c
  | .error wrong => throw (.invalid wrong)

-- The configuration of a run that is given none: the defaults of the cycle with redeeming, a fine
-- tick, and a market near 33 with one fetch of lag.
def standard : RunConfig where
  cycle := { redeemThreshold := some (.ofWord 25 0) }
  quoting := {
    tickSize := .ofWord 1 3
    lotSize := .ofWord 1 1
    maxBase := some (.ofWord 200 0)
    minBase := some .zero }
  paper := {
    initialPrice := .ofWord 3350 2
    volatility := .ofWord 2 3
    baseBalance := .ofWord 100 0
    quoteBalance := .ofWord 3350 0
    incentivePerPulse := .ofWord 25 2
    visibilityLag := 1 }

end RunConfig
end MarketMaking
