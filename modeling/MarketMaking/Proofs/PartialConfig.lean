import MarketMaking.Proofs.WireValues
import MarketMaking.Wire.Config

/-! Configurations whose text was edited: every member that is left is read as it was written, and
every one that was left out has its default, section by section (`RunConfig.load_edited`). -/

namespace MarketMaking
open Json Json.Source

variable {edited : List (String × Json)} {name : String}

theorem optionAgrees_refl (o : Option Decimal) : optionAgrees o o = true := by
  cases o with
  | none => rfl
  | some a => exact decide_eq_true a.equiv_refl

theorem keep_related {R : α → α → Prop} {a b default : α} (values : R a b)
    (defaults : R default default) :
    R (keep edited name a default) (keep edited name b default) := by
  unfold keep
  split
  · exact values
  · exact defaults

theorem keep_equiv (a default : Decimal) :
    keep edited name a.plain default ≈ keep edited name a default :=
  keep_related a.plain_equiv default.equiv_refl

theorem optionAgrees_keep (o default : Option Decimal) :
    optionAgrees (keep edited name (o.map Decimal.plain) default) (keep edited name o default) =
      true := by
  apply keep_related (R := fun a b => optionAgrees a b = true) _ (optionAgrees_refl default)
  cases o with
  | none => rfl
  | some a => exact decide_eq_true a.plain_equiv

def Json.members : Json → List (String × Json)
  | .object members => members
  | _ => []

namespace CycleConfig

def plain (c : CycleConfig) : CycleConfig :=
  { c with
    tolerance := c.tolerance.plain
    redeemThreshold := c.redeemThreshold.map Decimal.plain }

def kept (c : CycleConfig) (edited : List (String × Json)) : CycleConfig :=
  let d : CycleConfig := {}
  { tolerance := keep edited "tolerance" c.tolerance d.tolerance
    redeemThreshold := keep edited "redeem_threshold" c.redeemThreshold d.redeemThreshold
    crankEachPulse := keep edited "crank_each_pulse" c.crankEachPulse d.crankEachPulse
    settleEachPulse := keep edited "settle_each_pulse" c.settleEachPulse d.settleEachPulse
    fetchRetryPauses := keep edited "fetch_retry_pauses_ms" c.fetchRetryPauses d.fetchRetryPauses
    submitRetryPauses :=
      keep edited "submit_retry_pauses_ms" c.submitRetryPauses d.submitRetryPauses
    maxTracked := keep edited "max_tracked" c.maxTracked d.maxTracked
    maxUnconfirmed := keep edited "max_unconfirmed_pulses" c.maxUnconfirmed d.maxUnconfirmed }

def slots (c : CycleConfig) : List Slot := [
  ⟨_, "tolerance", readDecimal, _, _, readDecimal_toJson c.tolerance⟩,
  ⟨_, "redeem_threshold", readOption readDecimal, _, _, readOption_decimal c.redeemThreshold⟩,
  ⟨_, "crank_each_pulse", readBool, c.crankEachPulse, .bool c.crankEachPulse, rfl⟩,
  ⟨_, "settle_each_pulse", readBool, c.settleEachPulse, .bool c.settleEachPulse, rfl⟩,
  ⟨_, "fetch_retry_pauses_ms", readList (readWord "u64"), _, _,
    readList_ofList (readWord_ofWord "u64") c.fetchRetryPauses⟩,
  ⟨_, "submit_retry_pauses_ms", readList (readWord "u64"), _, _,
    readList_ofList (readWord_ofWord "u64") c.submitRetryPauses⟩,
  ⟨_, "max_tracked", readWord "usize", _, _, readWord_ofWord "usize" c.maxTracked⟩,
  ⟨_, "max_unconfirmed_pulses", readWord "usize", _, _,
    readWord_ofWord "usize" c.maxUnconfirmed⟩]

theorem members_toJson (c : CycleConfig) : c.toJson.members = c.slots.map Slot.member := rfl

theorem read_edited {c : CycleConfig} {edited : List (String × Json)}
    (edits : Edits c.toJson.members edited) :
    read (ofJson (.object edited)) = .ok (c.plain.kept edited) := by
  obtain ⟨m, accepted, found⟩ :=
    readRecord_slots shape rfl (by decide) (c.members_toJson ▸ edits)
  simp only [slots, List.forall_mem_cons] at found
  simp only [read, accepted, found, bind, Except.bind, pure, Except.pure]
  rfl

theorem agrees_kept (c : CycleConfig) (edited : List (String × Json)) :
    (c.plain.kept edited).agrees (c.kept edited) = true := by
  simp only [agrees, Bool.and_eq_true, decide_eq_true_eq]
  refine ⟨⟨⟨⟨⟨⟨⟨keep_equiv _ _, optionAgrees_keep _ _⟩, ?_⟩, ?_⟩, ?_⟩, ?_⟩, ?_⟩, ?_⟩ <;>
    exact beq_self_eq_true _

end CycleConfig

namespace QuotingConfig

def plain (c : QuotingConfig) : QuotingConfig :=
  { c with
    spreadRatio := c.spreadRatio.plain
    positionSizeRatio := c.positionSizeRatio.plain
    tickSize := c.tickSize.plain
    lotSize := c.lotSize.plain
    maxBase := c.maxBase.map Decimal.plain
    minBase := c.minBase.map Decimal.plain }

def kept (c : QuotingConfig) (edited : List (String × Json)) : QuotingConfig :=
  let d : QuotingConfig := {}
  { spreadRatio := keep edited "spread_ratio" c.spreadRatio d.spreadRatio
    positionSizeRatio :=
      keep edited "position_size_ratio" c.positionSizeRatio d.positionSizeRatio
    orderType := keep edited "order_type" c.orderType d.orderType
    tickSize := keep edited "tick_size" c.tickSize d.tickSize
    lotSize := keep edited "lot_size" c.lotSize d.lotSize
    maxBase := keep edited "max_base" c.maxBase d.maxBase
    minBase := keep edited "min_base" c.minBase d.minBase }

def slots (c : QuotingConfig) : List Slot := [
  ⟨_, "spread_ratio", readDecimal, _, _, readDecimal_toJson c.spreadRatio⟩,
  ⟨_, "position_size_ratio", readDecimal, _, _, readDecimal_toJson c.positionSizeRatio⟩,
  ⟨_, "order_type", OrderType.read, _, _, c.orderType.read_toJson⟩,
  ⟨_, "tick_size", readDecimal, _, _, readDecimal_toJson c.tickSize⟩,
  ⟨_, "lot_size", readDecimal, _, _, readDecimal_toJson c.lotSize⟩,
  ⟨_, "max_base", readOption readDecimal, _, _, readOption_decimal c.maxBase⟩,
  ⟨_, "min_base", readOption readDecimal, _, _, readOption_decimal c.minBase⟩]

theorem members_toJson (c : QuotingConfig) : c.toJson.members = c.slots.map Slot.member := rfl

theorem read_edited {c : QuotingConfig} {edited : List (String × Json)}
    (edits : Edits c.toJson.members edited) :
    read (ofJson (.object edited)) = .ok (c.plain.kept edited) := by
  obtain ⟨m, accepted, found⟩ :=
    readRecord_slots shape rfl (by decide) (c.members_toJson ▸ edits)
  simp only [slots, List.forall_mem_cons] at found
  simp only [read, accepted, found, bind, Except.bind, pure, Except.pure]
  rfl

theorem agrees_kept (c : QuotingConfig) (edited : List (String × Json)) :
    (c.plain.kept edited).agrees (c.kept edited) = true := by
  simp only [agrees, Bool.and_eq_true, decide_eq_true_eq]
  exact ⟨⟨⟨⟨⟨⟨keep_equiv _ _, keep_equiv _ _⟩, beq_self_eq_true _⟩, keep_equiv _ _⟩,
    keep_equiv _ _⟩, optionAgrees_keep _ _⟩, optionAgrees_keep _ _⟩

end QuotingConfig

namespace PaperConfig

def plain (c : PaperConfig) : PaperConfig :=
  { c with
    initialPrice := c.initialPrice.plain
    volatility := c.volatility.plain
    bookHalfSpreadRatio := c.bookHalfSpreadRatio.plain
    baseBalance := c.baseBalance.plain
    quoteBalance := c.quoteBalance.plain
    incentivePerPulse := c.incentivePerPulse.plain }

def kept (c : PaperConfig) (edited : List (String × Json)) : PaperConfig :=
  let d : PaperConfig := {}
  { initialPrice := keep edited "initial_price" c.initialPrice d.initialPrice
    volatility := keep edited "volatility" c.volatility d.volatility
    bookHalfSpreadRatio :=
      keep edited "book_half_spread_ratio" c.bookHalfSpreadRatio d.bookHalfSpreadRatio
    baseBalance := keep edited "base_balance" c.baseBalance d.baseBalance
    quoteBalance := keep edited "quote_balance" c.quoteBalance d.quoteBalance
    incentivePerPulse :=
      keep edited "incentive_per_pulse" c.incentivePerPulse d.incentivePerPulse
    visibilityLag := keep edited "visibility_lag" c.visibilityLag d.visibilityLag
    seed := keep edited "seed" c.seed d.seed }

def slots (c : PaperConfig) : List Slot := [
  ⟨_, "initial_price", readDecimal, _, _, readDecimal_toJson c.initialPrice⟩,
  ⟨_, "volatility", readDecimal, _, _, readDecimal_toJson c.volatility⟩,
  ⟨_, "book_half_spread_ratio", readDecimal, _, _, readDecimal_toJson c.bookHalfSpreadRatio⟩,
  ⟨_, "base_balance", readDecimal, _, _, readDecimal_toJson c.baseBalance⟩,
  ⟨_, "quote_balance", readDecimal, _, _, readDecimal_toJson c.quoteBalance⟩,
  ⟨_, "incentive_per_pulse", readDecimal, _, _, readDecimal_toJson c.incentivePerPulse⟩,
  ⟨_, "visibility_lag", readWord "usize", _, _, readWord_ofWord "usize" c.visibilityLag⟩,
  ⟨_, "seed", readOption (readWord "u64"), _, _, readOption_word "u64" c.seed⟩]

theorem members_toJson (c : PaperConfig) : c.toJson.members = c.slots.map Slot.member := rfl

theorem read_edited {c : PaperConfig} {edited : List (String × Json)}
    (edits : Edits c.toJson.members edited) :
    read (ofJson (.object edited)) = .ok (c.plain.kept edited) := by
  obtain ⟨m, accepted, found⟩ :=
    readRecord_slots shape rfl (by decide) (c.members_toJson ▸ edits)
  simp only [slots, List.forall_mem_cons] at found
  simp only [read, accepted, found, bind, Except.bind, pure, Except.pure]
  rfl

theorem agrees_kept (c : PaperConfig) (edited : List (String × Json)) :
    (c.plain.kept edited).agrees (c.kept edited) = true := by
  simp only [agrees, Bool.and_eq_true, decide_eq_true_eq]
  exact ⟨⟨⟨⟨⟨⟨⟨keep_equiv _ _, keep_equiv _ _⟩, keep_equiv _ _⟩, keep_equiv _ _⟩,
    keep_equiv _ _⟩, keep_equiv _ _⟩, beq_self_eq_true _⟩, beq_self_eq_true _⟩

end PaperConfig

structure ConfigText where
  cycle : List (String × Json)
  quoting : List (String × Json)
  paper : List (String × Json)
  members : List (String × Json)

def ConfigText.toText (t : ConfigText) : String := (Json.object t.members).toText

namespace RunConfig

def plain (c : RunConfig) : RunConfig :=
  { c with cycle := c.cycle.plain, quoting := c.quoting.plain, paper := c.paper.plain }

def membersAround (c : RunConfig) (t : ConfigText) : List (String × Json) :=
  c.toJson.members.map fun m =>
    if m.1 = "cycle" then (m.1, .object t.cycle)
    else if m.1 = "quoting" then (m.1, .object t.quoting)
    else if m.1 = "paper" then (m.1, .object t.paper)
    else m

-- A text of the configuration that was edited at the top and in its sections.
structure Edited (c : RunConfig) (t : ConfigText) : Prop where
  cycle : Edits c.cycle.toJson.members t.cycle
  quoting : Edits c.quoting.toJson.members t.quoting
  paper : Edits c.paper.toJson.members t.paper
  members : Edits (c.membersAround t) t.members

def kept (c : RunConfig) (t : ConfigText) : RunConfig :=
  let d : RunConfig := {}
  { market := keep t.members "market" c.market d.market
    pulseInterval := keep t.members "pulse_interval_ms" c.pulseInterval d.pulseInterval
    pulseTimeout := keep t.members "pulse_timeout_ms" c.pulseTimeout d.pulseTimeout
    cycle := keep t.members "cycle" (c.cycle.kept t.cycle) d.cycle
    quoting := keep t.members "quoting" (c.quoting.kept t.quoting) d.quoting
    paper := keep t.members "paper" (c.paper.kept t.paper) d.paper }

variable {c : RunConfig} {t : ConfigText}

def Edited.slots (e : c.Edited t) : List Slot := [
  ⟨_, "market", readText, c.market, .string c.market, rfl⟩,
  ⟨_, "pulse_interval_ms", readWord "u64", _, _, readWord_ofWord "u64" c.pulseInterval⟩,
  ⟨_, "pulse_timeout_ms", readWord "u64", _, _, readWord_ofWord "u64" c.pulseTimeout⟩,
  ⟨_, "cycle", CycleConfig.read, _, _, CycleConfig.read_edited e.cycle⟩,
  ⟨_, "quoting", QuotingConfig.read, _, _, QuotingConfig.read_edited e.quoting⟩,
  ⟨_, "paper", PaperConfig.read, _, _, PaperConfig.read_edited e.paper⟩]

theorem Edited.membersAround_eq (e : c.Edited t) : c.membersAround t = e.slots.map Slot.member := by
  simp [membersAround, toJson, Json.members, slots, Slot.member]

theorem Edited.read (e : c.Edited t) :
    RunConfig.read (ofJson (.object t.members)) = .ok (c.plain.kept t) := by
  obtain ⟨m, accepted, found⟩ :=
    readRecord_slots shape rfl (by decide) (e.membersAround_eq ▸ e.members)
  simp only [slots, List.forall_mem_cons] at found
  simp only [RunConfig.read, accepted, found, bind, Except.bind, pure, Except.pure]
  rfl

theorem Edited.load (e : c.Edited t) : RunConfig.load t.toText = .ok (c.plain.kept t) := by
  unfold RunConfig.load Json.parse ConfigText.toText
  rw [ofText_toText]
  simp only [e.read]
  rfl

theorem agrees_kept (c : RunConfig) (t : ConfigText) :
    (c.plain.kept t).agrees (c.kept t) = true := by
  simp only [agrees, Bool.and_eq_true]
  refine ⟨⟨⟨⟨⟨?_, ?_⟩, ?_⟩, ?_⟩, ?_⟩, ?_⟩
  · exact beq_self_eq_true _
  · exact beq_self_eq_true _
  · exact beq_self_eq_true _
  · exact keep_related (R := fun a b : CycleConfig => a.agrees b = true)
      (c.cycle.agrees_kept t.cycle) (by decide)
  · exact keep_related (R := fun a b : QuotingConfig => a.agrees b = true)
      (c.quoting.agrees_kept t.quoting) (by decide)
  · exact keep_related (R := fun a b : PaperConfig => a.agrees b = true)
      (c.paper.agrees_kept t.paper) (by decide)

def wholeText (c : RunConfig) : ConfigText :=
  ⟨c.cycle.toJson.members, c.quoting.toJson.members, c.paper.toJson.members, c.toJson.members⟩

theorem edited_wholeText (c : RunConfig) : c.Edited c.wholeText := by
  have around : c.membersAround c.wholeText = c.toJson.members := by
    simp [membersAround, wholeText, toJson, Json.members, CycleConfig.toJson,
      QuotingConfig.toJson, PaperConfig.toJson]
  refine ⟨.refl _, .refl _, .refl _, ?_⟩
  rw [around]
  exact .refl _

theorem kept_wholeText (c d : RunConfig) : d.kept c.wholeText = d := by
  simp [kept, wholeText, keep, toJson, Json.members, CycleConfig.kept, CycleConfig.toJson,
    QuotingConfig.kept, QuotingConfig.toJson, PaperConfig.kept, PaperConfig.toJson]

theorem load_edited (c : RunConfig) :
    (∀ t, c.Edited t → load t.toText = .ok (c.plain.kept t) ∧
      (c.plain.kept t).agrees (c.kept t) = true) ∧
    load c.toJson.toText = .ok c.plain ∧ c.plain.agrees c = true := by
  refine ⟨fun t edited => ⟨edited.load, c.agrees_kept t⟩, ?_⟩
  have whole := c.edited_wholeText.load
  have same := c.agrees_kept c.wholeText
  rw [kept_wholeText] at whole same
  rw [kept_wholeText] at same
  exact ⟨whole, same⟩

def sampleConfig : RunConfig where
  market := "ABC/USDC"
  cycle := { tolerance := .ofWord 2 2 }
  paper := { visibilityLag := 2, seed := some 7 }

def sampleText : ConfigText where
  cycle := [("note", .array [.null]), ("tolerance", (Decimal.ofWord 2 2).toJson)]
  quoting := []
  paper := [("seed", .ofWord 7), ("visibility_lag", .ofWord 2)]
  members := [
    ("paper", .object [("seed", .ofWord 7), ("visibility_lag", .ofWord 2)]),
    ("comment", .string "by hand"),
    ("cycle", .object [("note", .array [.null]), ("tolerance", (Decimal.ofWord 2 2).toJson)])]

theorem load_sampleText :
    sampleConfig.Edited sampleText ∧ load sampleText.toText = .ok {
      cycle := { tolerance := .ofWord 2 2 }
      paper := { visibilityLag := 2, seed := some 7 } } := by
  have edited : sampleConfig.Edited sampleText := by
    refine ⟨?_, ?_, ?_, ?_⟩
    · apply List.subperm_of_subset
      · simp [sampleText, Json.members, CycleConfig.toJson]
      · simp [sampleText, sampleConfig, Json.members, CycleConfig.toJson]
    · exact List.nil_subperm
    · apply List.subperm_of_subset
      · simp [sampleText, Json.members, PaperConfig.toJson]
      · simp [sampleText, sampleConfig, Json.members, PaperConfig.toJson, Json.ofOption]
    · apply List.subperm_of_subset
      · simp [sampleText, membersAround, Json.members, toJson]
      · simp [sampleText, sampleConfig, membersAround, Json.members, toJson]
  have loaded := ((load_edited sampleConfig).1 sampleText edited).1
  have kept : sampleConfig.plain.kept sampleText = {
      cycle := { tolerance := .ofWord 2 2 }
      paper := { visibilityLag := 2, seed := some 7 } } := by decide
  exact ⟨edited, loaded.trans (congrArg Except.ok kept)⟩

end RunConfig
end MarketMaking
