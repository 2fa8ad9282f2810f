import MarketMaking.Proofs.Nearest
import MarketMaking.RandomWalk

/-! How a simulated market wanders. A move is off by a millionth in all at most
(`RandomWalk.moved_near`), and the mid price lies between bid and ask although it is worked out
again from the two (`Decimal.mean_between`). -/

namespace MarketMaking
namespace Decimal
variable {bid ask mid sum mean : Decimal} {x : ℚ} {n m : ℤ}

theorem value_two : two.value = 2 := by
  have parts : two.value = ((2 : Int) : ℚ) / 10 ^ 0 := rfl
  rw [parts]
  norm_num

theorem le_double (near : (n : ℚ) ≤ x + m + 1 / 2) (above : (m : ℚ) ≤ x) : (n : ℚ) ≤ 2 * x := by
  rcases le_or_gt ((m : ℚ) + 1 / 2) x with apart | beside
  · linarith
  · have less : (n : ℚ) < (2 * m + 1 : ℤ) := by
      push_cast
      linarith
    have whole : (n : ℚ) ≤ (2 * m : ℤ) :=
      Int.cast_le.mpr (Int.le_of_lt_add_one (Int.cast_lt.mp less))
    push_cast at whole
    linarith

-- With six places or fewer in the middle, a sum that is rounded has as many places at least.
theorem six_le_places {places : Nat} (low : mid.value ≤ 10 ^ 20) (nonneg : 0 ≤ mid.value)
    (centred : |bid.value + ask.value - 2 * mid.value| ≤ 1)
    (full : brim ≤ |bid.value + ask.value| * 10 ^ (places + 1)) : 6 ≤ places := by
  by_contra few
  have small : |bid.value + ask.value| ≤ 2 * 10 ^ 20 + 1 := by
    rw [abs_le] at centred ⊢
    constructor <;> linarith
  have coarse : (10 : ℚ) ^ (places + 1) ≤ 10 ^ 6 := pow_le_pow_right₀ (by norm_num) (by omega)
  have most : |bid.value + ask.value| * 10 ^ (places + 1) ≤ (2 * 10 ^ 20 + 1) * 10 ^ 6 := by
    gcongr
  have short : (2 * 10 ^ 20 + 1) * 10 ^ 6 < brim := by norm_num [brim, largest]
  linarith

theorem sum_between (few : mid.scale ≤ 6) (low : mid.value ≤ 10 ^ 20) (nonneg : 0 ≤ mid.value)
    (centred : |bid.value + ask.value - 2 * mid.value| ≤ 1) (below : bid.value ≤ mid.value)
    (above : mid.value ≤ ask.value) (added : bid.add ask = .ok sum) :
    2 * bid.value ≤ sum.value ∧ sum.value ≤ 2 * ask.value := by
  obtain ⟨places, ⟨n, whole⟩, near, full⟩ := add_rounds added
  have unit : (0 : ℚ) < 10 ^ places := by positivity
  rcases full with exact | full
  · rw [exact]
    constructor <;> linarith
  have enough : 6 ≤ places := by
    rcases full with all | full
    · omega
    · exact six_le_places low nonneg centred full
  obtain ⟨m, grid⟩ := whole_of_scale_le (few.trans enough)
  have below := mul_le_mul_of_nonneg_right below unit.le
  have above := mul_le_mul_of_nonneg_right above unit.le
  rw [whole, add_mul, abs_le] at near
  rw [grid] at below above
  constructor
  · have mirrored : ((-n : ℤ) : ℚ) ≤ 2 * -(bid.value * 10 ^ places) := by
      apply le_double (m := -m)
      · push_cast
        linarith
      · push_cast
        linarith
    push_cast at mirrored
    rw [← mul_le_mul_iff_of_pos_right unit, whole]
    linarith
  · rw [← mul_le_mul_iff_of_pos_right unit, whole, mul_assoc]
    exact le_double (by linarith) above

theorem mean_between (few : mid.scale ≤ 6) (low : mid.value ≤ 10 ^ 20) (nonneg : 0 ≤ mid.value)
    (centred : |bid.value + ask.value - 2 * mid.value| ≤ 1) (below : bid.value ≤ mid.value)
    (above : mid.value ≤ ask.value) (added : bid.add ask = .ok sum)
    (halved : sum.div two = .ok mean) : bid ≤ mean ∧ mean ≤ ask := by
  obtain ⟨least, most⟩ := sum_between few low nonneg centred below above added
  have rounds := div_rounds halved
  rw [value_two] at rounds
  rw [le_iff, le_iff]
  exact ⟨(rounds.side bid).1 (by linarith), (rounds.side ask).2 (by linarith)⟩

end Decimal

structure PaperConfig.Sensible (c : PaperConfig) : Prop where
  price : .zero < c.initialPrice
  volatility : .zero ≤ c.volatility ∧ c.volatility ≤ .one
  halfSpread : .zero ≤ c.bookHalfSpreadRatio

theorem PaperConfig.Sensible.share {c : PaperConfig} (sensible : c.Sensible) :
    0 ≤ c.volatility.value ∧ c.volatility.value ≤ 1 := by
  obtain ⟨low, high⟩ := sensible.volatility
  rw [Decimal.le_iff, Decimal.value_one] at high
  exact ⟨Decimal.value_nonneg_iff.mpr (Decimal.nonneg_iff.mp low), high⟩

namespace RandomWalk
open Decimal
variable {w w' : RandomWalk} {config : PaperConfig} {clock : Checked Timestamp}
  {answer : Except ProducerError ModelState}

section Moves
variable {draw : Int} {change factor price : Decimal}

theorem value_thousandths (inRange : |draw| ≤ 1000) : (thousandths draw).value = draw / 1000 := by
  have fits : draw.natAbs < limit ∧ 3 ≤ 28 := by
    rw [Int.abs_eq_natAbs] at inRange
    unfold limit
    omega
  unfold thousandths ofScaled?
  rw [dif_pos fits, Option.getD_some, value]
  norm_num

theorem part_le {v : ℚ} (inRange : |draw| ≤ 1000) (nonneg : 0 ≤ v) :
    |(draw : ℚ) / 1000 * v| ≤ v := by
  have few : |(draw : ℚ)| ≤ 1000 := by exact_mod_cast inRange
  rw [abs_mul, abs_div, abs_of_pos (by norm_num : (0 : ℚ) < 1000), abs_of_nonneg nonneg]
  exact mul_le_of_le_one_left nonneg ((div_le_one (by norm_num)).mpr few)

theorem change_within (inRange : |draw| ≤ 1000) (nonneg : 0 ≤ w.config.volatility.value)
    (scaled : (thousandths draw).mul w.config.volatility = .ok change) :
    |change.value| ≤ w.config.volatility.value := by
  have rounds := mul_rounds scaled
  rw [value_thousandths inRange] at rounds
  obtain ⟨low, high⟩ := abs_le.mp (part_le inRange nonneg)
  have least := (rounds.side (-w.config.volatility)).1
  rw [value_neg] at least
  exact abs_le.mpr ⟨least low, (rounds.side w.config.volatility).2 high⟩

theorem factor_near (small : |change.value| ≤ 1) (grown : Decimal.one.add change = .ok factor) :
    0 ≤ factor.value ∧ factor.value ≤ 2 ∧
      |factor.value - (1 + change.value)| ≤ 1 / 2 / 10 ^ 28 := by
  have rounds := add_rounds grown
  rw [value_one] at rounds
  obtain ⟨low, high⟩ := abs_le.mp small
  have most := (rounds.side .two).2
  rw [value_two] at most
  refine ⟨rounds.nonneg (by linarith), most (by linarith), rounds.close (Nat.le_refl _) ?_⟩
  have sum : |1 + change.value| ≤ 2 := by
    rw [abs_le]
    constructor <;> linarith
  have room : (2 : ℚ) * 10 ^ 28 < brim := by norm_num [brim, largest]
  have scaled := mul_le_mul_of_nonneg_right sum (by positivity : (0 : ℚ) ≤ 10 ^ 28)
  linarith

theorem moved_eq_ok (moved : w.moved draw = .ok price) :
    ∃ change factor product, (thousandths draw).mul w.config.volatility = .ok change ∧
      Decimal.one.add change = .ok factor ∧ w.price.mul factor = .ok product ∧
      price = product.roundPlaces 6 := by
  obtain ⟨change, scaled, moved⟩ := Checked.of_bind moved
  obtain ⟨factor, grown, moved⟩ := Checked.of_bind moved
  obtain ⟨product, multiplied, moved⟩ := Checked.of_bind moved
  cases moved
  exact ⟨change, factor, product, scaled, grown, multiplied, rfl⟩

theorem product_near {p v c f d : ℚ} (nonneg : 0 ≤ p) (low : p < 10 ^ 20) (small : |c| ≤ v)
    (near : |f - (1 + c)| ≤ 1 / 2 / 10 ^ 28) (close : |d - p * f| ≤ 1 / 2 / 10 ^ 8) :
    |d - p| ≤ v * p + 1 / 10 ^ 8 := by
  have relative : |f - 1| ≤ v + 1 / 2 / 10 ^ 28 := by
    rw [abs_le] at small near ⊢
    constructor <;> linarith
  have change : |p * f - p| ≤ v * p + 1 / 2 / 10 ^ 8 := by
    rw [← mul_sub_one, abs_mul, abs_of_nonneg nonneg]
    calc p * |f - 1| ≤ p * (v + 1 / 2 / 10 ^ 28) := mul_le_mul_of_nonneg_left relative nonneg
      _ = v * p + p * (1 / 2 / 10 ^ 28) := by ring
      _ ≤ v * p + 10 ^ 20 * (1 / 2 / 10 ^ 28) := by gcongr
      _ = v * p + 1 / 2 / 10 ^ 8 := by norm_num
  rw [abs_le] at close change ⊢
  constructor <;> linarith

-- A price below `10 ^ 20` has at least eight places when it is multiplied, so that the sixth is
-- rounded by half a millionth and little more.
theorem moved_near (inRange : |draw| ≤ 1000) (sensible : w.config.Sensible)
    (nonneg : .zero ≤ w.price) (low : w.price.value < 10 ^ 20) (moved : w.moved draw = .ok price) :
    .zero ≤ price ∧ price.scale ≤ 6 ∧
      |price.value - w.price.value| ≤ w.config.volatility.value * w.price.value + 1 / 10 ^ 6 := by
  obtain ⟨change, factor, product, scaled, grown, multiplied, rfl⟩ := moved_eq_ok moved
  have nonneg : 0 ≤ w.price.value := value_nonneg_iff.mpr (nonneg_iff.mp nonneg)
  obtain ⟨least, most⟩ := sensible.share
  have within := change_within inRange least scaled
  obtain ⟨low', high', near⟩ := factor_near (within.trans most) grown
  have rounds := mul_rounds multiplied
  have unsigned : 0 ≤ product.coefficient := value_nonneg_iff.mp (rounds.nonneg (by positivity))
  refine ⟨nonneg_iff.mpr (roundPlaces_nonneg 6 unsigned), scale_roundPlaces 6 product, ?_⟩
  have room : |w.price.value * factor.value| * 10 ^ 8 < brim := by
    have size : w.price.value * factor.value ≤ 10 ^ 20 * 2 := by gcongr
    have short : (10 : ℚ) ^ 20 * 2 * 10 ^ 8 < brim := by norm_num [brim, largest]
    rw [abs_of_nonneg (by positivity)]
    linarith
  have close := product_near nonneg low within near (rounds.close (by norm_num) room)
  have rounded := roundPlaces_near 6 product
  rw [abs_le] at close rounded ⊢
  constructor <;> linarith

end Moves

def movedTo (w : RandomWalk) (mid : Decimal) : RandomWalk :=
  { w with price := mid, draws := w.draws.tail }

inductive Comes (w : RandomWalk) (clock : Checked Timestamp) :
    Except ProducerError ModelState → RandomWalk → Prop where
  | fallen {mid : Decimal} : w.moved (w.draws.head?.getD 0) = .ok mid → mid ≤ .zero →
    Comes w clock (.error (.invalidState ("simulated price fell to " ++ mid.toText)))
      (w.movedTo mid)
  | shown {mid half incentives bid ask : Decimal} {now : Timestamp} {snapshot : PriceSnapshot} :
    w.moved (w.draws.head?.getD 0) = .ok mid → .zero < mid →
    mid.mul w.config.bookHalfSpreadRatio = .ok half →
    w.inventory.incentives.add w.config.incentivePerPulse = .ok incentives → clock = .ok now →
    mid.sub half = .ok bid → mid.add half = .ok ask →
    PriceSnapshot.ofBidAsk bid ask = .ok snapshot →
    Comes w clock (.ok ⟨w.market, some snapshot, { w.inventory with incentives }, now⟩)
      { w.movedTo mid with inventory := { w.inventory with incentives } }

theorem next_comes (called : w.next clock = .ok (answer, w')) : Comes w clock answer w' := by
  obtain ⟨price, moved, called⟩ := Checked.of_bind called
  split at called
  · cases called
    exact .fallen moved ‹_›
  · rename_i above
    obtain ⟨half, spread, called⟩ := Checked.of_bind called
    obtain ⟨incentives, accrued, called⟩ := Checked.of_bind called
    obtain ⟨now, read, called⟩ := Checked.of_bind called
    obtain ⟨bid, below, called⟩ := Checked.of_bind called
    obtain ⟨ask, upper, called⟩ := Checked.of_bind called
    obtain ⟨snapshot, shown, called⟩ := Checked.of_bind called
    cases called
    exact .shown moved (Decimal.not_le.mp above) spread accrued read below upper shown

theorem ofBidAsk_between {mid half bid ask : Decimal} {p : PriceSnapshot} (pos : .zero < mid)
    (low : mid.value < 10 ^ 20) (few : mid.scale ≤ 6) (nonneg : 0 ≤ half.value)
    (below : mid.sub half = .ok bid) (upper : mid.add half = .ok ask)
    (shown : PriceSnapshot.ofBidAsk bid ask = .ok p) : p.bid ≤ p.mid ∧ p.mid ≤ p.ask := by
  obtain ⟨sum, added, shown⟩ := Checked.of_bind shown
  obtain ⟨mean, halved, shown⟩ := Checked.of_bind shown
  cases shown
  have pos : 0 < mid.value := value_pos_iff.mpr (pos_iff.mp pos)
  have rounds := sub_rounds below
  have rounds' := add_rounds upper
  have under := (rounds.side mid).2 (by linarith)
  have above := (rounds'.side mid).1 (by linarith)
  refine mean_between few low.le pos.le ?_ under above added halved
  have near := rounds.near
  have near' := rounds'.near
  rw [abs_le] at near near' ⊢
  constructor <;> linarith

structure Sound (config : PaperConfig) (w : RandomWalk) : Prop where
  config : w.config = config
  draws : ∀ d ∈ w.draws, -1000 ≤ d ∧ d ≤ 1000
  price : .zero ≤ w.price

theorem Sound.draw (sound : w.Sound config) : |w.draws.head?.getD 0| ≤ 1000 := by
  cases draws : w.draws with
  | nil => simp
  | cons d rest => exact abs_le.mpr (sound.draws d (draws ▸ List.mem_cons_self))

theorem Sound.movedTo {mid : Decimal} (sound : w.Sound config) (nonneg : .zero ≤ mid) :
    (w.movedTo mid).Sound config :=
  ⟨sound.config, fun d here => sound.draws d (List.mem_of_mem_tail here), nonneg⟩

structure Call where
  before : RandomWalk
  answer : Except ProducerError ModelState
  after : RandomWalk
  deriving DecidableEq

structure Call.Fair (config : PaperConfig) (c : Call) : Prop where
  nonneg : .zero ≤ c.after.price
  near : |c.after.price.value - c.before.price.value| ≤
    config.volatility.value * c.before.price.value + 1 / 10 ^ 6
  places : c.after.price.scale ≤ 6
  shown : (∃ state, c.answer = .ok state) ↔ .zero < c.after.price
  between : ∀ state, c.answer = .ok state →
    ∃ p, state.price = some p ∧ p.bid ≤ p.mid ∧ p.mid ≤ p.ask
  accrued : ∀ state, c.answer = .ok state → state.inventory = c.after.inventory ∧
    c.before.inventory.incentives.add config.incentivePerPulse = .ok c.after.inventory.incentives
  kept : ∀ e, c.answer = .error e → c.after.inventory = c.before.inventory

theorem Comes.sound (comes : w.Comes clock answer w') (sensible : config.Sensible)
    (sound : w.Sound config) (low : w.price.value < 10 ^ 20) : w'.Sound config := by
  have sensible : w.config.Sensible := sound.config ▸ sensible
  cases comes with
  | fallen moved _ =>
    exact sound.movedTo (moved_near sound.draw sensible sound.price low moved).1
  | shown moved _ _ _ _ _ _ _ =>
    obtain ⟨config, draws, price⟩ :=
      sound.movedTo (moved_near sound.draw sensible sound.price low moved).1
    exact ⟨config, draws, price⟩

theorem Comes.fair (comes : w.Comes clock answer w') (sensible : config.Sensible)
    (sound : w.Sound config) (low : w.price.value < 10 ^ 20) (low' : w'.price.value < 10 ^ 20) :
    Call.Fair config ⟨w, answer, w'⟩ := by
  have same := sound.config
  subst same
  cases comes with
  | fallen moved bottom =>
    obtain ⟨nonneg, few, near⟩ := moved_near sound.draw sensible sound.price low moved
    refine ⟨nonneg, near, few, ⟨?_, ?_⟩, ?_, ?_, fun e _ => rfl⟩
    · intro ⟨state, answered⟩
      cases answered
    · intro above
      exact absurd bottom (Decimal.not_le.mpr above)
    · intro state answered
      cases answered
    · intro state answered
      cases answered
  | shown moved above spread accrued read below upper snapshot =>
    obtain ⟨nonneg, few, near⟩ := moved_near sound.draw sensible sound.price low moved
    refine ⟨nonneg, near, few, ⟨fun _ => above, fun _ => ⟨_, rfl⟩⟩, ?_, ?_, ?_⟩
    · intro state answered
      cases answered
      have wide := value_nonneg_iff.mpr
        (mul_nonneg (nonneg_iff.mp nonneg) (nonneg_iff.mp sensible.halfSpread) spread)
      exact ⟨_, rfl, ofBidAsk_between above low' few wide below upper snapshot⟩
    · intro state answered
      cases answered
      exact ⟨rfl, accrued⟩
    · intro e answered
      cases answered

section Runs
variable {clocks later : List (Checked Timestamp)} {calls : List Call}

def run (w : RandomWalk) : List (Checked Timestamp) → Checked (List Call)
  | [] => return []
  | clock :: later => do
    let (answer, after) ← w.next clock
    return ⟨w, answer, after⟩ :: (← after.run later)

theorem run_cons (ran : w.run (clock :: later) = .ok calls) :
    ∃ answer after rest, w.next clock = .ok (answer, after) ∧ after.run later = .ok rest ∧
      calls = ⟨w, answer, after⟩ :: rest := by
  obtain ⟨⟨answer, after⟩, one, ran⟩ := Checked.of_bind ran
  obtain ⟨rest, others, ran⟩ := Checked.of_bind ran
  cases ran
  exact ⟨answer, after, rest, one, others, rfl⟩

theorem run_sound (sensible : config.Sensible) (sound : w.Sound config)
    (low : w.price.value < 10 ^ 20) (ran : w.run clocks = .ok calls)
    (stays : ∀ c ∈ calls, c.after.price.value < 10 ^ 20) :
    ∀ c ∈ calls, c.Fair config ∧ c.after.Sound config := by
  induction clocks generalizing w calls with
  | nil =>
    cases ran
    exact List.forall_mem_nil _
  | cons clock later ih =>
    obtain ⟨answer, after, rest, one, others, rfl⟩ := run_cons ran
    obtain ⟨low', stays⟩ := List.forall_mem_cons.mp stays
    have comes := next_comes one
    have kept := comes.sound sensible sound low
    exact List.forall_mem_cons.mpr
      ⟨⟨comes.fair sensible sound low low', kept⟩, ih kept low' others stays⟩

-- Each call finds the walk that the one before it left, and the incentives grow with each call that
-- shows the market.
theorem run_accrues (fair : ∀ c ∈ calls, c.Fair config) (ran : w.run clocks = .ok calls) :
    calls.length = clocks.length ∧
    ∃ last, calls.map (·.before) ++ [last] = w :: calls.map (·.after) ∧
      (List.replicate (calls.countP (·.answer.isOk)) config.incentivePerPulse).foldlM Decimal.add
        w.inventory.incentives = .ok last.inventory.incentives := by
  induction clocks generalizing w calls with
  | nil =>
    cases ran
    exact ⟨rfl, w, rfl, rfl⟩
  | cons clock later ih =>
    obtain ⟨answer, after, rest, one, others, rfl⟩ := run_cons ran
    obtain ⟨first, fair⟩ := List.forall_mem_cons.mp fair
    obtain ⟨length, last, linked, total⟩ := ih fair others
    refine ⟨congrArg Nat.succ length, last, ?_, ?_⟩
    · rw [List.map_cons, List.map_cons, List.cons_append, linked]
    · cases answer with
      | error e =>
        rw [List.countP_cons_of_neg (by simp [Except.isOk, Except.toBool]),
          ← congrArg Inventory.incentives (first.kept e rfl)]
        exact total
      | ok state =>
        rw [List.countP_cons_of_pos (by rfl), List.replicate_succ, List.foldlM_cons,
          (first.accrued state rfl).2]
        exact total

def Call.Fell (c : Call) : Prop := c.answer = .error (.invalidState "simulated price fell to 0")

theorem le_largest_of_small {x : ℚ} (small : |x| ≤ 2) : |x| ≤ ((largest : ℕ) : ℚ) :=
  small.trans (by norm_num [largest])

theorem Sound.next_of_zero (sound : w.Sound config) (sensible : config.Sensible)
    (zero : w.price ≈ .zero) (clock : Checked Timestamp) :
    w.next clock = .ok (.error (.invalidState "simulated price fell to 0"), w.movedTo .zero) := by
  have sensible : w.config.Sensible := sound.config ▸ sensible
  obtain ⟨least, most⟩ := sensible.share
  have none : w.price.coefficient = 0 := by simpa [equiv_def, tenTo_zero] using zero
  obtain ⟨change, scaled⟩ : ∃ d,
      (thousandths (w.draws.head?.getD 0)).mul w.config.volatility = .ok d := by
    apply mul_some
    rw [value_thousandths sound.draw]
    exact le_largest_of_small ((part_le sound.draw least).trans (most.trans (by norm_num)))
  obtain ⟨factor, grown⟩ : ∃ d, Decimal.one.add change = .ok d := by
    apply add_some
    have small := abs_le.mp ((change_within sound.draw least scaled).trans most)
    rw [value_one]
    exact le_largest_of_small (abs_le.mpr ⟨by linarith, by linarith⟩)
  have product : w.price.mul factor = .ok .zero := if_pos (.inl none)
  have moved : w.moved (w.draws.head?.getD 0) = .ok .zero := by
    rw [moved, scaled]
    simp only [bind, Except.bind, grown, product]
    rfl
  rw [next, moved]
  rfl

theorem Sound.run_of_zero (sound : w.Sound config) (sensible : config.Sensible)
    (zero : w.price ≈ .zero) (clocks : List (Checked Timestamp)) :
    ∃ calls, w.run clocks = .ok calls ∧ calls.length = clocks.length ∧ ∀ c ∈ calls, c.Fell := by
  induction clocks generalizing w with
  | nil => exact ⟨[], rfl, rfl, List.forall_mem_nil _⟩
  | cons clock later ih =>
    have one := sound.next_of_zero sensible zero clock
    have sound : (w.movedTo .zero).Sound config := sound.movedTo (by decide)
    obtain ⟨rest, others, length, fell⟩ := ih sound (equiv_refl _)
    refine ⟨⟨w, _, w.movedTo .zero⟩ :: rest, ?_, congrArg Nat.succ length,
      List.forall_mem_cons.mpr ⟨rfl, fell⟩⟩
    rw [run, one]
    simp only [bind, Except.bind, others]
    rfl

theorem run_absorbed (sensible : config.Sensible) (ran : w.run clocks = .ok calls)
    (sound : ∀ c ∈ calls, c.after.Sound config) :
    calls.Pairwise fun c d => c.after.price ≈ .zero → d.Fell := by
  induction clocks generalizing w calls with
  | nil =>
    cases ran
    exact List.Pairwise.nil
  | cons clock later ih =>
    obtain ⟨answer, after, rest, one, others, rfl⟩ := run_cons ran
    obtain ⟨first, sound⟩ := List.forall_mem_cons.mp sound
    refine List.pairwise_cons.mpr ⟨fun d here zero => ?_, ih others sound⟩
    obtain ⟨same, again, -, fell⟩ := first.run_of_zero sensible zero later
    cases others.symm.trans again
    exact fell d here

theorem start_sound {draws : List Int} (market : String) (sensible : config.Sensible)
    (inRange : ∀ d ∈ draws, -1000 ≤ d ∧ d ≤ 1000) : (start market config draws).Sound config :=
  ⟨rfl, inRange, Int.le_of_lt sensible.price⟩

-- A run that leaves neither the range of decimals nor that of the prices. Once the price is zero,
-- not even that has to be asked for.
theorem run_of_sensible {market : String} {draws : List Int} (sensible : config.Sensible)
    (inRange : ∀ d ∈ draws, -1000 ≤ d ∧ d ≤ 1000) (low : config.initialPrice.value < 10 ^ 20)
    (ran : (start market config draws).run clocks = .ok calls)
    (stays : ∀ c ∈ calls, c.after.price.value < 10 ^ 20) :
    (∀ c ∈ calls, c.Fair config) ∧
    (calls.length = clocks.length ∧ ∃ last,
      calls.map (·.before) ++ [last] = start market config draws :: calls.map (·.after) ∧
      (List.replicate (calls.countP (·.answer.isOk)) config.incentivePerPulse).foldlM Decimal.add
        .zero = .ok last.inventory.incentives) ∧
    (calls.Pairwise fun c d => c.after.price ≈ .zero → d.Fell) ∧
    ∀ c ∈ calls, c.after.price ≈ .zero → ∀ later, ∃ more,
      c.after.run later = .ok more ∧ more.length = later.length ∧ ∀ d ∈ more, d.Fell := by
  have kept := run_sound sensible (start_sound market sensible inRange) low ran stays
  have fair (c : Call) (here : c ∈ calls) : c.Fair config := (kept c here).1
  have sound (c : Call) (here : c ∈ calls) : c.after.Sound config := (kept c here).2
  exact ⟨fair, run_accrues fair ran, run_absorbed sensible ran sound,
    fun c here zero later => (sound c here).run_of_zero sensible zero later⟩

theorem run_of_sensible_crash :
    let config : PaperConfig := { volatility := .one, incentivePerPulse := .ofWord 25 2 }
    let w := start "SOL/USDC" config [500, -1000, 300]
    let high := { w.movedTo (.ofWord 150000 3) with inventory.incentives := .ofWord 25 2 }
    let low := high.movedTo .zero
    let book := ⟨.ofWord 1499250000 7, .ofWord 1500750000 7, .ofWord 1500000000 7⟩
    let calls : List Call := [
      ⟨w, .ok ⟨"SOL/USDC", some book, high.inventory, .epoch⟩, high⟩,
      ⟨high, .error (.invalidState "simulated price fell to 0"), low⟩,
      ⟨low, .error (.invalidState "simulated price fell to 0"), low.movedTo .zero⟩]
    w.run [.ok .epoch, .ok .epoch, .ok .epoch] = .ok calls ∧
      (∀ c ∈ calls, c.Fair config) ∧
      (∃ last, calls.map (·.before) ++ [last] = w :: calls.map (·.after) ∧
        [.ofWord 25 2].foldlM Decimal.add .zero = .ok last.inventory.incentives) ∧
      (calls.Pairwise fun c d => c.after.price ≈ .zero → d.Fell) ∧
      ∀ later, ∃ more,
        low.run later = .ok more ∧ more.length = later.length ∧ ∀ d ∈ more, d.Fell := by
  intro config w high low book calls
  have sensible : config.Sensible := ⟨by decide, by decide, by decide⟩
  have ran : w.run [.ok .epoch, .ok .epoch, .ok .epoch] = .ok calls := by decide +kernel
  have cheap (d : Decimal) (small : d < .ofWord 1000 0) : d.value < 10 ^ 20 := by
    have thousand : (Decimal.ofWord 1000 0).value = ((1000 : Int) : ℚ) / 10 ^ 0 := rfl
    refine (lt_iff.mp small).trans ?_
    rw [thousand]
    norm_num
  have small : ∀ c ∈ calls, c.after.price < .ofWord 1000 0 := by decide +kernel
  obtain ⟨fair, ⟨-, total⟩, absorbed, forever⟩ := run_of_sensible sensible (by decide)
    (cheap _ (by decide)) ran fun c here => cheap _ (small c here)
  have bottom : ⟨high, _, low⟩ ∈ calls := .tail _ (.head _)
  exact ⟨ran, fair, total, absorbed, forever _ bottom (by decide)⟩

end Runs

end RandomWalk
end MarketMaking
