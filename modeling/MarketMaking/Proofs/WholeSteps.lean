import MarketMaking.Proofs.Nearest
import MarketMaking.Proofs.QuotingChain

/-! Prices in whole ticks and quantities in whole lots. A quotient is rounded before its floor or
its ceiling is taken, so it can be rounded over the whole number next to it, unless both numbers are
short (`Decimal.div_apart`). -/

namespace MarketMaking
namespace Decimal
variable {a b d : Decimal} {x : ℚ}

theorem div_mul_aligned (pos : 0 < b.coefficient) :
    a.value / b.value * (b.coefficient * tenTo (max a.scale b.scale - b.scale) : Int) =
      (a.coefficient * tenTo (max a.scale b.scale - a.scale) : Int) := by
  rw [aligned (le_max_left a.scale b.scale), aligned (le_max_right a.scale b.scale), ← mul_assoc,
    div_mul_cancel₀ _ (value_pos_iff.mpr pos).ne']

def Short (a b : Decimal) : Prop :=
  a.coefficient * tenTo (max a.scale b.scale - a.scale) ≤ 10 ^ 28 ∧
    b.coefficient * tenTo (max a.scale b.scale - b.scale) ≤ 10 ^ 28

theorem one_le_gap {x : ℚ} {m k n : ℤ} (pos : 0 < k) (ratio : x * k = m) (other : (n : ℚ) ≠ x) :
    1 ≤ |(n : ℚ) - x| * k := by
  have divisor : (0 : ℚ) < k := by exact_mod_cast pos
  have apart : ((n : ℚ) - x) * k = ((n * k - m : ℤ) : ℚ) := by
    rw [sub_mul, ratio]
    push_cast
    rfl
  have some : n * k - m ≠ 0 := by
    intro none
    rw [none, Int.cast_zero] at apart
    exact other (sub_eq_zero.mp ((mul_eq_zero.mp apart).resolve_right divisor.ne'))
  calc (1 : ℚ) ≤ |((n * k - m : ℤ) : ℚ)| := by exact_mod_cast Int.one_le_abs some
    _ = |(n : ℚ) - x| * k := by rw [← apart, abs_mul, abs_of_pos divisor]

theorem Nearest.apart {places : Nat} {m k n : ℤ} (nearest : Nearest x places d) (nonneg : 0 ≤ x)
    (pos : 0 < k) (ratio : x * k = m) (few : m ≤ 10 ^ 28) (few' : k ≤ 10 ^ 28)
    (other : (n : ℚ) ≠ x) : |d.value - x| < |(n : ℚ) - x| := by
  by_contra reached
  have unit : (0 : ℚ) < 10 ^ places := by positivity
  have divisor : (0 : ℚ) < k := by exact_mod_cast pos
  have few : (m : ℚ) ≤ 10 ^ 28 := by exact_mod_cast few
  have few' : (k : ℚ) ≤ 10 ^ 28 := by exact_mod_cast few'
  -- To reach the whole number, the last place of the quotient would have to be a coarse one.
  have coarse : (2 : ℚ) * 10 ^ places ≤ k := by
    have gap := one_le_gap pos ratio other
    have half : |(n : ℚ) - x| * 10 ^ places ≤ 1 / 2 :=
      (mul_le_mul_of_nonneg_right (le_of_not_gt reached) unit.le).trans nearest.scaled
    have least := mul_le_mul_of_nonneg_right gap unit.le
    have most := mul_le_mul_of_nonneg_right half divisor.le
    linarith
  rcases nearest.full with exact | last | full
  · exact reached (by simpa [exact, sub_eq_zero] using other)
  · have many : (10 : ℚ) ^ 28 ≤ 10 ^ places := pow_le_pow_right₀ (by norm_num) last
    linarith
  · have shifted := mul_le_mul_of_nonneg_left coarse nonneg
    have room : (5 : ℚ) * 10 ^ 28 < brim := by norm_num [brim, largest]
    rw [abs_of_nonneg nonneg, pow_succ] at full
    linarith

theorem div_apart (pos : 0 < a.coefficient) (pos' : 0 < b.coefficient) (short : Short a b)
    (through : a.div b = .ok d) {n : ℤ} (other : (n : ℚ) ≠ a.value / b.value) :
    |d.value - a.value / b.value| < |(n : ℚ) - a.value / b.value| := by
  obtain ⟨places, nearest⟩ := div_rounds through
  have some := div_pos (value_pos_iff.mpr pos) (value_pos_iff.mpr pos')
  have unit : (0 : Int) < tenTo (max a.scale b.scale - b.scale) := by exact_mod_cast tenTo_pos _
  exact nearest.apart some.le (mul_pos pos' unit) (div_mul_aligned pos') short.1 short.2 other

theorem mul_whole {k step : Decimal} (whole : k.scale = 0) (nonneg : 0 ≤ k.coefficient)
    (pos : 0 < step.coefficient) (through : k.mul step = .ok d) :
    |d.value - k.coefficient * step.value| ≤ 1 / 2 / 10 ^ d.scale ∧
      (k.coefficient * step.coefficient < limit → d.value = k.coefficient * step.value) := by
  have exact : (k.coefficient : ℚ) * step.value =
      (k.coefficient * step.coefficient : Int) / 10 ^ step.scale := by
    rw [value]
    push_cast
    ring
  rw [exact]
  unfold mul at through
  split at through
  · rename_i none
    have unseen : ¬ vanishes k step := fun tiny => by
      have places := step.scale_le
      have many := tiny.2.2
      omega
    have zero : k.coefficient = 0 := by
      rcases none with zero | zero | tiny
      · exact zero
      · exact absurd zero pos.ne'
      · exact absurd tiny unseen
    cases through
    simp [zero, value]
  · have kept := keepPlaces_kept (Checked.of_ofOption through)
    rw [whole, Nat.zero_add, Nat.min_eq_left step.scale_le] at kept
    have product := Int.mul_nonneg nonneg pos.le
    exact ⟨kept.near (Nat.le_refl _), fun fits => kept.exact (by omega)⟩

end Decimal

inductive Direction where
  | down
  | up

namespace Direction
variable {x y s : ℚ}

def whole : Direction → ℚ → ℤ
  | .down, x => ⌊x⌋
  | .up, x => ⌈x⌉

def round : Direction → Decimal → Decimal
  | .down, a => a.floor
  | .up, a => a.ceil

def Leads : Direction → ℚ → ℚ → Prop
  | .down, x, y => y ≤ x
  | .up, x, y => x ≤ y

theorem coefficient_round (towards : Direction) (a : Decimal) :
    (towards.round a).coefficient = towards.whole a.value := by
  cases towards with
  | down => exact a.coefficient_floor
  | up => exact a.coefficient_ceil

theorem scale_round (towards : Direction) (a : Decimal) : (towards.round a).scale = 0 := by
  cases towards <;> rfl

theorem whole_nonneg (towards : Direction) (nonneg : 0 ≤ x) : 0 ≤ towards.whole x := by
  cases towards with
  | down => exact Int.floor_nonneg.mpr nonneg
  | up => exact Int.ceil_nonneg nonneg

theorem whole_near (towards : Direction)
    (side : ∀ n : ℤ, ((n : ℚ) ≤ x → (n : ℚ) ≤ y) ∧ (x ≤ n → y ≤ n)) :
    |(towards.whole y : ℚ) - x| < 1 := by
  have least : ⌊x⌋ ≤ ⌊y⌋ := Int.le_floor.mpr ((side _).1 (Int.floor_le x))
  have most : ⌈y⌉ ≤ ⌈x⌉ := Int.ceil_le.mpr ((side _).2 (Int.le_ceil x))
  have between := Int.floor_le_ceil y
  have low := Int.sub_one_lt_floor x
  have high := Int.ceil_lt_add_one x
  have low' : ((⌊x⌋ : ℤ) : ℚ) ≤ towards.whole y := by
    exact_mod_cast (by cases towards <;> simp only [whole] <;> omega : ⌊x⌋ ≤ towards.whole y)
  have high' : ((towards.whole y : ℤ) : ℚ) ≤ ⌈x⌉ := by
    exact_mod_cast (by cases towards <;> simp only [whole] <;> omega : towards.whole y ≤ ⌈x⌉)
  rw [abs_lt]
  constructor <;> linarith

theorem leads_mul (towards : Direction) (pos : 0 < s) :
    towards.Leads (x * s) (y * s) ↔ towards.Leads x y := by
  cases towards <;> exact mul_le_mul_iff_of_pos_right pos

-- What is nearer than any other whole number is not rounded over one.
theorem leads_whole (towards : Direction)
    (apart : ∀ n : ℤ, (n : ℚ) ≠ x → |y - x| < |(n : ℚ) - x|) :
    towards.Leads x (towards.whole y) := by
  cases towards with
  | down =>
    by_contra astray
    have beyond : x < ⌊y⌋ := lt_of_not_ge astray
    have nearer := apart ⌊y⌋ beyond.ne'
    have below := Int.floor_le y
    rw [abs_of_pos (by linarith), abs_of_pos (by linarith)] at nearer
    linarith
  | up =>
    by_contra astray
    have beyond : (⌈y⌉ : ℚ) < x := lt_of_not_ge astray
    have nearer := apart ⌈y⌉ beyond.ne
    have above := Int.le_ceil y
    rw [abs_of_neg (by linarith), abs_of_neg (by linarith)] at nearer
    linarith

end Direction

namespace Decimal
variable {towards : Direction} {step amount quotient d : Decimal}

structure OnSteps (towards : Direction) (step amount d : Decimal) : Prop where
  whole : ∃ k : ℤ, d.value = k * step.value
  leads : towards.Leads amount.value d.value
  close : |d.value - amount.value| < step.value

-- What becomes of an amount that is brought to whole steps. Only a quotient that was rounded over
-- a whole number, or a product that has more digits than there is room for, leads it astray.
structure Stepped (towards : Direction) (step amount quotient d : Decimal) : Prop where
  divided : amount.div step = .ok quotient
  near : |towards.whole quotient.value * step.value - amount.value| < step.value
  product : |d.value - towards.whole quotient.value * step.value| ≤ 1 / 2 / 10 ^ d.scale
  leads : towards.whole quotient.value * step.coefficient < limit →
    (OnSteps towards step amount d ↔
      towards.Leads (amount.value / step.value) (towards.whole quotient.value))
  short : Short amount step → OnSteps towards step amount d

theorem fits_of_short {k : ℤ} (pos' : 0 < step.coefficient) (short : Short amount step)
    (near : |(k : ℚ) - amount.value / step.value| < 1) :
    k * step.coefficient < limit := by
  have ratio := div_mul_aligned (a := amount) pos'
  obtain ⟨few, few'⟩ := short
  have wider : step.coefficient ≤
      step.coefficient * tenTo (max amount.scale step.scale - step.scale) :=
    le_mul_of_one_le_right pos'.le (by exact_mod_cast tenTo_pos _)
  generalize step.coefficient * tenTo (max amount.scale step.scale - step.scale) = divisor at *
  generalize amount.coefficient * tenTo (max amount.scale step.scale - amount.scale) = dividend at *
  have some : (0 : ℚ) < divisor := by exact_mod_cast pos'.trans_le wider
  have less : (k * divisor : ℤ) < dividend + divisor := by
    have scaled := mul_lt_mul_of_pos_right (sub_lt_iff_lt_add'.mp (abs_lt.mp near).2) some
    rw [add_mul, ratio, one_mul] at scaled
    exact_mod_cast scaled
  have room : (2 : Int) * 10 ^ 28 < limit := by decide
  rcases le_or_gt 0 k with nonneg | negative
  · have most := Int.mul_le_mul_of_nonneg_left wider nonneg
    omega
  · have below := mul_neg_of_neg_of_pos negative pos'
    omega

theorem stepped (towards : Direction) (pos : 0 < amount.coefficient)
    (pos' : 0 < step.coefficient) (divided : amount.div step = .ok quotient)
    (through : (towards.round quotient).mul step = .ok d) :
    Stepped towards step amount quotient d := by
  have unit : 0 < step.value := value_pos_iff.mpr pos'
  have amount_eq : amount.value = amount.value / step.value * step.value :=
    (div_mul_cancel₀ _ unit.ne').symm
  have nonneg : 0 ≤ quotient.value := value_nonneg_iff.mpr (div_nonneg pos.le pos'.le divided)
  have close := towards.whole_near (div_rounds divided).side_intCast
  have product := mul_whole (towards.scale_round quotient)
    (towards.coefficient_round quotient ▸ towards.whole_nonneg nonneg) pos' through
  rw [towards.coefficient_round] at product
  have near : |towards.whole quotient.value * step.value - amount.value| < step.value := by
    rw [amount_eq, ← sub_mul, abs_mul, abs_of_pos unit]
    exact mul_lt_of_lt_one_left unit close
  have leads (fits : towards.whole quotient.value * step.coefficient < limit) :
      OnSteps towards step amount d ↔
        towards.Leads (amount.value / step.value) (towards.whole quotient.value) := by
    have exact := product.2 fits
    rw [← towards.leads_mul unit, ← amount_eq, ← exact]
    exact ⟨fun on => on.leads, fun leads => ⟨⟨_, exact⟩, leads, exact ▸ near⟩⟩
  refine ⟨divided, near, product.1, leads, fun short => ?_⟩
  exact (leads (fits_of_short pos' short close)).mpr
    (towards.leads_whole fun n other => div_apart pos pos' short divided other)

end Decimal

def Direction.away : Side → Direction
  | .buy => .down
  | .sell => .up

theorem Checked.forall₂_of_mapM {f : α → Checked β} {inputs : List α} {outputs : List β}
    (through : inputs.mapM f = .ok outputs) :
    List.Forall₂ (fun a b => f a = .ok b) inputs outputs := by
  induction inputs generalizing outputs with
  | nil => cases through; exact .nil
  | cons a rest ih =>
    rw [List.mapM_cons] at through
    obtain ⟨b, one, through⟩ := Checked.of_bind through
    obtain ⟨others, later, through⟩ := Checked.of_bind through
    cases through
    exact .cons one (ih later)

namespace Rounding
open Decimal
variable {r : Rounding} {o p : Order} {orders : List Order} {q : Quote}

theorem price_stepped {price : Decimal} (tick : .zero < r.tickSize) (pos : .zero < o.price)
    (through : r.price o = .ok price) :
    ∃ ticks, Stepped (.away o.side) r.tickSize o.price ticks price := by
  obtain ⟨ticks, divided, through⟩ := price_of_tick (Decimal.not_le.mpr tick) through
  refine ⟨ticks, stepped _ (pos_iff.mp pos) (pos_iff.mp tick) divided ?_⟩
  cases side : o.side <;> rw [side] at through <;> exact through

theorem quantity_stepped {quantity : Decimal} (lot : .zero < r.lotSize) (pos : .zero < o.quantity)
    (through : r.quantity o = .ok quantity) :
    ∃ lots, Stepped .down r.lotSize o.quantity lots quantity := by
  unfold Rounding.quantity at through
  simp only [Decimal.not_le.mpr lot, if_false] at through
  obtain ⟨lots, divided, through⟩ := Checked.of_bind through
  exact ⟨lots, stepped .down (pos_iff.mp pos) (pos_iff.mp lot) divided through⟩

structure Brings (r : Rounding) (o p : Order) : Prop where
  same : p = { o with price := p.price, quantity := p.quantity }
  price : ∃ ticks, Stepped (.away o.side) r.tickSize o.price ticks p.price
  quantity : ∃ lots, Stepped .down r.lotSize o.quantity lots p.quantity

theorem round_brings (tick : .zero < r.tickSize) (lot : .zero < r.lotSize)
    (positive : .zero < o.price ∧ .zero < o.quantity) (through : r.round o = .ok p) :
    r.Brings o p := by
  obtain ⟨price, quantity, priced, sized, rfl⟩ := of_round through
  exact ⟨rfl, price_stepped tick positive.1 priced, quantity_stepped lot positive.2 sized⟩

theorem process_brings (tick : .zero < r.tickSize) (lot : .zero < r.lotSize)
    (positive : ∀ o ∈ orders, .zero < o.price ∧ .zero < o.quantity)
    (through : r.process (.live orders) = .ok q) :
    ∃ rounded, List.Forall₂ r.Brings orders rounded ∧
      q = .live (rounded.filter fun p => .zero < p.quantity && .zero < p.price) := by
  unfold process at through
  cases all : r.roundAll orders with
  | error e => simp only [all] at through; cases through
  | ok kept =>
    simp only [all] at through
    cases through
    obtain ⟨rounded, each, all⟩ := Checked.of_bind all
    cases all
    have brings := (List.forall₂_and_left _ _).mpr ⟨positive, Checked.forall₂_of_mapM each⟩
    exact ⟨rounded, brings.imp fun _ _ both => round_brings tick lot both.1 both.2, rfl⟩

def finely : Rounding := ⟨.ofWord 1 2, .ofWord 1 1⟩

def fineOrders : List Order :=
  [{ side := .buy, price := .ofWord 198049 4, quantity := .ofWord 507 2, orderType := .limit },
    { side := .sell, price := .ofWord 202011 4, quantity := .ofWord 7 2, orderType := .limit }]

def coarseOrders : List Order :=
  [{ side := .buy, price := .ofWord 1980 2, quantity := .ofWord 50 1, orderType := .limit }]

theorem process_brings_finely :
    finely.process (.live fineOrders) = .ok (.live coarseOrders) ∧
      ∃ rounded, List.Forall₂ finely.Brings fineOrders rounded ∧
        Quote.live coarseOrders =
          .live (rounded.filter fun p => .zero < p.quantity && .zero < p.price) := by
  have through : finely.process (.live fineOrders) = .ok (.live coarseOrders) := by decide +kernel
  exact ⟨through, process_brings (by decide) (by decide) (by decide) through⟩

def almostFour : Decimal where
  coefficient := 39999999999999999999999999999
  scale := 28

-- Half of it is rounded to two, so the price of a bid is raised to a multiple of the tick.
theorem bid_rounded_over :
    let r : Rounding := ⟨.two, .one⟩
    let o : Order := { side := .buy, price := almostFour, quantity := .one, orderType := .limit }
    .zero < r.tickSize ∧ .zero < r.lotSize ∧ .zero < o.price ∧ .zero < o.quantity ∧
      r.process (.live [o]) = .ok (.live [{ o with price := .ofWord 4 0 }]) ∧
      ¬ .ofWord 4 0 ≤ o.price := by
  decide +kernel

end Rounding
end MarketMaking
