import MarketMaking.Proofs.Greedy
import MarketMaking.Proofs.Headroom

/-! Reconciliation of orders without negative numbers, under a tolerance of at most one, never
leaves its range. The one step with no room of its own is the division by which a pair is scored; by
then the pair has passed the test. -/

namespace MarketMaking

structure Order.Ordinary (o : Order) : Prop where
  price : Decimal.zero ≤ o.price
  quantity : Decimal.zero ≤ o.quantity

instance (o : Order) : Decidable o.Ordinary :=
  decidable_of_iff (Decimal.zero ≤ o.price ∧ Decimal.zero ≤ o.quantity)
    ⟨fun h => ⟨h.1, h.2⟩, fun h => ⟨h.1, h.2⟩⟩

namespace Reconciliation
variable {tolerance value target : Decimal} {o d : Order}

-- The test of one number has an outcome. Where the number passes, it is no farther from the target
-- than the target is from zero, so the distance has a quotient by it, of one but for its rounding.
theorem within_of_nonneg (part : 0 ≤ tolerance.coefficient) (unit : tolerance ≤ .one)
    (left : Decimal.zero ≤ value) (right : Decimal.zero ≤ target) :
    ∃ near, within tolerance value target = .ok near ∧
      (near = true → ∃ r, relativeDistance value target = .ok r ∧ |r.value| ≤ 2) := by
  obtain ⟨distance, apart⟩ :=
    Decimal.sub_of_nonneg (Decimal.nonneg_iff.mp left) (Decimal.nonneg_iff.mp right)
  obtain ⟨allowed, product, room⟩ := Decimal.mul_of_part part unit target.abs_nonneg
  refine ⟨decide (distance.abs ≤ allowed), ?_, fun near => ?_⟩
  · simp only [within, apart, product, bind, Except.bind, pure, Except.pure]
  have close : distance.abs.value ≤ target.abs.value :=
    (Decimal.le_iff.mp (of_decide_eq_true near)).trans (Decimal.le_iff.mp room)
  by_cases zero : target.isZero
  · exact ⟨.zero, if_pos zero, by norm_num [Decimal.value]⟩
  have some : 0 < target.abs.coefficient := by
    have nonzero : target.coefficient ≠ 0 := by simpa [Decimal.isZero] using zero
    exact Int.natCast_pos.mpr (Int.natAbs_pos.mpr nonzero)
  obtain ⟨r, quotient⟩ := Decimal.div_some distance.abs_nonneg some (Decimal.le_iff.mpr close)
  have divided : relativeDistance value target = .ok r := by
    simp only [relativeDistance, zero, apart, quotient, bind, Except.bind, Bool.false_eq_true,
      if_false]
  refine ⟨r, divided, ?_⟩
  have exact : |distance.abs.value / target.abs.value| ≤ 1 := by
    rw [abs_div, Decimal.value_abs, Decimal.value_abs, abs_abs, abs_abs]
    rw [Decimal.value_abs, Decimal.value_abs] at close
    exact div_le_one_of_le₀ close (abs_nonneg _)
  have near := Decimal.div_near quotient
  rw [abs_le] at exact near ⊢
  constructor <;> linarith

theorem inRange_of_ordinary (part : 0 ≤ tolerance.coefficient) (unit : tolerance ≤ .one)
    (here : o.Ordinary) (wanted : d.Ordinary) : InRange tolerance o d := by
  obtain ⟨nearPrice, priced, ratio⟩ := within_of_nonneg part unit here.price wanted.price
  obtain ⟨nearSize, sized, ratio'⟩ := within_of_nonneg part unit here.quantity wanted.quantity
  have tested : equivalent tolerance o d =
      .ok (decide (o.side = d.side) && nearPrice && nearSize) := by
    by_cases side : o.side = d.side
    · cases nearPrice <;>
        simp [equivalent, side, priced, sized, bind, Except.bind, pure, Except.pure]
    · simp [equivalent, side, pure, Except.pure]
  refine ⟨_, tested, fun close => ?_⟩
  simp only [Bool.and_eq_true] at close
  obtain ⟨p, price, low⟩ := ratio close.1.2
  obtain ⟨q, quantity, low'⟩ := ratio' close.2
  have fits : |p.value + q.value| ≤ Decimal.largest := by
    have most : (4 : ℚ) ≤ Decimal.largest := by exact_mod_cast (by decide : 4 ≤ Decimal.largest)
    have sum := abs_add_le p.value q.value
    linarith
  obtain ⟨s, total⟩ := Decimal.add_some fits
  exact ⟨s, by simp only [score, price, quantity, total, bind, Except.bind]⟩

end Reconciliation

namespace Reconciler
open Reconciliation
variable {ratio : Decimal} {existing desired : List Order}

theorem plan_of_ordinary (unit : ratio.abs ≤ .one) (live : ∀ o ∈ existing, o.Ordinary)
    (wanted : ∀ d ∈ desired, d.Ordinary) :
    (∃ plan, (tolerance ratio).plan existing desired = .ok plan) ∧
      ∀ o ∈ existing, ∀ d ∈ desired, InRange ratio.abs o d := by
  have each : ∀ o ∈ existing, ∀ d ∈ desired, InRange ratio.abs o d := by
    intro o here d want
    exact inRange_of_ordinary ratio.abs_nonneg unit (live o here) (wanted d want)
  exact ⟨plan_of_inRange each, each⟩

-- The largest and the least numbers there are, the zeros of either kind, and a tolerance of one
-- that is written with all its places.
theorem plan_of_extremes :
    let most : Decimal := ⟨79228162514264337593543950335, 0, by decide, by decide, false, nofun⟩
    let least : Decimal := ⟨1, 28, by decide, by decide, false, nofun⟩
    let nothing : Decimal := ⟨0, 28, by decide, by decide, true, fun _ => rfl⟩
    let whole : Decimal := ⟨10000000000000000000000000000, 28, by decide, by decide, false, nofun⟩
    let orders : List Order := [⟨.buy, most, least, .limit, none, none⟩,
      ⟨.buy, least, most, .limit, none, none⟩, ⟨.buy, nothing, .zero, .limit, none, none⟩]
    whole.abs ≤ .one ∧ (∀ o ∈ orders, o.Ordinary) ∧
      (∃ plan, (tolerance whole).plan orders orders = .ok plan) ∧
        ∀ o ∈ orders, ∀ d ∈ orders, InRange whole.abs o d := by
  intro most least nothing whole orders
  have unit : whole.abs ≤ .one := by decide
  have ordinary : ∀ o ∈ orders, o.Ordinary := by decide
  exact ⟨unit, ordinary, plan_of_ordinary unit ordinary ordinary⟩

end Reconciler
end MarketMaking
