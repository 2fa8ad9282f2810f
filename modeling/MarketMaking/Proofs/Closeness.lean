import MarketMaking.Reconciliation

/-! What a checked computation that got through has gone through (`Checked.of_bind`), and from
there: equal orders are equivalent, whatever the tolerance, unless a product leaves its range. -/

namespace MarketMaking

theorem Checked.of_ofOption {cause : Overflow} {x : Option α}
    (through : Checked.ofOption cause x = .ok a) : x = some a := by
  cases x with
  | none => cases through
  | some b => cases through; rfl

theorem Checked.of_bind {x : Checked α} {next : α → Checked β} (through : x >>= next = .ok b) :
    ∃ a, x = .ok a ∧ next a = .ok b := by
  cases x with
  | error o => cases through
  | ok a => exact ⟨a, rfl, through⟩

namespace Decimal
variable {a b d p : Decimal}

theorem dropDigits_nonneg {c : Int} (nonneg : 0 ≤ c) (k : Nat) : 0 ≤ dropDigits c k :=
  Int.mul_nonneg (Int.sign_nonneg_iff.mpr nonneg) (Int.natCast_nonneg _)

theorem keepPlaces_nonneg {c : Int} {scale places : Nat} {within : places ≤ 28} (nonneg : 0 ≤ c)
    (kept : keepPlaces c scale places within = some d) : 0 ≤ d.coefficient := by
  induction places with
  | zero =>
    simp only [keepPlaces] at kept
    split at kept
    · cases kept; exact dropDigits_nonneg nonneg _
    · cases kept
  | succ places ih =>
    simp only [keepPlaces] at kept
    split at kept
    · cases kept; exact dropDigits_nonneg nonneg _
    · exact ih kept

theorem mul_nonneg (left : 0 ≤ a.coefficient) (right : 0 ≤ b.coefficient)
    (through : a.mul b = .ok p) : 0 ≤ p.coefficient := by
  unfold mul at through
  split at through
  · cases through; exact Int.le_refl 0
  · unfold ofExact? at through
    cases kept : keepPlaces (a.coefficient * b.coefficient) (a.scale + b.scale)
        (min (a.scale + b.scale) 28) (min_scale_le _) with
    | none => rw [kept] at through; cases through
    | some d =>
      rw [kept] at through
      cases through
      exact keepPlaces_nonneg (Int.mul_nonneg left right) kept

theorem keepPlaces_zero (scale places : Nat) (within : places ≤ 28) :
    ∃ d, keepPlaces 0 scale places within = some d ∧ d.coefficient = 0 := by
  cases places <;> simp [keepPlaces, dropDigits]

theorem sub_self (a : Decimal) : ∃ d, a.sub a = .ok d ∧ d.coefficient = 0 := by
  by_cases zero : a.coefficient = 0
  · exact ⟨-a, by simp [sub, zero], (Int.neg_eq_zero).mpr zero⟩
  · obtain ⟨d, kept, nothing⟩ := keepPlaces_zero a.scale (min a.scale 28) (min_scale_le _)
    refine ⟨d, ?_, nothing⟩
    simp [sub, zero, ofExact?, kept, Checked.ofOption]

theorem abs_nonneg (a : Decimal) : 0 ≤ a.abs.coefficient := Int.natCast_nonneg _

end Decimal

namespace Reconciliation

theorem within_self {tolerance value : Decimal} (nonneg : 0 ≤ tolerance.coefficient)
    (through : within tolerance value value = .ok close) : close = true := by
  obtain ⟨distance, none, nothing⟩ := value.sub_self
  simp only [within, none, bind, Except.bind, pure, Except.pure] at through
  cases allowed : tolerance.mul value.abs with
  | error o => simp [allowed] at through
  | ok a =>
    simp only [allowed, Except.ok.injEq] at through
    have room := Decimal.mul_nonneg nonneg value.abs_nonneg allowed
    rw [← through, decide_eq_true_eq, Decimal.le_def]
    simp only [Decimal.abs, nothing, Int.natAbs_zero, Int.natCast_zero, Int.zero_mul]
    exact Int.mul_nonneg room (Int.natCast_nonneg _)

theorem equivalent_of_eq {tolerance : Decimal} {o d : Order} (nonneg : 0 ≤ tolerance.coefficient)
    (side : o.side = d.side) (price : o.price = d.price) (quantity : o.quantity = d.quantity)
    (through : equivalent tolerance o d = .ok close) : close = true := by
  simp only [equivalent, side, price, quantity, ne_eq, not_true_eq_false, if_false, bind,
    Except.bind, pure, Except.pure] at through
  cases priced : within tolerance d.price d.price with
  | error e => simp [priced] at through
  | ok near =>
    cases within_self nonneg priced
    simp only [priced, Bool.not_true, Bool.false_eq_true, if_false] at through
    exact within_self nonneg through

end Reconciliation
end MarketMaking
