import MarketMaking.Proofs.Rational

/-! How far a quotient can be off: half a unit of its last place, so at most a half
(`Decimal.div_near`). Floors and ceilings of quotients inherit the order of the dividends from that
(`Decimal.floor_le_ceil`). -/

namespace MarketMaking
namespace Decimal
namespace Quotient
variable {x : ℚ} {divisor q rest : Nat} {scale : Int} {inexact : Bool} {out : Quotient}

structure Near (x : ℚ) (out : Quotient) : Prop where
  scale_nonneg : 0 ≤ out.scale
  near : |(out.digits : ℚ) - x * 10 ^ out.scale| ≤ 1 / 2

structure Splits (x : ℚ) (divisor q rest : Nat) (scale : Int) : Prop where
  left : rest < divisor
  total : (q : ℚ) + rest / divisor = x * 10 ^ scale

theorem Splits.fraction (splits : Splits x divisor q rest scale) :
    0 ≤ (rest : ℚ) / divisor ∧ (rest : ℚ) / divisor < 1 := by
  have pos : (0 : ℚ) < divisor := by exact_mod_cast Nat.zero_lt_of_lt splits.left
  refine ⟨by positivity, (div_lt_one pos).mpr ?_⟩
  exact_mod_cast splits.left

theorem Splits.half_le (splits : Splits x divisor q rest scale) (half : divisor ≤ 2 * rest) :
    (1 : ℚ) / 2 ≤ rest / divisor := by
  have pos : (0 : ℚ) < divisor := by exact_mod_cast Nat.zero_lt_of_lt splits.left
  rw [div_le_div_iff₀ (by norm_num) pos]
  exact_mod_cast (by omega : 1 * divisor ≤ rest * 2)

theorem Near.of_tens (some : 1 ≤ scale) (near : |10 * (out.digits : ℚ) - x * 10 ^ scale| ≤ 5)
    (shorter : out.scale = scale - 1) : Near x out := by
  refine ⟨by omega, ?_⟩
  have unit : (10 : ℚ) ^ scale = 10 ^ out.scale * 10 := by
    rw [shorter, ← zpow_add_one₀ (by norm_num)]
    congr 1
    omega
  have tens : 10 * (out.digits : ℚ) - x * 10 ^ scale =
      10 * (out.digits - x * 10 ^ out.scale) := by
    rw [unit]; ring
  rw [tens, abs_mul, abs_of_pos (by norm_num)] at near
  linarith

-- A last digit of five is rounded down only if nothing is left of the dividend.
theorem shorten_digits (made : shorten divisor q rest scale = some out) :
    1 ≤ scale ∧ out.scale = scale - 1 ∧
      ((out.digits = q / 10 + 1 ∧ 5 ≤ q % 10) ∨
        (out.digits = q / 10 ∧ q % 10 ≤ 5 ∧ (q % 10 = 5 → rest = 0))) := by
  unfold shorten at made
  split at made
  · cases made
  · cases made
    refine ⟨by omega, rfl, ?_⟩
    simp only [Bool.or_eq_true, decide_eq_true_eq]
    split <;> omega

theorem shorten_near (splits : Splits x divisor q rest scale)
    (made : shorten divisor q rest scale = some out) : Near x out := by
  obtain ⟨some, shorter, digits⟩ := shorten_digits made
  obtain ⟨low, high⟩ := splits.fraction
  refine .of_tens some ?_ shorter
  rw [← splits.total, abs_le]
  have places : (q : ℚ) = 10 * (q / 10 : Nat) + (q % 10 : Nat) := by
    exact_mod_cast (Nat.div_add_mod q 10).symm
  rcases digits with ⟨up, least⟩ | ⟨down, most, tie⟩
  · have least : (5 : ℚ) ≤ (q % 10 : Nat) := by exact_mod_cast least
    have digit : ((q % 10 : Nat) : ℚ) ≤ 9 := by exact_mod_cast (by omega : q % 10 ≤ 9)
    rw [up]
    push_cast
    constructor <;> linarith
  · rw [down]
    rcases Nat.lt_or_eq_of_le most with less | same
    · have most : ((q % 10 : Nat) : ℚ) ≤ 4 := by exact_mod_cast Nat.le_of_lt_succ less
      constructor <;> linarith
    · have five : ((q % 10 : Nat) : ℚ) = 5 := by exact_mod_cast same
      rw [tie same, Nat.cast_zero, zero_div]
      constructor <;> linarith

-- Rounding up the largest coefficient leaves one that ends in a six.
theorem shorten_limit_near (splits : Splits x divisor q rest scale) (fits : q < limit)
    (full : limit ≤ q + 1) (half : (1 : ℚ) / 2 ≤ rest / divisor)
    (made : shorten divisor (q + 1) rest scale = some out) : Near x out := by
  obtain ⟨some, shorter, digits⟩ := shorten_digits made
  obtain ⟨low, high⟩ := splits.fraction
  have most : q = 79228162514264337593543950335 := by
    unfold limit at fits full
    omega
  subst most
  refine .of_tens some ?_ shorter
  rw [← splits.total, abs_le]
  rcases digits with ⟨up, -⟩ | ⟨-, down, -⟩
  · rw [up]
    push_cast
    constructor <;> linarith
  · exact absurd down (by decide)

theorem settle_near (splits : Splits x divisor q rest scale) (fits : q < limit) (whole : 0 ≤ scale)
    (made : settle divisor q rest scale = some out) : Near x out := by
  have pos : (0 : ℚ) < divisor := by exact_mod_cast Nat.zero_lt_of_lt splits.left
  obtain ⟨low, high⟩ := splits.fraction
  unfold settle at made
  split at made
  · rename_i up
    have half := splits.half_le (by omega)
    split at made
    · exact shorten_limit_near splits fits ‹_› half made
    · cases made
      refine ⟨whole, ?_⟩
      rw [← splits.total, abs_le]
      push_cast
      constructor <;> linarith
  · rename_i down
    have half : (rest : ℚ) / divisor ≤ 1 / 2 := by
      rw [div_le_div_iff₀ pos (by norm_num)]
      exact_mod_cast (by omega : rest * 2 ≤ 1 * divisor)
    cases made
    refine ⟨whole, ?_⟩
    rw [← splits.total, abs_le]
    constructor <;> linarith

theorem whole_add_fraction (n : Nat) (pos : 0 < divisor) :
    ((n / divisor : Nat) : ℚ) + (n % divisor : Nat) / divisor = n / divisor := by
  have divides : (0 : ℚ) < divisor := by exact_mod_cast pos
  have parts : (n : ℚ) = divisor * (n / divisor : Nat) + (n % divisor : Nat) := by
    exact_mod_cast (Nat.div_add_mod n divisor).symm
  rw [eq_div_iff divides.ne', add_mul, div_mul_cancel₀ _ divides.ne', mul_comm]
  exact parts.symm

theorem Splits.start (n : Nat) (pos : 0 < divisor) (scale : Int) :
    Splits ((n : ℚ) / divisor / 10 ^ scale) divisor (n / divisor) (n % divisor) scale := by
  refine ⟨Nat.mod_lt n pos, ?_⟩
  rw [whole_add_fraction n pos, div_mul_cancel₀ _ (by positivity)]

theorem Splits.grow (splits : Splits x divisor q rest scale) (step : Nat) :
    Splits x divisor (q * tenTo step + rest * tenTo step / divisor)
      (rest * tenTo step % divisor) (scale + step) := by
  have pos := Nat.zero_lt_of_lt splits.left
  have whole := whole_add_fraction (rest * tenTo step) pos
  refine ⟨Nat.mod_lt _ pos, ?_⟩
  rw [zpow_add₀ (by norm_num), zpow_natCast, ← mul_assoc, ← splits.total, ← tenTo_cast]
  push_cast at whole ⊢
  rw [add_assoc, whole]
  ring

theorem Splits.shift (splits : Splits x divisor q 0 scale) (step : Nat) :
    Splits x divisor (q * tenTo step) 0 (scale + step) := by
  simpa using splits.grow step

theorem develop_near (splits : Splits x divisor q rest scale) (fits : q < limit)
    (made : develop divisor q rest scale inexact = some out) : Near x out := by
  fun_induction develop divisor q rest scale inexact with
  | case1 q scale inexact whole =>
    cases made
    refine ⟨whole, ?_⟩
    rw [← splits.total]
    norm_num
  | case2 => cases made
  | case3 q scale inexact _ step _ room ih =>
    exact ih (splits.shift step) (Nat.lt_of_not_le room) made
  | case4 => cases made
  | case5 q rest scale _ _ step rounds still =>
    apply settle_near splits fits _ made
    omega
  | case6 q rest scale _ _ step => exact shorten_near (splits.grow step) made
  | case7 q rest scale _ _ step _ _ _ _ room ih =>
    exact ih (splits.grow step) (Nat.lt_of_not_le room) made

end Quotient

def Trims (long short : Nat × Nat) : Prop :=
  ∃ k, long.1 = short.1 * tenTo k ∧ long.2 = short.2 + k

theorem Trims.refl (long : Nat × Nat) : Trims long long := ⟨0, by simp [tenTo_zero], rfl⟩

theorem Trims.trans {long middle short : Nat × Nat} (one : Trims long middle)
    (two : Trims middle short) : Trims long short := by
  obtain ⟨j, digits, scale⟩ := one
  obtain ⟨k, digits', scale'⟩ := two
  refine ⟨k + j, ?_, by omega⟩
  rw [digits, digits', Nat.mul_assoc]
  simp only [tenTo, Nat.pow_eq, Nat.pow_add]

theorem trims_stripZeros (n low : Nat) (p : Nat × Nat) : Trims p (stripZeros n low p) := by
  obtain ⟨q, scale⟩ := p
  simp only [stripZeros]
  split
  · rename_i zeros
    exact ⟨n, (Nat.div_mul_cancel (Nat.dvd_of_mod_eq_zero zeros.2.2)).symm,
      (Nat.sub_add_cancel zeros.2.1).symm⟩
  · exact .refl _

theorem trims_trimZeros (q scale : Nat) : Trims (q, scale) (trimZeros q scale) := by
  unfold trimZeros
  apply Trims.trans _ (trims_stripZeros 1 1 _)
  apply Trims.trans _ (trims_stripZeros 2 1 _)
  apply Trims.trans _ (trims_stripZeros 4 1 _)
  apply Trims.trans _ (trims_stripZeros 8 UInt32.size _)
  apply Trims.trans _ (trims_stripZeros 8 UInt32.size _)
  exact trims_stripZeros 8 UInt32.size _

theorem Trims.value {long short : Nat × Nat} (trims : Trims long short) :
    (long.1 : ℚ) / 10 ^ long.2 = short.1 / 10 ^ short.2 := by
  obtain ⟨k, digits, scale⟩ := trims
  rw [digits, scale, pow_add]
  push_cast
  rw [tenTo_cast, mul_div_mul_right _ _ (by positivity)]

variable {a b d : Decimal}

theorem value_ofScaled? {c : Int} {scale : Nat} (made : ofScaled? c scale = some d) :
    d.value = c / 10 ^ scale := by
  unfold ofScaled? at made
  split at made
  · cases made
    rfl
  · cases made

theorem Quotient.value_toDecimal? {q : Quotient} {negative : Bool}
    (made : q.toDecimal? negative = some d) :
    d.value = (if negative then -1 else 1) * (q.digits / 10 ^ q.scale.toNat) := by
  have signed (n : Nat) : ((if negative then -(n : Int) else n : Int) : ℚ) =
      (if negative then -1 else 1) * n := by
    split <;> push_cast <;> ring
  unfold toDecimal? at made
  split at made
  rename_i digits scale parts
  have trims : Trims (q.digits, q.scale.toNat) (digits, scale) := by
    split at parts
    · exact parts ▸ trims_trimZeros _ _
    · exact parts ▸ .refl _
  rw [value_ofScaled? made, signed, trims.value]
  ring

theorem intCast_div (a b : Int) :
    (a : ℚ) / b = (if decide (a < 0) != decide (b < 0) then -1 else 1) *
      ((a.natAbs : ℚ) / b.natAbs) := by
  rcases lt_or_ge a 0 with low | high <;> rcases lt_or_ge b 0 with low' | high'
  · simp [low, low', Nat.cast_natAbs, abs_of_neg]
  · simp [low, high', not_lt_of_ge, Nat.cast_natAbs, abs_of_neg, abs_of_nonneg, neg_div]
  · simp [high, low', not_lt_of_ge, Nat.cast_natAbs, abs_of_neg, abs_of_nonneg, div_neg]
  · simp [high, high', not_lt_of_ge, Nat.cast_natAbs, abs_of_nonneg]

theorem value_div_value (a b : Decimal) :
    a.value / b.value = a.coefficient / b.coefficient / 10 ^ ((a.scale : Int) - b.scale) := by
  rw [value, value, zpow_sub₀ (by norm_num), zpow_natCast, zpow_natCast]
  field_simp

theorem abs_signed_sub (negative : Bool) (y z : ℚ) :
    |(if negative then -1 else 1) * y - (if negative then -1 else 1) * z| = |y - z| := by
  cases negative with
  | false => simp
  | true => rw [← mul_sub, abs_mul]; simp

theorem Quotient.Near.unit {x : ℚ} {q : Quotient} (near : q.Near x) :
    (10 : ℚ) ^ q.scale = 10 ^ q.scale.toNat := by
  rw [← zpow_natCast, Int.toNat_of_nonneg near.scale_nonneg]

theorem Quotient.Near.places {x : ℚ} {q : Quotient} (near : q.Near x) :
    |(q.digits : ℚ) - x * 10 ^ q.scale.toNat| ≤ 1 / 2 :=
  near.unit ▸ near.near

theorem Quotient.Near.value {x : ℚ} {q : Quotient} (near : q.Near x) :
    |(q.digits : ℚ) / 10 ^ q.scale.toNat - x| ≤ 1 / 2 := by
  have unit : (1 : ℚ) ≤ 10 ^ q.scale.toNat := one_le_pow₀ (by norm_num)
  have close := near.places
  have scaled : (q.digits : ℚ) / 10 ^ q.scale.toNat - x =
      (q.digits - x * 10 ^ q.scale.toNat) / 10 ^ q.scale.toNat := by
    field_simp
  have pos : (0 : ℚ) < 10 ^ q.scale.toNat := by positivity
  rw [scaled, abs_div, abs_of_pos pos, div_le_iff₀ pos]
  linarith

theorem div_near (through : a.div b = .ok d) : |d.value - a.value / b.value| ≤ 1 / 2 := by
  unfold div at through
  split at through
  · cases through
  rename_i divisor
  split at through
  · rename_i nothing
    cases through
    simp [value, nothing]
  · obtain ⟨q, developed, made⟩ := Option.bind_eq_some_iff.mp (Checked.of_ofOption through)
    have pos : 0 < b.coefficient.natAbs := by omega
    have splits := Quotient.Splits.start a.coefficient.natAbs pos ((a.scale : Int) - b.scale)
    have fits := Nat.lt_of_le_of_lt (Nat.div_le_self _ b.coefficient.natAbs) a.coefficient_lt
    have near := (Quotient.develop_near splits fits developed).value
    rw [q.value_toDecimal? made, value_div_value, intCast_div, mul_div_assoc, abs_signed_sub]
    exact near

theorem value_pos_iff : 0 < a.value ↔ 0 < a.coefficient := by
  rw [value, div_pos_iff_of_pos_right (by positivity)]
  exact Int.cast_pos

theorem value_nonneg_iff : 0 ≤ a.value ↔ 0 ≤ a.coefficient := by
  rw [value, le_div_iff₀ (by positivity), zero_mul]
  exact Int.cast_nonneg_iff

theorem div_nonneg (left : 0 ≤ a.coefficient) (right : 0 ≤ b.coefficient)
    (through : a.div b = .ok d) : 0 ≤ d.coefficient := by
  unfold div at through
  split at through
  · cases through
  · split at through
    · cases through; exact le_refl 0
    · obtain ⟨q, -, made⟩ := Option.bind_eq_some_iff.mp (Checked.of_ofOption through)
      have value := q.value_toDecimal? made
      rw [decide_eq_false (Int.not_lt.mpr left), decide_eq_false (Int.not_lt.mpr right)] at value
      rw [← value_nonneg_iff, value]
      simp only [bne_self_eq_false, Bool.false_eq_true, if_false]
      positivity

theorem pos_of_floor_pos (pos : 0 < b.coefficient) (through : a.div b = .ok d)
    (some : 0 < d.floor.coefficient) : 0 < a.coefficient := by
  rw [coefficient_floor] at some
  have one : (1 : ℚ) ≤ ⌊d.value⌋ := by exact_mod_cast some
  have below := Int.floor_le d.value
  have near := abs_le.mp (div_near through)
  have quotient : 0 < a.value / b.value := by linarith [near.2]
  rw [div_pos_iff_of_pos_right (value_pos_iff.mpr pos)] at quotient
  exact value_pos_iff.mp quotient

theorem floor_le_ceil {a' d' : Decimal} (pos : 0 < b.coefficient) (less : a < a')
    (through : a.div b = .ok d) (through' : a'.div b = .ok d') :
    d.floor.coefficient ≤ d'.ceil.coefficient := by
  rw [coefficient_floor, coefficient_ceil]
  by_contra crossed
  have apart : (⌈d'.value⌉ : ℚ) + 1 ≤ ⌊d.value⌋ := by
    exact_mod_cast Int.add_one_le_of_lt (Int.lt_of_not_ge crossed)
  have below := Int.floor_le d.value
  have above := Int.le_ceil d'.value
  have near := abs_le.mp (div_near through)
  have near' := abs_le.mp (div_near through')
  have quotients : a.value / b.value < a'.value / b.value :=
    div_lt_div_of_pos_right (lt_iff.mp less) (value_pos_iff.mpr pos)
  linarith [near.2, near'.1]

end Decimal
end MarketMaking
