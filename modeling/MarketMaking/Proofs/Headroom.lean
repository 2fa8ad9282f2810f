import MarketMaking.Proofs.Division

/-! Which operations cannot leave the range of decimals. An exact result that does not exceed the
largest whole number may lose places, but is never rounded above that (`ofExact?_some`). -/

namespace MarketMaking

theorem halfEven_mul (n : Nat) {d : Nat} (pos : 0 < d) : halfEven (n * d) d = n := by
  simp only [halfEven, Nat.mul_mod_left, Nat.mul_div_cancel n pos]
  split <;> omega

namespace Decimal
variable {a b d p : Decimal} {c : Int} {scale : Nat} {x : ℚ}

abbrev largest : Nat := limit - 1

theorem value_le_largest (a : Decimal) : a.value ≤ largest := by
  have fits := a.coefficient_lt
  have whole : (a.coefficient : ℚ) ≤ largest := by
    exact_mod_cast (by unfold largest limit at *; omega : a.coefficient ≤ (largest : Int))
  rw [value, div_le_iff₀ (by positivity)]
  exact whole.trans (le_mul_of_one_le_right (by norm_num) (one_le_pow₀ (by norm_num)))

theorem value_abs (a : Decimal) : a.abs.value = |a.value| := by
  have parts : a.abs.value = ((a.coefficient.natAbs : Int) : ℚ) / 10 ^ a.scale := rfl
  rw [parts, value, abs_div, abs_of_pos (by positivity : (0 : ℚ) < 10 ^ a.scale)]
  push_cast
  rfl

theorem natAbs_dropDigits (c : Int) (k : Nat) :
    (dropDigits c k).natAbs = halfEven c.natAbs (tenTo k) := by
  unfold dropDigits
  rw [Int.natAbs_mul, Int.natAbs_natCast]
  rcases eq_or_ne c 0 with rfl | some
  · simp [halfEven_zero]
  · rw [Int.natAbs_sign_of_ne_zero some, Nat.one_mul]

-- Without places, at the latest, there is room for a number that is not above the largest.
theorem keepPlaces_some (fits : c.natAbs ≤ largest * tenTo scale) (places : Nat)
    (within : places ≤ 28) : ∃ d, keepPlaces c scale places within = some d := by
  induction places with
  | zero =>
    have rounded : (dropDigits c scale).natAbs ≤ largest := by
      rw [natAbs_dropDigits, ← halfEven_mul largest (tenTo_pos scale)]
      exact halfEven_mono fits _
    exact ⟨_, dif_pos (Nat.lt_of_le_of_lt rounded (by decide))⟩
  | succ places ih =>
    simp only [keepPlaces]
    split
    · exact ⟨_, rfl⟩
    · exact ih _

theorem ofExact?_some {cause : Overflow} (exact : (c : ℚ) = x * 10 ^ scale) (fits : |x| ≤ largest) :
    ∃ d, Checked.ofOption cause (ofExact? c scale) = .ok d := by
  have scaled : (c.natAbs : ℚ) ≤ largest * tenTo scale := by
    rw [Nat.cast_natAbs, Int.cast_abs, exact, abs_mul, tenTo_cast,
      abs_of_pos (by positivity : (0 : ℚ) < 10 ^ scale)]
    exact mul_le_mul_of_nonneg_right fits (by positivity)
  have inside : c.natAbs ≤ largest * tenTo scale := by exact_mod_cast scaled
  obtain ⟨d, kept⟩ := keepPlaces_some inside (min scale 28) (min_scale_le scale)
  exact ⟨d, by rw [ofExact?, kept, Checked.ofOption]⟩

theorem aligned (le : a.scale ≤ scale) :
    ((a.coefficient * tenTo (scale - a.scale) : Int) : ℚ) = a.value * 10 ^ scale := by
  have places : (10 : ℚ) ^ scale = 10 ^ a.scale * 10 ^ (scale - a.scale) := by
    rw [← pow_add, Nat.add_sub_of_le le]
  push_cast
  rw [tenTo_cast, places, value]
  field_simp

theorem add_some (fits : |a.value + b.value| ≤ largest) : ∃ d, a.add b = .ok d := by
  unfold add
  split
  · exact ⟨b, rfl⟩
  split
  · exact ⟨a, rfl⟩
  · refine ofExact?_some ?_ fits
    rw [Int.cast_add, aligned (le_max_left _ _), aligned (le_max_right _ _), ← add_mul]

theorem sub_some (fits : |a.value - b.value| ≤ largest) : ∃ d, a.sub b = .ok d := by
  unfold sub
  split
  · exact ⟨-b, rfl⟩
  split
  · exact ⟨a, rfl⟩
  · refine ofExact?_some ?_ fits
    rw [Int.cast_sub, aligned (le_max_left _ _), aligned (le_max_right _ _), ← sub_mul]

theorem mul_some (fits : |a.value * b.value| ≤ largest) : ∃ d, a.mul b = .ok d := by
  unfold mul
  split
  · exact ⟨zero, rfl⟩
  · refine ofExact?_some ?_ fits
    rw [value, value, pow_add]
    push_cast
    field_simp

theorem sub_of_nonneg (left : 0 ≤ a.coefficient) (right : 0 ≤ b.coefficient) :
    ∃ d, a.sub b = .ok d := by
  apply sub_some
  have high := a.value_le_largest
  have high' := b.value_le_largest
  have low := value_nonneg_iff.mpr left
  have low' := value_nonneg_iff.mpr right
  rw [abs_le]
  constructor <;> linarith

theorem tenTo_add (k l : Nat) : tenTo (k + l) = tenTo k * tenTo l := Nat.pow_add 10 k l

-- A number has all its own places, so a part of it is not rounded above it.
theorem mul_le (part : 0 ≤ a.coefficient) (unit : a ≤ one) (nonneg : 0 ≤ b.coefficient)
    (through : a.mul b = .ok p) : p ≤ b := by
  unfold mul at through
  split at through
  · cases through
    exact nonneg_iff.mpr nonneg
  obtain ⟨scale_le, digits, -, most⟩ := keepPlaces_kept (Checked.of_ofOption through)
  have room := b.coefficient_lt
  have unit : a.coefficient * tenTo 0 ≤ 1 * tenTo a.scale := unit
  obtain ⟨m, coefficient⟩ := Int.eq_ofNat_of_zero_le part
  obtain ⟨n, coefficient'⟩ := Int.eq_ofNat_of_zero_le nonneg
  have small : m ≤ tenTo a.scale := by
    rw [coefficient, tenTo_zero] at unit
    omega
  have product : m * n ≤ n * tenTo a.scale := Nat.mul_comm m n ▸ Nat.mul_le_mul_left n small
  rw [coefficient, coefficient', ← Int.natCast_mul, dropDigits_natCast] at digits
  rw [coefficient', Int.natAbs_natCast] at room
  rcases Nat.lt_or_ge p.scale b.scale with fewer | enough
  -- With as many places as the number has there would have been room.
  · have full := most b.scale fewer (Nat.le_min.mpr ⟨Nat.le_add_left _ _, b.scale_le⟩)
    rw [natAbs_dropDigits, coefficient, coefficient', ← Int.natCast_mul, Int.natAbs_natCast,
      Nat.add_sub_cancel] at full
    have rounded := halfEven_mono product (tenTo a.scale)
    rw [halfEven_mul n (tenTo_pos _)] at rounded
    omega
  · obtain ⟨k, more⟩ := Nat.exists_eq_add_of_le enough
    have inside : k ≤ a.scale := by omega
    have left : a.scale + b.scale - p.scale = a.scale - k := by omega
    have split : n * tenTo a.scale = n * tenTo k * tenTo (a.scale - k) := by
      rw [Nat.mul_assoc, ← tenTo_add, Nat.add_sub_of_le inside]
    have rounded := halfEven_mono (product.trans_eq split) (tenTo (a.scale - k))
    rw [halfEven_mul _ (tenTo_pos _)] at rounded
    rw [le_def, digits, coefficient', left, more, Nat.add_comm b.scale, tenTo_add]
    exact_mod_cast Nat.mul_assoc n _ _ ▸ Nat.mul_le_mul_right (tenTo b.scale) rounded

theorem value_one : one.value = 1 := by
  have parts : one.value = ((1 : Int) : ℚ) / 10 ^ 0 := rfl
  rw [parts]
  norm_num

theorem mul_of_part (part : 0 ≤ a.coefficient) (unit : a ≤ one) (nonneg : 0 ≤ b.coefficient) :
    ∃ p, a.mul b = .ok p ∧ p ≤ b := by
  have low := value_nonneg_iff.mpr part
  have low' := value_nonneg_iff.mpr nonneg
  have high : a.value ≤ 1 := value_one ▸ le_iff.mp unit
  have fits : |a.value * b.value| ≤ largest := by
    rw [abs_of_nonneg (by positivity)]
    exact (mul_le_of_le_one_left low' high).trans b.value_le_largest
  obtain ⟨p, through⟩ := mul_some fits
  exact ⟨p, through, mul_le part unit nonneg through⟩

namespace Quotient
variable {divisor q rest : Nat} {scale : Int} {inexact : Bool} {out : Quotient}

theorem Splits.digits_le (splits : Splits x divisor q rest scale) (unit : x ≤ 1) :
    (q : ℚ) ≤ 10 ^ scale := by
  have whole : (q : ℚ) ≤ q + rest / divisor := le_add_of_nonneg_right splits.fraction.1
  rw [splits.total] at whole
  exact whole.trans (mul_le_of_le_one_left (by positivity) unit)

theorem Splits.small (splits : Splits x divisor q rest scale) (unit : x ≤ 1)
    (within : scale ≤ 28) : q + 1 < limit := by
  have most : (10 : ℚ) ^ scale ≤ 10 ^ (28 : Int) := zpow_le_zpow_right₀ (by norm_num) within
  have digits := (splits.digits_le unit).trans most
  have few : q ≤ 10 ^ 28 := by exact_mod_cast digits
  unfold limit
  omega

theorem Splits.none_of_neg (splits : Splits x divisor q rest scale) (unit : x ≤ 1)
    (whole : scale < 0) : q = 0 := by
  have less : (10 : ℚ) ^ scale < 1 := zpow_lt_one_of_neg₀ (by norm_num) whole
  have none : (q : ℚ) < 1 := (splits.digits_le unit).trans_lt less
  have none : q < 1 := by exact_mod_cast none
  omega

theorem shiftRoom_zero (room : Nat) : shiftRoom 0 room = room := by
  cases room with
  | zero => rfl
  | succ room => simp [shiftRoom]

def Fits (q : Quotient) : Prop := q.digits < limit ∧ q.scale ≤ 28

theorem settle_some (fits : q + 1 < limit) (within : scale ≤ 28) :
    ∃ out, settle divisor q rest scale = some out ∧ out.Fits := by
  unfold settle
  split
  · rw [if_neg (by omega)]
    exact ⟨_, rfl, fits, within⟩
  · exact ⟨_, rfl, Nat.lt_of_succ_lt fits, within⟩

theorem develop_some (splits : Splits x divisor q rest scale) (unit : x ≤ 1)
    (within : scale ≤ 28) (inexact : Bool) :
    ∃ out, develop divisor q rest scale inexact = some out ∧ out.Fits := by
  fun_induction develop divisor q rest scale inexact with
  | case1 q scale inexact whole =>
    exact ⟨_, rfl, Nat.lt_of_succ_lt (splits.small unit within), within⟩
  | case2 q scale inexact part step q' full =>
    have none := splits.none_of_neg unit (by omega)
    simp [q', none] at full
  | case3 q scale inexact part step _ room ih =>
    exact ih (splits.shift step) (by omega)
  | case4 q rest scale inexact some step stuck =>
    have none := splits.none_of_neg unit (by omega)
    have all : step = min 9 (28 - scale).toNat := by simp only [step, none, shiftRoom_zero]
    omega
  | case5 q rest scale inexact some step rounds still =>
    exact settle_some (splits.small unit within) within
  | case6 q rest scale inexact some step _ _ _ _ full =>
    have inside := shiftRoom_le q (min 9 (28 - scale).toNat)
    have small := (splits.grow step).small unit (by omega)
    omega
  | case7 q rest scale inexact some step _ _ _ _ room ih =>
    have inside := shiftRoom_le q (min 9 (28 - scale).toNat)
    exact ih (splits.grow step) (by omega)

theorem Fits.toDecimal? (fits : out.Fits) (negative : Bool) :
    ∃ d, out.toDecimal? negative = some d := by
  unfold Quotient.toDecimal?
  split
  rename_i digits scale parts
  have trims : Trims (out.digits, out.scale.toNat) (digits, scale) := by
    split at parts
    · exact parts ▸ trims_trimZeros _ _
    · exact parts ▸ .refl _
  obtain ⟨k, whole, places⟩ := trims
  obtain ⟨room, within⟩ := fits
  simp only at whole places
  have fewer : digits ≤ out.digits := by
    rw [whole]
    exact Nat.le_mul_of_pos_right digits (tenTo_pos k)
  refine ⟨_, dif_pos ⟨?_, ?_⟩⟩
  · split <;> omega
  · omega

end Quotient

theorem div_some (nonneg : 0 ≤ a.coefficient) (pos : 0 < b.coefficient) (le : a ≤ b) :
    ∃ d, a.div b = .ok d := by
  unfold div
  rw [if_neg pos.ne']
  split
  · exact ⟨zero, rfl⟩
  have unit : (a.coefficient.natAbs : ℚ) / b.coefficient.natAbs /
      10 ^ ((a.scale : Int) - b.scale) ≤ 1 := by
    rw [Nat.cast_natAbs, Nat.cast_natAbs, abs_of_nonneg nonneg, abs_of_pos pos, ← value_div_value,
      div_le_one (value_pos_iff.mpr pos)]
    exact le_iff.mp le
  have within : (a.scale : Int) - b.scale ≤ 28 := by
    have := a.scale_le
    omega
  have splits := Quotient.Splits.start a.coefficient.natAbs (by omega : 0 < b.coefficient.natAbs)
    ((a.scale : Int) - b.scale)
  obtain ⟨q, developed, fits⟩ := Quotient.develop_some splits unit within false
  obtain ⟨d, made⟩ := fits.toDecimal? (decide (a.coefficient < 0) != decide (b.coefficient < 0))
  exact ⟨d, by simp only [developed, Option.bind_some, made, Checked.ofOption]⟩

end Decimal
end MarketMaking
