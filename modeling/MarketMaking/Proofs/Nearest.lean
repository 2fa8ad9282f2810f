import MarketMaking.Proofs.Headroom

/-! Every operation on decimals answers with a number nearest to the exact result, among those with
as many places as there is room for (`Decimal.Rounds`). So no result is rounded over a number that a
decimal can show (`Rounds.side`). -/

namespace MarketMaking
namespace Decimal
variable {a b d y : Decimal} {c : Int} {scale places : Nat} {x : ℚ}

theorem dropDigits_zero (c : Int) : dropDigits c 0 = c := by
  rw [dropDigits, tenTo_zero, halfEven_one, Int.sign_mul_natAbs]

theorem dropDigits_near (c : Int) (k : Nat) :
    |(dropDigits c k : ℚ) * 10 ^ k - c| ≤ 1 / 2 * 10 ^ k := by
  obtain ⟨low, high⟩ := halfEven_near c.natAbs (tenTo_pos k)
  have low : (2 : ℚ) * c.natAbs ≤ (2 * halfEven c.natAbs (tenTo k) + 1) * 10 ^ k := by
    rw [← tenTo_cast]
    exact_mod_cast low
  have high : (2 : ℚ) * halfEven c.natAbs (tenTo k) * 10 ^ k ≤ 2 * c.natAbs + 10 ^ k := by
    rw [← tenTo_cast]
    exact_mod_cast high
  have digits : (dropDigits c k : ℚ) = c.sign * halfEven c.natAbs (tenTo k) := by
    rw [dropDigits]
    push_cast
    rfl
  have signed : (c : ℚ) = c.sign * (c.natAbs : ℚ) := by
    rw [← Int.cast_natCast, ← Int.cast_mul, Int.sign_mul_natAbs]
  rw [digits, abs_le]
  rcases Int.lt_trichotomy c 0 with negative | rfl | positive
  · rw [signed, Int.sign_eq_neg_one_of_neg negative]
    push_cast
    constructor <;> linarith
  · norm_num [halfEven_zero]
  · rw [signed, Int.sign_eq_one_of_pos positive]
    push_cast
    constructor <;> linarith

theorem shortened_near (c : Int) (k places : Nat) :
    |(dropDigits c k : ℚ) / 10 ^ places - c / 10 ^ (places + k)| ≤ 1 / 2 / 10 ^ places := by
  have near := dropDigits_near c k
  have unit : (0 : ℚ) < 10 ^ k := by positivity
  have unit' : (0 : ℚ) < 10 ^ places := by positivity
  have apart : (dropDigits c k : ℚ) / 10 ^ places - c / 10 ^ (places + k) =
      (dropDigits c k * 10 ^ k - c) / 10 ^ k / 10 ^ places := by
    rw [pow_add]
    field_simp
  rw [apart, abs_div, abs_of_pos unit', div_le_div_iff_of_pos_right unit', abs_div, abs_of_pos unit,
    div_le_iff₀ unit]
  exact near

theorem Kept.near (kept : Kept c scale places d) (le : places ≤ scale) :
    |d.value - c / 10 ^ scale| ≤ 1 / 2 / 10 ^ d.scale := by
  obtain ⟨k, more⟩ := Nat.exists_eq_add_of_le (kept.scale_le.trans le)
  have digits := kept.digits
  rw [more, Nat.add_sub_cancel_left] at digits
  rw [value, digits, more]
  exact shortened_near c k d.scale

theorem Kept.whole (kept : Kept c scale places d) (all : d.scale = scale) :
    d.value = c / 10 ^ scale := by
  have digits := kept.digits
  rw [all, Nat.sub_self, dropDigits_zero] at digits
  rw [value, digits, all]

theorem Kept.exact (kept : Kept c scale scale d) (fits : c.natAbs < limit) :
    d.value = c / 10 ^ scale := by
  apply kept.whole
  by_contra fewer
  have full := kept.most scale (Nat.lt_of_le_of_ne kept.scale_le fewer) (Nat.le_refl _)
  rw [Nat.sub_self, dropDigits_zero] at full
  exact absurd fits (Nat.not_lt.mpr full)

-- What is rounded out of the range of coefficients.
def brim : ℚ := largest + 1 / 2

theorem largest_lt_brim : ((largest : ℕ) : ℚ) < brim := lt_add_of_pos_right _ (by norm_num)

theorem brim_add_half : brim + 1 / 2 = (limit : ℕ) := by
  norm_num [brim, largest]

theorem brim_le_of_limit_le {n : Nat} (full : limit ≤ n) : brim ≤ n := by
  have many : ((limit : ℕ) : ℚ) ≤ n := by exact_mod_cast full
  rw [← brim_add_half] at many
  linarith

-- A number with so many places that is nearest to `x`. It is `x` itself unless there was no room
-- for another place.
structure Nearest (x : ℚ) (places : Nat) (d : Decimal) : Prop where
  whole : ∃ n : ℤ, d.value * 10 ^ places = n
  near : |d.value * 10 ^ places - x * 10 ^ places| ≤ 1 / 2
  full : d.value = x ∨ 28 ≤ places ∨ brim ≤ |x| * 10 ^ (places + 1)

def Rounds (x : ℚ) (d : Decimal) : Prop := ∃ places, Nearest x places d

theorem value_of_zero (zero : a.coefficient = 0) : a.value = 0 := by
  rw [value, zero, Int.cast_zero, zero_div]

theorem value_mul_places (d : Decimal) : d.value * 10 ^ d.scale = d.coefficient := by
  rw [value, div_mul_cancel₀ _ (by positivity)]

theorem whole_of_scale_le (le : d.scale ≤ places) : ∃ n : ℤ, d.value * 10 ^ places = n := by
  obtain ⟨k, rfl⟩ := Nat.exists_eq_add_of_le le
  refine ⟨d.coefficient * 10 ^ k, ?_⟩
  rw [pow_add, ← mul_assoc, value_mul_places]
  push_cast
  rfl

theorem rounds_of_eq (exact : d.value = x) : Rounds x d :=
  ⟨d.scale, whole_of_scale_le (Nat.le_refl _), by norm_num [exact], .inl exact⟩

theorem Nearest.neg (nearest : Nearest x places d) : Nearest (-x) places (-d) := by
  obtain ⟨⟨n, whole⟩, near, full⟩ := nearest
  refine ⟨⟨-n, ?_⟩, ?_, ?_⟩
  · rw [value_neg, neg_mul, whole]
    push_cast
    rfl
  · rw [value_neg, neg_mul, neg_mul, neg_sub_neg, abs_sub_comm]
    exact near
  · rw [value_neg, neg_inj, abs_neg]
    exact full

theorem abs_value_mul_le (further : places ≤ y.scale) : |y.value * 10 ^ places| ≤ largest := by
  obtain ⟨k, more⟩ := Nat.exists_eq_add_of_le further
  have digits := value_mul_places y
  have fits := y.coefficient_lt
  have few : |(y.coefficient : ℚ)| ≤ largest := by
    rw [← Int.cast_abs, Int.abs_eq_natAbs, Int.cast_natCast]
    exact_mod_cast (by unfold largest; omega : y.coefficient.natAbs ≤ largest)
  rw [more, pow_add, ← mul_assoc] at digits
  rw [← digits, abs_mul, abs_of_pos (by positivity : (0 : ℚ) < 10 ^ k)] at few
  have fewer : |y.value * 10 ^ places| ≤ |y.value * 10 ^ places| * 10 ^ k :=
    le_mul_of_one_le_right (by positivity) (one_le_pow₀ (by norm_num))
  exact fewer.trans few

theorem largest_le_of_full {n : ℤ} (full : brim ≤ x * 10) (near : x ≤ n + 1 / 2) :
    ((largest : ℕ) : ℚ) ≤ n * 10 := by
  have digits : brim ≤ n * 10 + 5 := by linarith
  have doubled : ((2 * largest + 1 : ℕ) : ℚ) ≤ (n * 20 + 10 : ℤ) := by
    have parts : ((2 * largest + 1 : ℕ) : ℚ) = 2 * brim := by
      rw [brim]
      push_cast
      ring
    rw [parts]
    push_cast
    linarith
  rw [← Int.cast_natCast, Int.cast_le] at doubled
  have enough : ((largest : ℕ) : ℤ) ≤ n * 10 := by
    unfold largest limit at *
    omega
  exact_mod_cast enough

theorem Nearest.scaled (nearest : Nearest x places d) :
    |d.value - x| * 10 ^ places ≤ 1 / 2 := by
  have near := nearest.near
  rwa [← sub_mul, abs_mul, abs_of_pos (by positivity : (0 : ℚ) < 10 ^ places)] at near

theorem Nearest.le_of_grid {v : ℚ} {m : ℤ} (nearest : Nearest x places d)
    (grid : v * 10 ^ places = m) (le : v ≤ x) : v ≤ d.value := by
  obtain ⟨⟨n, whole⟩, near, -⟩ := nearest
  have unit : (0 : ℚ) < 10 ^ places := by positivity
  have scaled := mul_le_mul_of_nonneg_right le unit.le
  rw [whole, abs_le] at near
  rw [grid] at scaled
  rw [← mul_le_mul_iff_of_pos_right unit, whole, grid]
  have less : (m : ℚ) < (n + 1 : ℤ) := by
    push_cast
    linarith
  exact_mod_cast Int.le_of_lt_add_one (Int.cast_lt.mp less)

theorem Nearest.ge_of_grid {v : ℚ} {m : ℤ} (nearest : Nearest x places d)
    (grid : v * 10 ^ places = m) (ge : x ≤ v) : d.value ≤ v := by
  have grid : -v * 10 ^ places = (-m : ℤ) := by
    rw [neg_mul, grid, Int.cast_neg]
  have mirrored := nearest.neg.le_of_grid grid (neg_le_neg ge)
  rw [value_neg] at mirrored
  exact neg_le_neg_iff.mp mirrored

-- A number with further places, for which there was no room, is too short to be in between.
theorem Nearest.le_of_le (nearest : Nearest x places d) (le : y.value ≤ x) : y.value ≤ d.value := by
  rcases Nat.lt_or_ge places y.scale with further | enough
  · have unit : (0 : ℚ) < 10 ^ places := by positivity
    have scaled := mul_le_mul_of_nonneg_right le unit.le
    obtain ⟨⟨n, whole⟩, near, full⟩ := nearest
    rw [whole] at near
    obtain ⟨low, high⟩ := abs_le.mp near
    rw [← mul_le_mul_iff_of_pos_right unit, whole]
    rcases full with exact | all | full
    · rwa [← whole, exact]
    · have most := y.scale_le
      omega
    · have short := abs_value_mul_le (Nat.succ_le_of_lt further)
      rw [Nat.succ_eq_add_one, pow_succ, ← mul_assoc, abs_le] at short
      rw [pow_succ, ← mul_assoc] at full
      rcases le_or_gt 0 x with nonneg | negative
      · rw [abs_of_nonneg nonneg] at full
        have many := largest_le_of_full (n := n) full (by linarith)
        linarith
      · rw [abs_of_neg negative, neg_mul] at full
        linarith [largest_lt_brim]
  · obtain ⟨m, grid⟩ := whole_of_scale_le enough
    exact nearest.le_of_grid grid le

theorem Nearest.ge_of_ge (nearest : Nearest x places d) (ge : x ≤ y.value) : d.value ≤ y.value := by
  have mirrored := nearest.neg.le_of_le (y := -y) (by rw [value_neg]; exact neg_le_neg ge)
  rw [value_neg, value_neg] at mirrored
  exact neg_le_neg_iff.mp mirrored

namespace Rounds

theorem side (rounds : Rounds x d) (y : Decimal) :
    (y.value ≤ x → y.value ≤ d.value) ∧ (x ≤ y.value → d.value ≤ y.value) := by
  obtain ⟨places, nearest⟩ := rounds
  exact ⟨nearest.le_of_le, nearest.ge_of_ge⟩

theorem side_intCast (rounds : Rounds x d) (n : ℤ) :
    ((n : ℚ) ≤ x → (n : ℚ) ≤ d.value) ∧ (x ≤ n → d.value ≤ n) := by
  obtain ⟨places, nearest⟩ := rounds
  have grid : (n : ℚ) * 10 ^ places = (n * 10 ^ places : ℤ) := by
    push_cast
    rfl
  exact ⟨nearest.le_of_grid grid, nearest.ge_of_grid grid⟩

theorem nonneg (rounds : Rounds x d) (nonneg : 0 ≤ x) : 0 ≤ d.value := by
  have side := (rounds.side .zero).1
  rw [value_of_zero rfl] at side
  exact side nonneg

theorem close (rounds : Rounds x d) {k : Nat} (within : k ≤ 28)
    (room : |x| * 10 ^ k < brim) : |d.value - x| ≤ 1 / 2 / 10 ^ k := by
  obtain ⟨places, nearest⟩ := rounds
  have unit : (0 : ℚ) < 10 ^ k := by positivity
  rw [le_div_iff₀ unit]
  rcases Nat.lt_or_ge places k with fewer | enough
  · have exact : d.value = x := by
      rcases nearest.full with exact | all | full
      · exact exact
      · omega
      · have more : (10 : ℚ) ^ (places + 1) ≤ 10 ^ k := pow_le_pow_right₀ (by norm_num) fewer
        have scaled : |x| * 10 ^ (places + 1) ≤ |x| * 10 ^ k :=
          mul_le_mul_of_nonneg_left more (by positivity)
        linarith
    norm_num [exact]
  · have finer : (10 : ℚ) ^ k ≤ 10 ^ places := pow_le_pow_right₀ (by norm_num) enough
    exact (mul_le_mul_of_nonneg_left finer (by positivity)).trans nearest.scaled

theorem near (rounds : Rounds x d) : |d.value - x| ≤ 1 / 2 := by
  obtain ⟨places, nearest⟩ := rounds
  have unit : (1 : ℚ) ≤ 10 ^ places := one_le_pow₀ (by norm_num)
  exact (le_mul_of_one_le_right (by positivity) unit).trans nearest.scaled

end Rounds

theorem brim_le_of_dropDigits {k : Nat} (full : limit ≤ (dropDigits c k).natAbs) :
    brim ≤ |(c : ℚ)| / 10 ^ k := by
  have unit : (0 : ℚ) < 10 ^ k := by positivity
  have digits : brim + 1 / 2 ≤ |(dropDigits c k : ℚ)| := by
    rw [brim_add_half, ← Int.cast_abs, Int.abs_eq_natAbs, Int.cast_natCast]
    exact_mod_cast full
  have apart := (abs_sub_abs_le_abs_sub _ _).trans (dropDigits_near c k)
  have scaled := mul_le_mul_of_nonneg_right digits unit.le
  rw [abs_mul, abs_of_pos unit] at apart
  rw [le_div_iff₀ unit]
  linarith

theorem Kept.rounds (kept : Kept c scale (min scale 28) d) : Rounds (c / 10 ^ scale) d := by
  have unit : (0 : ℚ) < 10 ^ d.scale := by positivity
  refine ⟨d.scale, whole_of_scale_le (Nat.le_refl _), ?_, ?_⟩
  · rw [← sub_mul, abs_mul, abs_of_pos unit, ← le_div_iff₀ unit]
    exact kept.near (Nat.min_le_left _ _)
  rcases Nat.lt_or_ge d.scale (min scale 28) with fewer | all
  · obtain ⟨k, more⟩ := Nat.exists_eq_add_of_le (fewer.trans_le (Nat.min_le_left _ _))
    have full := kept.most (d.scale + 1) (Nat.lt_succ_self _) fewer
    rw [more, Nat.succ_eq_add_one, Nat.add_sub_cancel_left] at full
    have same : |(c : ℚ) / 10 ^ scale| * 10 ^ (d.scale + 1) = |(c : ℚ)| / 10 ^ k := by
      have places : (10 : ℚ) ^ scale = 10 ^ (d.scale + 1) * 10 ^ k := by
        rw [← pow_add, ← Nat.succ_eq_add_one, ← more]
      have unit : (0 : ℚ) < 10 ^ (d.scale + 1) * 10 ^ k := by positivity
      rw [places, abs_div, abs_of_pos unit]
      field_simp
    exact .inr (.inr (same ▸ brim_le_of_dropDigits full))
  · rcases Nat.lt_or_ge scale 28 with few | many
    · have most := kept.scale_le
      exact .inl (kept.whole (by omega))
    · exact .inr (.inl (by omega))

theorem ofExact?_rounds {cause : Overflow} (exact : (c : ℚ) = x * 10 ^ scale)
    (through : Checked.ofOption cause (ofExact? c scale) = .ok d) : Rounds x d := by
  have rounds := (keepPlaces_kept (Checked.of_ofOption through)).rounds
  rwa [exact, mul_div_cancel_right₀ _ (by positivity)] at rounds

theorem add_rounds (through : a.add b = .ok d) : Rounds (a.value + b.value) d := by
  unfold add at through
  split at through
  · rename_i zero
    cases through
    exact rounds_of_eq (by rw [value_of_zero zero, zero_add])
  split at through
  · rename_i zero
    cases through
    exact rounds_of_eq (by rw [value_of_zero zero, add_zero])
  · refine ofExact?_rounds ?_ through
    rw [Int.cast_add, aligned (le_max_left _ _), aligned (le_max_right _ _), ← add_mul]

theorem sub_rounds (through : a.sub b = .ok d) : Rounds (a.value - b.value) d := by
  unfold sub at through
  split at through
  · rename_i zero
    cases through
    exact rounds_of_eq (by rw [value_neg, value_of_zero zero, zero_sub])
  split at through
  · rename_i zero
    cases through
    exact rounds_of_eq (by rw [value_of_zero zero, sub_zero])
  · refine ofExact?_rounds ?_ through
    rw [Int.cast_sub, aligned (le_max_left _ _), aligned (le_max_right _ _), ← sub_mul]

theorem value_mul_value (a b : Decimal) :
    ((a.coefficient * b.coefficient : Int) : ℚ) = a.value * b.value * 10 ^ (a.scale + b.scale) := by
  rw [pow_add, mul_mul_mul_comm, value_mul_places, value_mul_places]
  push_cast
  rfl

theorem rounds_of_vanishes (tiny : vanishes a b) : Rounds (a.value * b.value) zero := by
  obtain ⟨few, few', many⟩ := tiny
  have none : zero.value = 0 := value_of_zero rfl
  refine ⟨28, ⟨0, by rw [none]; norm_num⟩, ?_, .inr (.inl (Nat.le_refl _))⟩
  have short : |(a.coefficient * b.coefficient : Int)| ≤ 2 ^ 64 := by
    rw [Int.abs_eq_natAbs, Int.natAbs_mul]
    exact_mod_cast Nat.mul_le_mul few.le few'.le
  have digits : |a.value * b.value * 10 ^ (a.scale + b.scale)| ≤ 2 ^ 64 := by
    rw [← value_mul_value, ← Int.cast_abs]
    exact_mod_cast short
  obtain ⟨k, places⟩ := Nat.exists_eq_add_of_le (Nat.succ_le_of_lt many)
  have split : a.value * b.value * 10 ^ (a.scale + b.scale) =
      a.value * b.value * 10 ^ 28 * 10 ^ 20 * 10 ^ k := by
    rw [places]
    ring
  have unit : (1 : ℚ) ≤ 10 ^ k := one_le_pow₀ (by norm_num)
  rw [split, abs_mul, abs_of_pos (by positivity : (0 : ℚ) < 10 ^ k)] at digits
  have last := (le_mul_of_one_le_right (by positivity) unit).trans digits
  rw [abs_mul, abs_of_pos (by norm_num : (0 : ℚ) < 10 ^ 20)] at last
  rw [none, zero_mul, zero_sub, abs_neg]
  exact ((le_div_iff₀ (by norm_num)).mpr last).trans (by norm_num)

theorem mul_rounds (through : a.mul b = .ok d) : Rounds (a.value * b.value) d := by
  unfold mul at through
  split at through
  · rename_i none
    cases through
    rcases none with zero | zero | tiny
    · exact rounds_of_eq (by rw [value_of_zero zero, zero_mul, value_of_zero rfl])
    · exact rounds_of_eq (by rw [value_of_zero zero, mul_zero, value_of_zero rfl])
    · exact rounds_of_vanishes tiny
  · exact ofExact?_rounds (value_mul_value a b) through

namespace Quotient
variable {divisor q rest : Nat} {scale : Int} {inexact : Bool} {out : Quotient}

def Ample (x : ℚ) (out : Quotient) : Prop :=
  (out.digits : ℚ) = x * 10 ^ out.scale ∨ 28 ≤ out.scale ∨ brim ≤ x * 10 ^ (out.scale + 1)

theorem shiftRoom_eq_zero {room : Nat} (none : shiftRoom q room = 0) :
    room = 0 ∨ limit ≤ q * 10 := by
  induction room with
  | zero => exact .inl rfl
  | succ room ih =>
    unfold shiftRoom at none
    split at none
    · cases none
    · rename_i full
      cases ih none with
      | inl last => exact .inr (by subst last; exact Nat.not_lt.mp full)
      | inr full => exact .inr full

theorem shorten_ample {q' : Nat} (splits : Splits x divisor q rest scale)
    (full : brim ≤ q + rest / divisor) (made : shorten divisor q' rest scale = some out) :
    out.Ample x := by
  obtain ⟨-, shorter, -⟩ := shorten_digits made
  refine .inr (.inr ?_)
  rw [shorter, Int.sub_add_cancel, ← splits.total]
  exact full

theorem ample_of_still (splits : Splits x divisor q rest scale)
    (still : shiftRoom q (min 9 (28 - scale).toNat) = 0) (same : out.scale = scale) :
    out.Ample x := by
  refine .inr ?_
  rw [same]
  rcases shiftRoom_eq_zero still with last | full
  · exact .inl (by omega)
  · refine .inr ?_
    have digits := brim_le_of_limit_le full
    rw [zpow_add_one₀ (by norm_num), ← mul_assoc, ← splits.total]
    push_cast at digits
    linarith [splits.fraction.1]

theorem settle_ample (splits : Splits x divisor q rest scale)
    (still : shiftRoom q (min 9 (28 - scale).toNat) = 0)
    (made : settle divisor q rest scale = some out) : out.Ample x := by
  unfold settle at made
  split at made
  · have half := splits.half_le (by omega)
    split at made
    · rename_i full
      refine shorten_ample splits ?_ made
      have digits : ((limit : ℕ) : ℚ) ≤ (q + 1 : ℕ) := by exact_mod_cast full
      rw [← brim_add_half] at digits
      push_cast at digits
      linarith
    · cases made
      exact ample_of_still splits still rfl
  · cases made
    exact ample_of_still splits still rfl

theorem develop_ample (splits : Splits x divisor q rest scale)
    (made : develop divisor q rest scale inexact = some out) : out.Ample x := by
  fun_induction develop divisor q rest scale inexact with
  | case1 q scale inexact whole =>
    cases made
    have total := splits.total
    rw [Nat.cast_zero, zero_div, add_zero] at total
    exact .inl total
  | case2 => cases made
  | case3 q scale inexact _ step _ room ih => exact ih (splits.shift step) made
  | case4 => cases made
  | case5 q rest scale _ _ step rounds still => exact settle_ample splits still made
  | case6 q rest scale _ _ step _ _ _ _ full =>
    have grown := splits.grow step
    exact shorten_ample grown (by linarith [brim_le_of_limit_le full, grown.fraction.1]) made
  | case7 q rest scale _ _ step _ _ _ _ room ih => exact ih (splits.grow step) made

theorem Near.rounds (near : out.Near x) (ample : out.Ample x) (nonneg : 0 ≤ x) (negative : Bool)
    (value : d.value = (if negative then -1 else 1) * (out.digits / 10 ^ out.scale.toNat)) :
    Rounds ((if negative then -1 else 1) * x) d := by
  have unit : (10 : ℚ) ^ out.scale.toNat ≠ 0 := by positivity
  have digits : d.value * 10 ^ out.scale.toNat = (if negative then -1 else 1) * out.digits := by
    rw [value, mul_assoc, div_mul_cancel₀ _ unit]
  refine ⟨out.scale.toNat, ⟨if negative then -out.digits else out.digits, ?_⟩, ?_, ?_⟩
  · rw [digits]
    cases negative <;> simp
  · rw [digits, mul_assoc, abs_signed_sub]
    exact near.places
  · have magnitude : |(if negative then -1 else 1) * x| = x := by
      cases negative <;> simp [abs_of_nonneg nonneg]
    rw [magnitude]
    rcases ample with exact | last | full
    · refine .inl ?_
      rw [value, exact, near.unit, mul_div_cancel_right₀ _ unit]
    · exact .inr (.inl (by omega))
    · rw [zpow_add_one₀ (by norm_num), near.unit, ← pow_succ] at full
      exact .inr (.inr full)

end Quotient

theorem div_rounds (through : a.div b = .ok d) : Rounds (a.value / b.value) d := by
  unfold div at through
  split at through
  · cases through
  rename_i divisor
  split at through
  · rename_i zero
    cases through
    exact rounds_of_eq (by rw [value_of_zero zero, zero_div, value_of_zero rfl])
  · obtain ⟨q, developed, made⟩ := Option.bind_eq_some_iff.mp (Checked.of_ofOption through)
    have splits := Quotient.Splits.start a.coefficient.natAbs
      (by omega : 0 < b.coefficient.natAbs) ((a.scale : Int) - b.scale)
    have fits := Nat.lt_of_le_of_lt (Nat.div_le_self _ b.coefficient.natAbs) a.coefficient_lt
    have near := Quotient.develop_near splits fits developed
    rw [value_div_value, intCast_div, mul_div_assoc]
    exact near.rounds (Quotient.develop_ample splits developed) (by positivity) _
      (q.value_toDecimal? made)

theorem scale_roundPlaces (places : Nat) (a : Decimal) : (a.roundPlaces places).scale ≤ places := by
  unfold roundPlaces
  split
  · assumption
  · exact Nat.le_refl _

theorem roundPlaces_near (places : Nat) (a : Decimal) :
    |(a.roundPlaces places).value - a.value| ≤ 1 / 2 / 10 ^ places := by
  unfold roundPlaces
  split
  · simp
    positivity
  · rename_i more
    obtain ⟨k, more⟩ := Nat.exists_eq_add_of_le (Nat.le_of_not_le more)
    have near := shortened_near a.coefficient k places
    simp only [value, more, Nat.add_sub_cancel_left]
    exact near

theorem roundPlaces_nonneg (places : Nat) (nonneg : 0 ≤ a.coefficient) :
    0 ≤ (a.roundPlaces places).coefficient := by
  unfold roundPlaces
  split
  · exact nonneg
  · exact dropDigits_nonneg nonneg _

end Decimal
end MarketMaking
