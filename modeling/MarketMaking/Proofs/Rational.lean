import Mathlib
import MarketMaking.Proofs.Closeness

/-! Decimals as the rational numbers they stand for, and what rounding leaves of their order. Sums
and products keep as many places as fit, so of two exact values over the same scale the larger one
may keep fewer places; even then the smaller one is not rounded above it (`ofExact?_mono`). -/

namespace MarketMaking

theorem halfEven_zero (d : Nat) : halfEven 0 d = 0 := by
  unfold halfEven
  simp

theorem halfEven_near (n : Nat) {d : Nat} (pos : 0 < d) :
    2 * n ≤ (2 * halfEven n d + 1) * d ∧ 2 * halfEven n d * d ≤ 2 * n + d := by
  have whole := Nat.div_add_mod n d
  have rest := Nat.mod_lt n pos
  have spread (q : Nat) : (2 * q + 1) * d = 2 * (d * q) + d ∧ 2 * q * d = 2 * (d * q) :=
    ⟨by ring, by ring⟩
  have next : d * (n / d + 1) = d * (n / d) + d := Nat.mul_succ d _
  rw [(spread _).1, (spread _).2]
  unfold halfEven
  split
  · rw [next]; omega
  · omega

theorem halfEven_mono {n n' : Nat} (le : n ≤ n') (d : Nat) : halfEven n d ≤ halfEven n' d := by
  have whole := Nat.div_add_mod n d
  have whole' := Nat.div_add_mod n' d
  have quotients : n / d ≤ n' / d := Nat.div_le_div_right le
  unfold halfEven
  rcases Nat.lt_or_eq_of_le quotients with less | same
  · split <;> split <;> omega
  · rw [← same] at whole' ⊢
    split <;> split <;> omega

namespace Decimal
variable {a b d : Decimal} {c c' : Int} {scale places : Nat}

theorem dropDigits_natCast (n k : Nat) : dropDigits n k = halfEven n (tenTo k) := by
  unfold dropDigits
  rcases Nat.eq_zero_or_pos n with rfl | pos
  · simp [halfEven_zero]
  · rw [Int.sign_eq_one_of_pos (by omega), Int.natAbs_natCast, Int.one_mul]

def value (a : Decimal) : ℚ := a.coefficient / 10 ^ a.scale

theorem tenTo_cast (k : Nat) : ((tenTo k : Nat) : ℚ) = 10 ^ k := by
  simp [tenTo]

theorem lt_iff : a < b ↔ a.value < b.value := by
  rw [value, value, div_lt_div_iff₀ (by positivity) (by positivity), lt_def, ← tenTo_cast,
    ← tenTo_cast]
  exact_mod_cast Iff.rfl

theorem le_iff : a ≤ b ↔ a.value ≤ b.value := by
  rw [value, value, div_le_div_iff₀ (by positivity) (by positivity), le_def, ← tenTo_cast,
    ← tenTo_cast]
  exact_mod_cast Iff.rfl

theorem equiv_iff : a ≈ b ↔ a.value = b.value := by
  rw [value, value, div_eq_div_iff (by positivity) (by positivity), equiv_def, ← tenTo_cast,
    ← tenTo_cast]
  exact_mod_cast Iff.rfl

theorem nonneg_iff : zero ≤ a ↔ 0 ≤ a.coefficient := by
  simp [le_def, tenTo_zero]

theorem coefficient_floor (a : Decimal) : a.floor.coefficient = ⌊a.value⌋ := by
  have whole := Rat.floor_intCast_div_natCast a.coefficient (tenTo a.scale)
  rw [tenTo_cast] at whole
  exact whole.symm

theorem value_neg (a : Decimal) : (-a).value = -a.value := by
  have parts : (-a).value = ((-a.coefficient : Int) : ℚ) / 10 ^ a.scale := rfl
  rw [parts, value]
  push_cast
  ring

theorem coefficient_ceil (a : Decimal) : a.ceil.coefficient = ⌈a.value⌉ := by
  have negated : a.ceil.coefficient = -(-a).floor.coefficient := rfl
  rw [negated, coefficient_floor, value_neg, Int.floor_neg, neg_neg]

-- What is kept of `c / 10 ^ scale`: no further place would have fitted.
structure Kept (c : Int) (scale places : Nat) (d : Decimal) : Prop where
  scale_le : d.scale ≤ places
  digits : d.coefficient = dropDigits c (scale - d.scale)
  unsigned : d.negativeZero = false
  most : ∀ more, d.scale < more → more ≤ places → limit ≤ (dropDigits c (scale - more)).natAbs

theorem keepPlaces_kept {within : places ≤ 28} (kept : keepPlaces c scale places within = some d) :
    Kept c scale places d := by
  induction places with
  | zero =>
    simp only [keepPlaces] at kept
    split at kept
    · cases kept
      exact ⟨Nat.le_refl 0, rfl, rfl, fun more above below => absurd above (by omega)⟩
    · cases kept
  | succ places ih =>
    simp only [keepPlaces] at kept
    split at kept
    · cases kept
      exact ⟨Nat.le_refl _, rfl, rfl, fun more above below => absurd above (Nat.not_lt.mpr below)⟩
    · rename_i full
      obtain ⟨scale_le, digits, unsigned, most⟩ := ih kept
      refine ⟨Nat.le_succ_of_le scale_le, digits, unsigned, fun more above below => ?_⟩
      rcases Nat.lt_or_eq_of_le below with less | rfl
      · exact most more above (Nat.le_of_lt_succ less)
      · exact Nat.le_of_not_lt full

theorem ofExact?_pos (kept : ofExact? c scale = some d) (pos : 0 < d.coefficient) : 0 < c := by
  rw [(keepPlaces_kept kept).digits, dropDigits] at pos
  rcases Int.lt_trichotomy c 0 with low | rfl | high
  · rw [Int.sign_eq_neg_one_of_neg low] at pos
    omega
  · simp at pos
  · exact high

theorem add_nonneg (left : 0 ≤ a.coefficient) (right : 0 ≤ b.coefficient)
    (through : a.add b = .ok d) : 0 ≤ d.coefficient := by
  unfold add at through
  split at through
  · cases through; exact right
  · split at through
    · cases through; exact left
    · exact keepPlaces_nonneg (by positivity) (Checked.of_ofOption through)

theorem lt_of_scale_lt (fewer : b.scale < a.scale) (less : a.coefficient < 10 * b.coefficient)
    (nonneg : 0 ≤ b.coefficient) : a < b := by
  obtain ⟨k, more⟩ := Nat.exists_eq_add_of_lt fewer
  have split : (tenTo a.scale : Int) = 10 * tenTo b.scale * tenTo k := by
    simp only [tenTo, more, Nat.pow_eq]
    push_cast
    ring
  have some : (1 : Int) ≤ tenTo k := by exact_mod_cast tenTo_pos k
  have base : (0 : Int) < tenTo b.scale := by exact_mod_cast tenTo_pos b.scale
  rw [lt_def, split]
  calc a.coefficient * tenTo b.scale < 10 * b.coefficient * tenTo b.scale := by
        exact mul_lt_mul_of_pos_right less base
    _ = b.coefficient * (10 * tenTo b.scale) * 1 := by ring
    _ ≤ b.coefficient * (10 * tenTo b.scale) * tenTo k := by
        exact mul_le_mul_of_nonneg_left some (by positivity)
    _ = b.coefficient * (10 * tenTo b.scale * tenTo k) := by ring

theorem limit_lt_of_full {n k : Nat} (full : limit ≤ halfEven n (tenTo k)) :
    limit < 10 * halfEven n (tenTo (k + 1)) := by
  have pos := tenTo_pos k
  have kept := (halfEven_near n pos).2
  have left := (halfEven_near n (tenTo_pos (k + 1))).1
  rw [tenTo_succ] at left ⊢
  have bound : 2 * limit * tenTo k ≤ 2 * halfEven n (tenTo k) * tenTo k :=
    Nat.mul_le_mul_right _ (Nat.mul_le_mul_left 2 full)
  have scaled : (2 * limit - 1) * tenTo k ≤ (20 * halfEven n (tenTo k * 10) + 10) * tenTo k := by
    have less : (2 * limit - 1) * tenTo k + tenTo k = 2 * limit * tenTo k :=
      (Nat.succ_mul (2 * limit - 1) (tenTo k)).symm
    nlinarith
  have enough := Nat.le_of_mul_le_mul_right scaled pos
  unfold limit at enough ⊢
  omega

theorem eq_of_coefficient (coefficient : a.coefficient = b.coefficient) (scale : a.scale = b.scale)
    (unsigned : a.negativeZero = b.negativeZero) : a = b := by
  cases a
  cases b
  cases coefficient
  cases scale
  cases unsigned
  rfl

-- The smaller of two exact values is not rounded above the larger one, and the two only round to
-- equal numbers if they round to the same one.
theorem ofExact?_mono (nonneg : 0 ≤ c) (le : c ≤ c') (first : ofExact? c scale = some a)
    (second : ofExact? c' scale = some b) : a ≤ b ∧ (a ≈ b → a = b) := by
  obtain ⟨n, rfl⟩ := Int.eq_ofNat_of_zero_le nonneg
  obtain ⟨n', rfl⟩ := Int.eq_ofNat_of_zero_le (nonneg.trans le)
  have le : n ≤ n' := by exact_mod_cast le
  obtain ⟨low, digits, unsigned, most⟩ := keepPlaces_kept first
  obtain ⟨low', digits', unsigned', most'⟩ := keepPlaces_kept second
  rw [dropDigits_natCast] at digits digits'
  have room := a.coefficient_lt
  have room' := b.coefficient_lt
  rw [digits, Int.natAbs_natCast] at room
  rw [digits', Int.natAbs_natCast] at room'
  rcases Nat.lt_trichotomy a.scale b.scale with fewer | same | more
  · -- What does not fit of the smaller value does not fit of the larger one.
    have full := most b.scale fewer low'
    rw [dropDigits_natCast, Int.natAbs_natCast] at full
    exact absurd (full.trans (halfEven_mono le _)) (Nat.not_le.mpr room')
  · have ordered : a.coefficient ≤ b.coefficient := by
      rw [digits, digits', same]
      exact_mod_cast halfEven_mono le _
    have base : (0 : Int) < tenTo b.scale := by exact_mod_cast tenTo_pos b.scale
    rw [le_def, equiv_def, same]
    refine ⟨mul_le_mul_of_nonneg_right ordered base.le, fun equal => ?_⟩
    exact eq_of_coefficient (mul_right_cancel₀ base.ne' equal) same (unsigned.trans unsigned'.symm)
  · have full := most' (b.scale + 1) (Nat.lt_succ_self _) (more.trans_le low)
    have places : scale - b.scale = scale - (b.scale + 1) + 1 := by omega
    rw [dropDigits_natCast, Int.natAbs_natCast] at full
    have many := limit_lt_of_full full
    rw [← places] at many
    have less : a < b := lt_of_scale_lt more (by omega) (by omega)
    exact ⟨Int.le_of_lt less, fun equal => absurd less (not_lt.mpr (Int.le_of_eq equal.symm))⟩

end Decimal
end MarketMaking
