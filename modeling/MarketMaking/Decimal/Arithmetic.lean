import MarketMaking.Decimal.Basic

/-! Arithmetic on decimals. A result keeps as many places as its coefficient has room for, a half
going to the even neighbour. Nothing wraps: a result whose whole part does not fit is an
overflow. -/

namespace MarketMaking

def halfEven (n d : Nat) : Nat :=
  if d < 2 * (n % d) ∨ (2 * (n % d) = d ∧ n / d % 2 = 1) then n / d + 1 else n / d

theorem halfEven_one (n : Nat) : halfEven n 1 = n := by simp [halfEven, Nat.mod_one]

theorem halfEven_le {n d : Nat} (h : 2 ≤ d) : halfEven n d ≤ n := by
  have hq := Nat.div_add_mod n d
  have hm := Nat.mod_lt n (show 0 < d by omega)
  have hle : 2 * (n / d) ≤ d * (n / d) := Nat.mul_le_mul_right _ h
  unfold halfEven
  split <;> omega

namespace Decimal

def dropDigits (c : Int) (k : Nat) : Int := c.sign * halfEven c.natAbs (tenTo k)

theorem natAbs_dropDigits_le (c : Int) (k : Nat) : (dropDigits c k).natAbs ≤ c.natAbs := by
  have bound : halfEven c.natAbs (tenTo k) ≤ c.natAbs := by
    cases k with
    | zero => exact Nat.le_of_eq (halfEven_one _)
    | succ k =>
      refine halfEven_le ?_
      have := tenTo_pos k
      rw [tenTo_succ]; omega
  unfold dropDigits
  rw [Int.natAbs_mul, Int.natAbs_natCast]
  rcases Int.lt_trichotomy c 0 with h | h | h
  · rw [Int.sign_eq_neg_one_of_neg h]; simpa using bound
  · subst h; simp
  · rw [Int.sign_eq_one_of_pos h]; simpa using bound

def keepPlaces (c : Int) (scale : Nat) : (places : Nat) → places ≤ 28 → Option Decimal
  | 0, h =>
    let c' := dropDigits c scale
    if fits : c'.natAbs < limit then
      some { coefficient := c', scale := 0, coefficient_lt := fits, scale_le := h }
    else none
  | places + 1, h =>
    let c' := dropDigits c (scale - (places + 1))
    if fits : c'.natAbs < limit then
      some { coefficient := c', scale := places + 1, coefficient_lt := fits, scale_le := h }
    else keepPlaces c scale places (Nat.le_of_succ_le h)

def ofExact? (c : Int) (scale : Nat) : Option Decimal :=
  keepPlaces c scale (min scale 28) (min_scale_le scale)

-- A zero summand leaves the other one as it stands, its scale included.
def add (a b : Decimal) : Checked Decimal :=
  if a.coefficient = 0 then .ok b
  else if b.coefficient = 0 then .ok a
  else
    let scale := max a.scale b.scale
    Checked.ofOption .addition <| ofExact?
      (a.coefficient * tenTo (scale - a.scale) + b.coefficient * tenTo (scale - b.scale)) scale

def sub (a b : Decimal) : Checked Decimal :=
  if a.coefficient = 0 then .ok (-b)
  else if b.coefficient = 0 then .ok a
  else
    let scale := max a.scale b.scale
    Checked.ofOption .subtraction <| ofExact?
      (a.coefficient * tenTo (scale - a.scale) - b.coefficient * tenTo (scale - b.scale)) scale

-- Two short coefficients whose product lies far below the last place there is.
def vanishes (a b : Decimal) : Prop :=
  a.coefficient.natAbs < UInt32.size ∧ b.coefficient.natAbs < UInt32.size ∧ 47 < a.scale + b.scale

instance (a b : Decimal) : Decidable (vanishes a b) := instDecidableAnd

def mul (a b : Decimal) : Checked Decimal :=
  if a.coefficient = 0 ∨ b.coefficient = 0 ∨ vanishes a b then .ok zero
  else Checked.ofOption .multiplication <|
    ofExact? (a.coefficient * b.coefficient) (a.scale + b.scale)

def shiftRoom (q : Nat) : Nat → Nat
  | 0 => 0
  | room + 1 => if q * tenTo (room + 1) < limit then room + 1 else shiftRoom q room

theorem shiftRoom_le (q room : Nat) : shiftRoom q room ≤ room := by
  induction room with
  | zero => simp [shiftRoom]
  | succ room ih => unfold shiftRoom; split <;> omega

-- The magnitude of a quotient under way. `inexact` tells whether a remainder was ever met: only
-- then are trailing zeros taken off again.
structure Quotient where
  digits : Nat
  scale : Int
  inexact : Bool

-- Gives up the last digit of a coefficient that grew out of range. What is left of the dividend
-- puts a tie above the half, and a divisor of more than one word does so in any case.
def Quotient.shorten (divisor q rest : Nat) (scale : Int) : Option Quotient :=
  if scale < 1 then none
  else
    let above : Bool := 0 < rest || UInt64.size ≤ divisor
    let up := 5 < q % 10 ∨ (q % 10 = 5 ∧ (above ∨ q / 10 % 2 = 1))
    some ⟨if up then q / 10 + 1 else q / 10, scale - 1, true⟩

def Quotient.settle (divisor q rest : Nat) (scale : Int) : Option Quotient :=
  if divisor < 2 * rest ∨ (2 * rest = divisor ∧ q % 2 = 1) then
    if limit ≤ q + 1 then shorten divisor (q + 1) rest scale else some ⟨q + 1, scale, true⟩
  else some ⟨q, scale, true⟩

-- Long division, up to nine digits a step. An exact quotient only has to lose a negative scale; an
-- inexact one grows while its coefficient and its scale have room.
def Quotient.develop (divisor q rest : Nat) (scale : Int) (inexact : Bool) : Option Quotient :=
  if rest = 0 then
    if 0 ≤ scale then some ⟨q, scale, inexact⟩
    else
      let step := min 9 (-scale).toNat
      let q' := q * tenTo step
      if limit ≤ q' then none else develop divisor q' 0 (scale + step) inexact
  else
    let step := shiftRoom q (min 9 (28 - scale).toNat)
    if step < 9 ∧ scale + step < 0 then none
    else if step = 0 then settle divisor q rest scale
    else
      let q' := q * tenTo step + rest * tenTo step / divisor
      let rest' := rest * tenTo step % divisor
      if limit ≤ q' then shorten divisor q' rest' (scale + step)
      else develop divisor q' rest' (scale + step) true
termination_by (28 - scale).toNat
decreasing_by
  · omega
  · have := shiftRoom_le q (min 9 (28 - scale).toNat)
    omega

def stripZeros (n low : Nat) : Nat × Nat → Nat × Nat := fun (q, scale) =>
  if q % low = 0 ∧ n ≤ scale ∧ q % tenTo n = 0 then (q / tenTo n, scale - n) else (q, scale)

-- Groups of eight while the low 32 bits are clear (a scale has at most three), then at most one
-- group each of four, two and one.
def trimZeros (q scale : Nat) : Nat × Nat :=
  let eight := stripZeros 8 UInt32.size
  stripZeros 1 1 (stripZeros 2 1 (stripZeros 4 1 (eight (eight (eight (q, scale))))))

def Quotient.toDecimal? (negative : Bool) (q : Quotient) : Option Decimal :=
  let (digits, scale) :=
    if q.inexact then trimZeros q.digits q.scale.toNat else (q.digits, q.scale.toNat)
  ofScaled? (if negative then -(digits : Int) else digits) scale

def div (a b : Decimal) : Checked Decimal :=
  if b.coefficient = 0 then .error .divisionByZero
  else if a.coefficient = 0 then .ok zero
  else
    let n := a.coefficient.natAbs
    let d := b.coefficient.natAbs
    Checked.ofOption .division <|
      (Quotient.develop d (n / d) (n % d) ((a.scale : Int) - b.scale) false).bind
        (Quotient.toDecimal? (decide (a.coefficient < 0) != decide (b.coefficient < 0)))

def floor (a : Decimal) : Decimal :=
  ofInt (a.coefficient / tenTo a.scale)
    (Nat.lt_of_le_of_lt (Int.natAbs_ediv_le_natAbs _ _) a.coefficient_lt)

def ceil (a : Decimal) : Decimal := -(-a).floor

def roundPlaces (places : Nat) (a : Decimal) : Decimal :=
  if h : a.scale ≤ places then a
  else
    { coefficient := dropDigits a.coefficient (a.scale - places)
      scale := places
      coefficient_lt := Nat.lt_of_le_of_lt (natAbs_dropDigits_le _ _) a.coefficient_lt
      scale_le := Nat.le_trans (Nat.le_of_lt (Nat.lt_of_not_le h)) a.scale_le }

end Decimal
end MarketMaking
