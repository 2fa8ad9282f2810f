import MarketMaking.Overflow

/-! Decimals: an integer coefficient below `2 ^ 96` in magnitude over a power of ten up to
`10 ^ 28`. The scale is part of the number, so `1.0` and `1.00` differ as values and agree under
`≈`, `<` and `≤`. -/

namespace MarketMaking

def tenTo (k : Nat) : Nat := Nat.pow 10 k

theorem tenTo_zero : tenTo 0 = 1 := rfl
theorem tenTo_succ (k : Nat) : tenTo (k + 1) = tenTo k * 10 := rfl

theorem tenTo_pos (k : Nat) : 0 < tenTo k := by
  induction k with
  | zero => decide
  | succ k ih => rw [tenTo_succ]; omega

abbrev Decimal.limit : Nat := 79228162514264337593543950336

structure Decimal where
  coefficient : Int
  scale : Nat
  coefficient_lt : coefficient.natAbs < Decimal.limit := by decide
  scale_le : scale ≤ 28 := by decide
  -- A zero that is written with a minus sign: what is left of a negative number too small for
  -- any place to show it.
  negativeZero : Bool := false
  zero_of_negativeZero : negativeZero → coefficient = 0 := by simp
  deriving DecidableEq

namespace Decimal

theorem min_scale_le (scale : Nat) : min scale 28 ≤ 28 := Nat.min_le_right _ _

def ofWord (n : UInt64) (scale : Nat) : Decimal where
  coefficient := n.toNat
  scale := min scale 28
  coefficient_lt := by rw [Int.natAbs_natCast]; exact Nat.lt_trans n.toNat_lt (by decide)
  scale_le := min_scale_le scale

def ofInt (n : Int) (h : n.natAbs < limit) : Decimal where
  coefficient := n
  scale := 0
  coefficient_lt := h

def zero : Decimal := .ofWord 0 0
def one : Decimal := .ofWord 1 0
def two : Decimal := .ofWord 2 0

@[simp] theorem coefficient_zero : zero.coefficient = 0 := rfl
@[simp] theorem scale_zero : zero.scale = 0 := rfl

instance : Inhabited Decimal := ⟨zero⟩

def ofScaled? (coefficient : Int) (scale : Nat) : Option Decimal :=
  if h : coefficient.natAbs < limit ∧ scale ≤ 28 then
    some { coefficient, scale, coefficient_lt := h.1, scale_le := h.2 }
  else none

def ofMagnitude? (negative : Bool) (magnitude scale : Nat) : Option Decimal :=
  if h : magnitude < limit ∧ scale ≤ 28 then
    some {
      coefficient := if negative then -(magnitude : Int) else magnitude
      scale
      coefficient_lt := by split <;> omega
      scale_le := h.2
      negativeZero := negative && magnitude == 0
      zero_of_negativeZero := by simp; omega }
  else none

def ofInt? (n : Int) : Option Decimal := ofScaled? n 0

-- Comparison brings both numbers over the product of their powers of ten, so it is exact.
instance : LE Decimal := ⟨fun a b => a.coefficient * tenTo b.scale ≤ b.coefficient * tenTo a.scale⟩
instance : LT Decimal := ⟨fun a b => a.coefficient * tenTo b.scale < b.coefficient * tenTo a.scale⟩
instance : HasEquiv Decimal :=
  ⟨fun a b => a.coefficient * tenTo b.scale = b.coefficient * tenTo a.scale⟩

theorem le_def {a b : Decimal} :
    a ≤ b ↔ a.coefficient * tenTo b.scale ≤ b.coefficient * tenTo a.scale := Iff.rfl
theorem lt_def {a b : Decimal} :
    a < b ↔ a.coefficient * tenTo b.scale < b.coefficient * tenTo a.scale := Iff.rfl
theorem equiv_def {a b : Decimal} :
    a ≈ b ↔ a.coefficient * tenTo b.scale = b.coefficient * tenTo a.scale := Iff.rfl

instance (a b : Decimal) : Decidable (a ≤ b) := Int.decLe _ _
instance (a b : Decimal) : Decidable (a < b) := Int.decLt _ _
instance (a b : Decimal) : Decidable (a ≈ b) := Int.instDecidableEq _ _

theorem equiv_refl (a : Decimal) : a ≈ a := rfl
theorem not_lt {a b : Decimal} : ¬ a < b ↔ b ≤ a := Int.not_lt
theorem not_le {a b : Decimal} : ¬ a ≤ b ↔ b < a := Int.not_le

def isZero (a : Decimal) : Bool := a.coefficient == 0

theorem pos_iff {a : Decimal} : zero < a ↔ 0 < a.coefficient := by
  simp [lt_def, tenTo_zero]

def neg (a : Decimal) : Decimal :=
  { a with
    coefficient := -a.coefficient
    coefficient_lt := by rw [Int.natAbs_neg]; exact a.coefficient_lt
    zero_of_negativeZero := fun h => by rw [a.zero_of_negativeZero h]; rfl }

def abs (a : Decimal) : Decimal where
  coefficient := a.coefficient.natAbs
  scale := a.scale
  coefficient_lt := by rw [Int.natAbs_natCast]; exact a.coefficient_lt
  scale_le := a.scale_le

instance : Neg Decimal := ⟨neg⟩

end Decimal
end MarketMaking
