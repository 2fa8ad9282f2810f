/-! What ends a computation for good: a result outside the range of its numbers. Amounts, ratios and
clock readings are bounded, so every operation that can leave its range answers in `Checked`. -/

namespace MarketMaking

inductive Overflow where
  | addition
  | subtraction
  | multiplication
  | division
  | divisionByZero
  | clock
  | span
  | capacity
  | emptyInterval
  deriving DecidableEq, Repr

def Overflow.message : Overflow → String
  | .addition => "Addition overflowed"
  | .subtraction => "Subtraction overflowed"
  | .multiplication => "Multiplication overflowed"
  | .division => "Division overflowed"
  | .divisionByZero => "Division by zero"
  | .clock => "`DateTime + TimeDelta` overflowed"
  | .span => "TimeDelta::milliseconds out of bounds"
  | .capacity => "capacity overflow"
  | .emptyInterval => "`period` must be non-zero."

abbrev Checked := Except Overflow

def Checked.ofOption (cause : Overflow) : Option α → Checked α
  | some a => .ok a
  | none => .error cause

end MarketMaking
