/-! Spans of time in whole nanoseconds, up to the largest that a count of seconds in 64 bits and a
fraction can hold. Doubling saturates there. -/

namespace MarketMaking

def Duration.longest : Nat := 18446744073709551615 * 1000000000 + 999999999

structure Duration where
  nanos : Nat
  nanos_le : nanos ≤ Duration.longest := by decide
  deriving DecidableEq

namespace Duration

def clamp (nanos : Nat) : Duration := ⟨min nanos longest, Nat.min_le_right _ _⟩

def ofMillis (ms : UInt64) : Duration :=
  ⟨ms.toNat * 1000000, by have := ms.toNat_lt; unfold longest; omega⟩

def ofSeconds (s : UInt64) : Duration :=
  ⟨s.toNat * 1000000000, by have := s.toNat_lt; unfold longest; omega⟩

def toMillis (d : Duration) : Nat := d.nanos / 1000000

instance : LE Duration := ⟨fun a b => a.nanos ≤ b.nanos⟩
instance (a b : Duration) : Decidable (a ≤ b) := Nat.decLe _ _

instance : Min Duration := ⟨fun a b => if a ≤ b then a else b⟩

def double (d : Duration) : Duration := clamp (2 * d.nanos)

-- The longest wait that the timer underneath grants: thirty years of 365 days.
def patience : Duration := .ofSeconds 946080000

-- How long a wait for this span takes by that timer. That it ends there, and that a shorter one is
-- exact even below a millisecond, is assumed of the timer; nothing that waits decides it.
def waited (d : Duration) : Duration := min d patience

-- `digits` places of a fraction without the zeros at its end, and without the point if none is
-- left.
def fractionText (part digits : Nat) : String :=
  let padded := List.replicate (digits - (Nat.toDigits 10 part).length) '0' ++ Nat.toDigits 10 part
  match (padded.reverse.dropWhile (· == '0')).reverse with
  | [] => ""
  | places => String.ofList ('.' :: places)

def inUnit (d : Duration) (digits : Nat) : String :=
  let part := d.nanos % Nat.pow 10 digits
  toString (d.nanos / Nat.pow 10 digits) ++ (if part = 0 then "" else fractionText part digits)

def toText (d : Duration) : String :=
  if 1000000000 ≤ d.nanos then d.inUnit 9 ++ "s"
  else if 1000000 ≤ d.nanos then d.inUnit 6 ++ "ms"
  else if 1000 ≤ d.nanos then d.inUnit 3 ++ "µs"
  else toString d.nanos ++ "ns"

instance : ToString Duration := ⟨toText⟩

end Duration
end MarketMaking
