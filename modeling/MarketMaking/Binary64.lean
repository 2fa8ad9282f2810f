import MarketMaking.Decimal.Arithmetic

/-! Finite numbers of the binary64 format without their sign, in exact arithmetic: rounding a
ratio to the nearest of them, products and quotients, and the shortest decimal digits that still
name one. -/

namespace MarketMaking

structure Binary64 where
  mantissa : Nat
  power : Int
  deriving DecidableEq

namespace Binary64

def zero : Binary64 := ⟨0, -1074⟩

def least : Nat := 4503599627370496

def powerOfTwo (k : Int) : Nat × Nat := (Nat.pow 2 k.toNat, Nat.pow 2 (-k).toNat)

def binaryLog (n d : Nat) : Int :=
  let guess : Int := (Nat.log2 n : Int) - Nat.log2 d
  let (up, down) := powerOfTwo guess
  if n * down < d * up then guess - 1 else guess

-- The number nearest to `n / d`, of two equally near ones the even one; none if that is past the
-- largest.
def ofRatio (n d : Nat) : Option Binary64 :=
  if n = 0 then some zero
  else
    let power := max (binaryLog n d - 52) (-1074)
    let (up, down) := powerOfTwo power
    let mantissa := halfEven (n * down) (d * up)
    let (mantissa, power) := if mantissa = 2 * least then (least, power + 1) else (mantissa, power)
    if 971 < power then none else some ⟨mantissa, power⟩

def toRatio (x : Binary64) : Nat × Nat :=
  let (up, down) := powerOfTwo x.power
  (x.mantissa * up, down)

def mul (x y : Binary64) : Option Binary64 :=
  ofRatio (x.toRatio.1 * y.toRatio.1) (x.toRatio.2 * y.toRatio.2)

def div (x y : Binary64) : Option Binary64 :=
  ofRatio (x.toRatio.1 * y.toRatio.2) (x.toRatio.2 * y.toRatio.1)

-- The numbers that round to `x`, as bounds over `4 * denominator`. The gap below a power of two is
-- half the gap above it.
def neighbourhood (x : Binary64) : Nat × Nat × Nat :=
  let (n, d) := x.toRatio
  let gap := (powerOfTwo x.power).1
  let below := if x.mantissa = least ∧ -1074 < x.power then gap else 2 * gap
  (4 * n - below, 4 * n + 2 * gap, 4 * d)

-- The nearest number of the grid `10 ^ e` that rounds to `x`, in units of the grid; of two equally
-- near ones the larger.
def onGrid (x : Binary64) (e : Int) : Option Nat :=
  let (low, high, d) := x.neighbourhood
  let (n, nd) := x.toRatio
  let unit := tenTo e.toNat
  let scale := tenTo (-e).toNat
  let hit (c : Nat) : Bool :=
    let v := c * unit * d
    if x.mantissa % 2 = 0 then low * scale ≤ v && v ≤ high * scale
    else low * scale < v && v < high * scale
  let c := n * scale / (nd * unit)
  let up : Bool := nd * unit ≤ 2 * (n * scale - c * (nd * unit))
  match hit c, hit (c + 1) with
  | true, true => some (if up then c + 1 else c)
  | true, false => some c
  | false, true => some (c + 1)
  | false, false => none

def decimalLog (n d : Nat) : (tries : Nat) → Int → Int
  | 0, e => e
  | tries + 1, e =>
    if n * tenTo (-e).toNat < d * tenTo e.toNat then
      if n * tenTo (1 - e).toNat < d * tenTo (e - 1).toNat then decimalLog n d tries (e - 1) else e
    else decimalLog n d tries (e + 1)

-- The fewest digits that name `x`: a coefficient and the exponent of its last digit. The coarsest
-- grid holds only the power of ten above `x`; seventeen digits always do.
def shortest (x : Binary64) : Nat × Int :=
  let (n, d) := x.toRatio
  let top := decimalLog n d 8 (binaryLog n d * 30103 / 100000)
  let shorter (k : Nat) : Option (Nat × Int) :=
    let e := top - k
    (x.onGrid e).map (·, e)
  ((List.range 18).findSome? shorter).getD (0, 0)

def toChars (x : Binary64) : List Char :=
  if x.mantissa = 0 then ['0']
  else
    let (coefficient, e) := x.shortest
    let digits := Nat.toDigits 10 coefficient
    if 0 ≤ e then digits ++ List.replicate e.toNat '0'
    else
      let places := e.natAbs
      let padded := List.replicate (places + 1 - digits.length) '0' ++ digits
      padded.take (padded.length - places) ++ '.' :: padded.drop (padded.length - places)

end Binary64
end MarketMaking
