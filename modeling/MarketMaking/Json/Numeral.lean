import MarketMaking.Binary64

/-! Number literals of JSON and the numbers they stand for: a whole number that fits 64 bits is kept
exactly, everything else is a binary64 number. -/

namespace MarketMaking.Json

structure Numeral where
  negative : Bool
  whole : Nat
  fraction : List (Fin 10)
  exponent : Option Int
  deriving DecidableEq

def Numeral.ofNat (n : Nat) : Numeral := ⟨false, n, [], none⟩

inductive Number where
  | unsigned (n : Nat)
  | negative (n : Int)
  | float (negative : Bool) (magnitude : Binary64)

namespace Numeral

def takeDigits (n : Nat) : List Nat → Nat × List Nat
  | [] => (n, [])
  | d :: ds => if n * 10 + d < UInt64.size then takeDigits (n * 10 + d) ds else (n, d :: ds)

def wholeDigits (n : Numeral) : List Nat :=
  (Nat.toDigits 10 n.whole).map fun c => c.toNat - '0'.toNat

-- The first digits that fit 64 bits, and the power of ten they are to be scaled by. Each whole
-- digit left out counts, each digit taken after the point counts the other way.
def significand (n : Numeral) : Nat × Int :=
  let (whole, dropped) := takeDigits 0 n.wholeDigits
  let (all, idle) := takeDigits whole (n.fraction.map Fin.val)
  (all, (dropped.length : Int) - (n.fraction.length - idle.length : Nat) + n.exponent.getD 0)

def powerOfTen (k : Nat) : Option Binary64 := Binary64.ofRatio (tenTo k) 1

def shrink (unit x : Binary64) : Nat → Option Binary64
  | 0 => some x
  | rounds + 1 => if x.mantissa = 0 then some x else (x.div unit).bind (shrink unit · rounds)

def scaleByTen (x : Binary64) (e : Int) : Option Binary64 :=
  if x.mantissa = 0 then some x
  else if 308 < e then none
  else if 0 ≤ e then (powerOfTen e.toNat).bind x.mul
  else do
    let rounds := (e.natAbs - 1) / 308
    let y ← shrink (← powerOfTen 308) x rounds
    if y.mantissa = 0 then return y
    y.div (← powerOfTen (e.natAbs - 308 * rounds))

def magnitude (n : Numeral) : Option Binary64 :=
  let (significand, e) := n.significand
  (Binary64.ofRatio significand 1).bind (scaleByTen · e)

def value (n : Numeral) : Option Number :=
  if n.fraction.isEmpty && n.exponent.isNone then
    if !n.negative ∧ n.whole < UInt64.size then some (.unsigned n.whole)
    else if n.negative ∧ 0 < n.whole ∧ n.whole ≤ UInt64.size / 2 then
      some (.negative (-(n.whole : Int)))
    else n.magnitude.map (.float n.negative)
  else n.magnitude.map (.float n.negative)

def toChars (n : Numeral) : List Char :=
  (if n.negative then ['-'] else []) ++ Nat.toDigits 10 n.whole ++
    (if n.fraction.isEmpty then [] else '.' :: n.fraction.map fun d => Nat.digitChar d.val) ++
    match n.exponent with
    | none => []
    | some e => 'e' :: (if e < 0 then '-' :: Nat.toDigits 10 e.natAbs else Nat.toDigits 10 e.natAbs)

end Numeral
end MarketMaking.Json
