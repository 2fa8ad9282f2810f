import MarketMaking.Decimal.Basic

/-! The written form of decimals: a minus sign if needed, and the coefficient with a point before
its last `scale` digits. Reading accepts more than is written: a plus sign, a point at either end,
underscores after the first digit, more places than there is room for, and an exponent. -/

namespace MarketMaking

def digitOf? (c : Char) : Option Nat :=
  if '0' ≤ c ∧ c ≤ '9' then some (c.toNat - '0'.toNat) else none

def natOf? : List Char → Option Nat
  | [] => none
  | cs => cs.foldlM (fun n c => (digitOf? c).map (n * 10 + ·)) 0

namespace Decimal

def paddedDigits (n scale : Nat) : List Char :=
  let digits := Nat.toDigits 10 n
  List.replicate (scale + 1 - digits.length) '0' ++ digits

def toChars (a : Decimal) : List Char :=
  let digits := paddedDigits a.coefficient.natAbs a.scale
  let whole := digits.length - a.scale
  (if a.coefficient < 0 ∨ a.negativeZero then ['-'] else []) ++
    digits.take whole ++ (if a.scale = 0 then [] else '.' :: digits.drop whole)

def toText (a : Decimal) : String := String.ofList a.toChars

instance : ToString Decimal := ⟨toText⟩

def idleTail (cs : List Char) : Bool := cs.all fun c => c == '_' || (digitOf? c).isSome

-- Takes leave of the digits that do not fit: the first of them rounds the coefficient, half up, at
-- the cost of a place if that pushes it out of range.
def dismiss (coefficient scale first : Nat) : Option (Nat × Nat) :=
  if first < 5 then some (coefficient, scale)
  else if coefficient + 1 < limit then some (coefficient + 1, scale)
  else if scale = 0 then none
  else some ((coefficient + 5) / 10, scale - 1)

def isShort (coefficient : Nat) : Bool := coefficient / 10 + 255 < UInt64.size / 10

-- Reads digits with at most one point into a coefficient and a scale. `started` tells whether a
-- digit was read, which an underscore needs before it. Underscores are passed over; only behind the
-- last place of a short coefficient one counts as the digit that decides, a zero.
def readDigits (coefficient scale : Nat) (point started : Bool) :
    List Char → Option (Nat × Nat)
  | [] => if started then some (coefficient, scale) else none
  | c :: cs =>
    match digitOf? c with
    | some d =>
      if point ∧ (scale = 28 ∨ limit ≤ coefficient * 10 + d) then
        if idleTail cs then dismiss coefficient scale d else none
      else if limit ≤ coefficient * 10 + d then none
      else readDigits (coefficient * 10 + d) (if point then scale + 1 else scale) point true cs
    | none =>
      if c = '_' ∧ started then
        if point ∧ scale = 28 ∧ isShort coefficient then
          if idleTail cs then some (coefficient, scale) else none
        else readDigits coefficient scale point started cs
      else if c = '.' ∧ !point then readDigits coefficient scale true started cs
      else none

def ofPositional? (cs : List Char) : Option Decimal :=
  let (negative, digits) :=
    match cs with
    | '-' :: rest => (true, rest)
    | '+' :: rest => (false, rest)
    | _ => (false, cs)
  (readDigits 0 0 false false digits).bind fun (coefficient, scale) =>
    ofScaled? (if negative then -(coefficient : Int) else coefficient) scale

def halfUp (n d : Nat) : Nat := (n + d / 2) / d

-- The point moved to the left. Digits pushed out of the places there are round the last one that
-- stays, a half going away from zero. A minus sign stays even if no digit does.
def shiftLeft? (a : Decimal) (places : Nat) : Option Decimal :=
  let scale := a.scale + places
  ofMagnitude? (decide (a.coefficient < 0))
    (halfUp a.coefficient.natAbs (tenTo (scale - 28))) (min scale 28)

-- An exponent down to `-28` moves the point to the left. One that is at most the scale moves it to
-- the right; a larger one, up to `28`, gives a whole number.
def scaled? (base : Decimal) (exponent : Int) : Option Decimal :=
  if exponent < 0 then
    if exponent < -28 then none else base.shiftLeft? exponent.natAbs
  else if exponent.natAbs ≤ base.scale then
    ofScaled? base.coefficient (base.scale - exponent.natAbs)
  else if 28 < exponent.natAbs then none
  else ofScaled? (base.coefficient * tenTo (exponent.natAbs - base.scale)) 0

def exponentOf? (cs : List Char) : Option Int :=
  let unsigned (cs : List Char) : Option Nat :=
    match cs with
    | '+' :: rest => natOf? rest
    | _ => natOf? cs
  match cs with
  | '-' :: rest => (unsigned rest).map fun n => -(n : Int)
  | _ => (unsigned cs).map Int.ofNat

def ofScientific? (cs : List Char) : Option Decimal :=
  let isLetter (c : Char) : Bool := c == 'e' || c == 'E'
  match cs.dropWhile (!isLetter ·) with
  | [] => none
  | _ :: exponent => do
    (← ofPositional? (cs.takeWhile (!isLetter ·))).scaled? (← exponentOf? exponent)

def ofChars? (cs : List Char) : Option Decimal := ofPositional? cs <|> ofScientific? cs

def ofText? (s : String) : Option Decimal := ofChars? s.toList

end Decimal
end MarketMaking
