import MarketMaking.Overflow

/-! Points in time: seconds since 1970 in universal time and nanoseconds within the second, over the
years -262143 to 262142. The written form is RFC 3339 with the letter `Z`. -/

namespace MarketMaking

-- A leap second is the second before it, continued past its billion nanoseconds. It may follow any
-- second, not only the last of a minute.
structure Timestamp where
  second : Int
  nano : Nat
  second_ge : -8334601228800 ≤ second := by decide
  second_le : second ≤ 8210266876799 := by decide
  nano_lt : nano < 2000000000 := by decide
  deriving DecidableEq

namespace Timestamp

def ofParts? (second : Int) (nano : Nat) : Option Timestamp :=
  if h : -8334601228800 ≤ second ∧ second ≤ 8210266876799 ∧ nano < 2000000000 then
    some ⟨second, nano, h.1, h.2.1, h.2.2⟩
  else none

def epoch : Timestamp := ⟨0, 0, by decide, by decide, by decide⟩

instance : Inhabited Timestamp := ⟨epoch⟩

def ofNanos? (n : Int) : Option Timestamp := ofParts? (n / 1000000000) (n % 1000000000).toNat
def ofMillis? (ms : Int) : Option Timestamp := ofNanos? (ms * 1000000)

def toNanos (t : Timestamp) : Int := t.second * 1000000000 + t.nano

def toMillis (t : Timestamp) : Int := t.second * 1000 + t.nano / 1000000

-- The time so many nanoseconds later, or earlier. A step of less than a second can stay inside a
-- leap second or go back into the second that it continues. A step that leaves it otherwise counts
-- from the second before it when it goes forward, and from the second after it when it goes back.
def shift (t : Timestamp) (nanos : Int) : Checked Timestamp :=
  Checked.ofOption .clock <|
    if 1000000000 ≤ t.nano ∧ -1000000000 < nanos ∧ t.nano + nanos < 2000000000 then
      ofParts? t.second (t.nano + nanos).toNat
    else if 1000000000 ≤ t.nano ∧ 0 < nanos then ofNanos? (t.toNanos - 1000000000 + nanos)
    else ofNanos? (t.toNanos + nanos)

-- The time so many milliseconds later, or earlier. A step is a signed word that has an opposite,
-- which the least one has not.
def advance (t : Timestamp) (ms : Int) : Checked Timestamp :=
  if ms.natAbs < 9223372036854775808 then t.shift (ms * 1000000) else .error .span

structure Date where
  year : Int
  month : Nat
  day : Nat

-- Days since 1970-01-01 of a day of the proleptic Gregorian calendar. Years are counted from March,
-- so that a leap day ends its year and the months before it have lengths that repeat every five
-- months (153 days).
def Date.toDays (d : Date) : Int :=
  let y := if d.month ≤ 2 then d.year - 1 else d.year
  let era := y / 400
  let yearOfEra := y - era * 400
  let month : Int := if 2 < d.month then d.month - 3 else d.month + 9
  let dayOfYear := (153 * month + 2) / 5 + d.day - 1
  era * 146097 + (yearOfEra * 365 + yearOfEra / 4 - yearOfEra / 100 + dayOfYear) - 719468

def Date.ofDays (days : Int) : Date :=
  let z := days + 719468
  let era := z / 146097
  let dayOfEra := z - era * 146097
  let yearOfEra := (dayOfEra - dayOfEra / 1460 + dayOfEra / 36524 - dayOfEra / 146096) / 365
  let dayOfYear := dayOfEra - (365 * yearOfEra + yearOfEra / 4 - yearOfEra / 100)
  let fromMarch := (5 * dayOfYear + 2) / 153
  let month := if fromMarch < 10 then fromMarch + 3 else fromMarch - 9
  { year := yearOfEra + era * 400 + (if month ≤ 2 then 1 else 0)
    month := month.toNat
    day := (dayOfYear - (153 * fromMarch + 2) / 5 + 1).toNat }

def isLeapYear (year : Int) : Bool := year % 4 == 0 && (year % 100 != 0 || year % 400 == 0)

def daysInMonth (year : Int) (month : Nat) : Nat :=
  if month = 2 then (if isLeapYear year then 29 else 28)
  else if month = 4 ∨ month = 6 ∨ month = 9 ∨ month = 11 then 30 else 31

def padded (width n : Nat) : List Char :=
  let digits := Nat.toDigits 10 n
  List.replicate (width - digits.length) '0' ++ digits

def yearChars (year : Int) : List Char :=
  if 0 ≤ year ∧ year ≤ 9999 then padded 4 year.toNat
  else (if year < 0 then '-' else '+') :: padded 4 year.natAbs

def fractionChars (nano : Nat) : List Char :=
  if nano = 0 then []
  else if nano % 1000000 = 0 then '.' :: padded 3 (nano / 1000000)
  else if nano % 1000 = 0 then '.' :: padded 6 (nano / 1000)
  else '.' :: padded 9 nano

-- A leap second counts on within its minute, so only the last of a minute shows as the sixtieth.
-- Any other looks like the second after it.
def toChars (t : Timestamp) : List Char :=
  let date := Date.ofDays (t.second / 86400)
  let ofDay := (t.second % 86400).toNat
  yearChars date.year ++ '-' :: padded 2 date.month ++ '-' :: padded 2 date.day ++
    'T' :: padded 2 (ofDay / 3600) ++ ':' :: padded 2 (ofDay / 60 % 60) ++
    ':' :: padded 2 (ofDay % 60 + t.nano / 1000000000) ++
    fractionChars (t.nano % 1000000000) ++ ['Z']

def toText (t : Timestamp) : String := String.ofList t.toChars

end Timestamp
end MarketMaking
