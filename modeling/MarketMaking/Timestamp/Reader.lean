import MarketMaking.Decimal.Text
import MarketMaking.Text.Blank
import MarketMaking.Timestamp

/-! Reading timestamps. Beyond the written form, blank space may surround the parts of a date and a
time, the letter between them may be a small `t` or a space, and any offset from universal time may
take the place of `Z`. -/

namespace MarketMaking.Timestamp

inductive Fault where
  | invalid
  | tooShort
  | tooLong
  | outOfRange
  | impossible
  deriving DecidableEq

def Fault.message : Fault → String
  | .invalid => "input contains invalid characters"
  | .tooShort => "premature end of input"
  | .tooLong => "trailing input"
  | .outOfRange => "input is out of range"
  | .impossible => "no possible date and time matching input"

abbrev Part := StateT (List Char) (Except Fault)

def blank : Part Unit := modify Text.trimLeft

def number (most : Nat) : Part Nat := fun cs =>
  let digits := (cs.take most).takeWhile fun c => (digitOf? c).isSome
  match cs, natOf? digits with
  | [], _ => .error .tooShort
  | _, none => .error .invalid
  | _, some n => .ok (n, cs.drop digits.length)

def within (low high : Nat) : Part Nat := do
  blank
  let n ← number 2
  if low ≤ n ∧ n ≤ high then return n else throw .outOfRange

-- Without a sign a year has at most four digits; with one, any number of them.
def year : Part Int := do
  blank
  let cs ← get
  let n : Int ←
    match cs with
    | '-' :: rest => do set rest; let n ← number rest.length; pure (-(n : Int))
    | '+' :: rest => do set rest; let n ← number rest.length; pure (n : Int)
    | _ => do let n ← number 4; pure (n : Int)
  if -2147483648 ≤ n ∧ n ≤ 2147483647 then return n else throw .outOfRange

def mark (c : Char) : Part Unit := do
  blank
  match ← get with
  | [] => throw .tooShort
  | c' :: rest => if c' = c then set rest else throw .invalid

def separator : Part Unit := fun
  | [] => .error .tooShort
  | c :: rest => if c = 'T' ∨ c = 't' ∨ c = ' ' then .ok ((), rest) else .error .invalid

-- A fraction of a second in nanoseconds; digits after the ninth are passed over.
def fraction : Part Nat := do
  match ← get with
  | '.' :: cs =>
    set cs
    let n ← number 9
    let rest ← get
    set (rest.dropWhile fun c => (digitOf? c).isSome)
    return n * tenTo (9 - (cs.length - rest.length))
  | _ => return 0

-- Two digits, the first of them at most five if `sixty` is set. A text of one byte is too short,
-- anything else that is not two digits is invalid.
def twoDigits (sixty : Bool) : Part Nat := fun
  | [] => .error .tooShort
  | [c] => .error (if c.utf8Size < 2 then .tooShort else .invalid)
  | c :: d :: rest =>
    match digitOf? c, digitOf? d with
    | some m, some n => if sixty ∧ 6 ≤ m then .error .outOfRange else .ok (m * 10 + n, rest)
    | _, _ => .error .invalid

def offsetSign : Part Bool := fun
  | [] => .error .tooShort
  | c :: rest =>
    if c = '+' then .ok (false, rest)
    else if c = '-' ∨ c = '\u2212' then .ok (true, rest)
    else .error .invalid

def offset : Part Int := do
  let cs ← get
  if cs.head? = some 'Z' ∨ cs.head? = some 'z' then
    set cs.tail
    return 0
  else if (cs.take 3).map Char.toUpper = ['U', 'T', 'C'] then
    set (cs.drop 3)
    return 0
  else
    let negative ← offsetSign
    let hours ← twoDigits false
    modify fun cs => cs.dropWhile fun c => c == ':' || Text.isBlank c
    let minutes ← twoDigits true
    let seconds : Int := hours * 3600 + minutes * 60
    return if negative then -seconds else seconds

structure Reading where
  date : Date
  hour : Nat
  minute : Nat
  second : Nat
  nano : Nat
  offset : Int

def reading : Part Reading := do
  let year ← year
  mark '-'
  let month ← within 1 12
  mark '-'
  let day ← within 1 31
  separator
  let hour ← within 0 23
  mark ':'
  let minute ← within 0 59
  mark ':'
  let second ← within 0 60
  let nano ← fraction
  blank
  let offset ← offset
  return ⟨⟨year, month, day⟩, hour, minute, second, nano, offset⟩

def Reading.toTimestamp (r : Reading) : Except Fault Timestamp :=
  if r.date.year < -262143 ∨ 262142 < r.date.year ∨
      daysInMonth r.date.year r.date.month < r.date.day ∨
      r.offset ≤ -86400 ∨ 86400 ≤ r.offset then .error .outOfRange
  else
    let leap := r.second = 60
    let ofDay : Int := r.hour * 3600 + r.minute * 60 + (if leap then 59 else r.second)
    match ofParts? (r.date.toDays * 86400 + ofDay - r.offset)
        (if leap then r.nano + 1000000000 else r.nano) with
    | some t => .ok t
    | none => .error .impossible

def ofChars (cs : List Char) : Except Fault Timestamp := do
  let (r, rest) ← reading cs
  if !(Text.trimLeft rest).isEmpty then throw .tooLong
  r.toTimestamp

def ofText (s : String) : Except Fault Timestamp := ofChars s.toList

end MarketMaking.Timestamp
