import MarketMaking.Decimal.Text
import MarketMaking.Json.Value

/-! A JSON text as far as it is well formed. Where the grammar is broken the tree has a `broken`
leaf and the containers around it stay open, so a reader that walks it in text order meets the first
fault where it would meet it in the text. -/

namespace MarketMaking.Json

inductive Source where
  | broken
  | null
  | bool (b : Bool)
  | number (n : Numeral)
  -- The content is missing when its escapes name half of a surrogate pair: such a string can
  -- be passed over but not read.
  | string (content : Option String)
  | array (items : List Source) (closed : Bool)
  -- Names are the contents of strings. Where something else stands in the place of a name the
  -- object stays open.
  | object (members : List (Option String × Source)) (closed : Bool)

namespace Source

mutual

def ofJson : Json → Source
  | .null => .null
  | .bool b => .bool b
  | .number n => .number n
  | .string s => .string (some s)
  | .array items => .array (ofItems items) true
  | .object members => .object (ofMembers members) true

def ofItems : List Json → List Source
  | [] => []
  | item :: rest => ofJson item :: ofItems rest

def ofMembers : List (String × Json) → List (Option String × Source)
  | [] => []
  | (name, value) :: rest => (some name, ofJson value) :: ofMembers rest

end

mutual

def passable : Source → Bool
  | .broken => false
  | .array items closed => passableItems items && closed
  | .object members closed => passableMembers members && closed
  | _ => true

def passableItems : List Source → Bool
  | [] => true
  | item :: rest => item.passable && passableItems rest

def passableMembers : List (Option String × Source) → Bool
  | [] => true
  | (_, value) :: rest => value.passable && passableMembers rest

end

inductive Piece where
  | char (c : Char)
  | code (n : Nat)

def hexDigitOf? (c : Char) : Option Nat :=
  if '0' ≤ c ∧ c ≤ '9' then some (c.toNat - '0'.toNat)
  else if 'a' ≤ c ∧ c ≤ 'f' then some (c.toNat - 'a'.toNat + 10)
  else if 'A' ≤ c ∧ c ≤ 'F' then some (c.toNat - 'A'.toNat + 10)
  else none

def escaped? (c : Char) : Option Char :=
  if c = '"' ∨ c = '\\' ∨ c = '/' then some c
  else if c = 'b' then some '\x08'
  else if c = 'f' then some '\x0c'
  else if c = 'n' then some '\n'
  else if c = 'r' then some '\r'
  else if c = 't' then some '\t'
  else none

def pieces : List Char → Option (List Piece × List Char)
  | [] => none
  | '"' :: cs => some ([], cs)
  | '\\' :: 'u' :: a :: b :: c :: d :: cs => do
    let n := (((← hexDigitOf? a) * 16 + (← hexDigitOf? b)) * 16 + (← hexDigitOf? c)) * 16 +
      (← hexDigitOf? d)
    let (rest, cs) ← pieces cs
    return (.code n :: rest, cs)
  | '\\' :: c :: cs => do
    let c ← escaped? c
    let (rest, cs) ← pieces cs
    return (.char c :: rest, cs)
  | c :: cs =>
    if c.toNat < 0x20 then none
    else do
      let (rest, cs) ← pieces cs
      return (.char c :: rest, cs)

-- The characters of pieces. Codes of surrogates stand in pairs, high before low.
def charsOf : List Piece → Option (List Char)
  | [] => some []
  | .char c :: rest => (charsOf rest).map (c :: ·)
  | .code high :: .code low :: rest =>
    if 0xd800 ≤ high ∧ high < 0xdc00 then
      if 0xdc00 ≤ low ∧ low < 0xe000 then
        (charsOf rest).map (Char.ofNat (0x10000 + (high - 0xd800) * 0x400 + (low - 0xdc00)) :: ·)
      else none
    else if 0xdc00 ≤ high ∧ high < 0xe000 then none
    else (charsOf (.code low :: rest)).map (Char.ofNat high :: ·)
  | .code n :: rest =>
    if 0xd800 ≤ n ∧ n < 0xe000 then none else (charsOf rest).map (Char.ofNat n :: ·)

def contentOf (ps : List Piece) : Option String := (charsOf ps).map String.ofList

def memberName? : List Char → Option (Option String × List Char)
  | '"' :: cs => (pieces cs).map fun (ps, cs) => (contentOf ps, cs)
  | _ => none

def isDigit (c : Char) : Bool := (digitOf? c).isSome

def digitsOf (cs : List Char) : List (Fin 10) :=
  cs.filterMap fun c => (digitOf? c).bind fun n => if h : n < 10 then some ⟨n, h⟩ else none

def wholePart (cs : List Char) : Option (Nat × List Char) :=
  let digits := cs.takeWhile isDigit
  match digits with
  | '0' :: _ :: _ => none
  | _ => (natOf? digits).map (·, cs.drop digits.length)

def fractionPart : List Char → Option (List (Fin 10) × List Char)
  | '.' :: cs =>
    let digits := cs.takeWhile isDigit
    if digits.isEmpty then none else some (digitsOf digits, cs.drop digits.length)
  | cs => some ([], cs)

def exponentPart (cs : List Char) : Option (Option Int × List Char) :=
  match cs with
  | 'e' :: cs | 'E' :: cs =>
    let (negative, cs) :=
      match cs with
      | '-' :: rest => (true, rest)
      | '+' :: rest => (false, rest)
      | _ => (false, cs)
    let digits := cs.takeWhile isDigit
    (natOf? digits).map fun n =>
      (some (if negative then -(n : Int) else n), cs.drop digits.length)
  | cs => some (none, cs)

def numeral (cs : List Char) : Option (Numeral × List Char) := do
  let (negative, cs) := match cs with | '-' :: rest => (true, rest) | _ => (false, cs)
  let (whole, cs) ← wholePart cs
  let (fraction, cs) ← fractionPart cs
  let (exponent, cs) ← exponentPart cs
  return (⟨negative, whole, fraction, exponent⟩, cs)

def isSpace (c : Char) : Bool := c == ' ' || c == '\n' || c == '\t' || c == '\x0d'

def skip (cs : List Char) : List Char := cs.dropWhile isSpace

def literal? (word cs : List Char) : Option (List Char) :=
  if cs.take word.length = word then some (cs.drop word.length) else none

mutual

def read : (fuel : Nat) → List Char → Source × Option (List Char)
  | 0, _ => (.broken, none)
  | fuel + 1, cs =>
    match skip cs with
    | 'n' :: cs => word .null (literal? ['u', 'l', 'l'] cs)
    | 't' :: cs => word (.bool true) (literal? ['r', 'u', 'e'] cs)
    | 'f' :: cs => word (.bool false) (literal? ['a', 'l', 's', 'e'] cs)
    | '"' :: cs =>
      match pieces cs with
      | none => (.broken, none)
      | some (ps, cs) => (.string (contentOf ps), some cs)
    | '[' :: cs =>
      match skip cs with
      | ']' :: cs => (.array [] true, some cs)
      | cs =>
        let (items, rest) := readItems fuel cs
        (.array items rest.isSome, rest)
    | '\x7b' :: cs =>
      match skip cs with
      | '\x7d' :: cs => (.object [] true, some cs)
      | cs =>
        let (members, rest) := readMembers fuel cs
        (.object members rest.isSome, rest)
    | c :: cs =>
      if c = '-' ∨ isDigit c then
        match numeral (c :: cs) with
        | none => (.broken, none)
        | some (n, cs) => (.number n, some cs)
      else (.broken, none)
    | [] => (.broken, none)
where
  word (value : Source) : Option (List Char) → Source × Option (List Char)
    | none => (.broken, none)
    | some cs => (value, some cs)

def readItems : (fuel : Nat) → List Char → List Source × Option (List Char)
  | 0, _ => ([.broken], none)
  | fuel + 1, cs =>
    match read fuel cs with
    | (item, none) => ([item], none)
    | (item, some cs) =>
      match skip cs with
      | ']' :: cs => ([item], some cs)
      | ',' :: cs =>
        let (items, rest) := readItems fuel cs
        (item :: items, rest)
      | _ => ([item], none)

def readMembers : (fuel : Nat) → List Char → List (Option String × Source) × Option (List Char)
  | 0, _ => ([], none)
  | fuel + 1, cs =>
    match memberName? (skip cs) with
    | none => ([], none)
    | some (name, cs) =>
      match skip cs with
      | ':' :: cs =>
        match read fuel cs with
        | (value, none) => ([(name, value)], none)
        | (value, some cs) =>
          match skip cs with
          | '\x7d' :: cs => ([(name, value)], some cs)
          | ',' :: cs =>
            let (members, rest) := readMembers fuel cs
            ((name, value) :: members, rest)
          | _ => ([(name, value)], none)
      | _ => ([(name, .broken)], none)

end

-- A whole text: the value it starts with, and whether nothing but space follows. Every level of
-- nesting and every item takes a character, so two steps for each are enough.
def ofText (text : String) : Source × Bool :=
  let cs := text.toList
  match read (2 * cs.length + 2) cs with
  | (source, none) => (source, false)
  | (source, some rest) => (source, (skip rest).isEmpty)

end Source
end MarketMaking.Json
