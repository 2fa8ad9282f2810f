import MarketMaking.Json.Numeral

/-! JSON values and the text they are written as, without blank space. Strings escape quotes,
backslashes and the controls below the space, and hold everything else as it is. -/

namespace MarketMaking

inductive Json where
  | null
  | bool (b : Bool)
  | number (n : Json.Numeral)
  | string (s : String)
  | array (items : List Json)
  | object (members : List (String × Json))
deriving Inhabited

namespace Json

def ofNat (n : Nat) : Json := .number (.ofNat n)
def ofWord (n : UInt64) : Json := .ofNat n.toNat
def ofInt (n : Int) : Json := .number ⟨decide (n < 0), n.natAbs, [], none⟩

def ofOption (f : α → Json) : Option α → Json
  | none => .null
  | some a => f a

def ofList (f : α → Json) (items : List α) : Json := .array (items.map f)

def controlDigits (c : Char) : List Char :=
  ['0', '0', Nat.digitChar (c.toNat / 16), Nat.digitChar (c.toNat % 16)]

def escapeChar (c : Char) : List Char :=
  if c = '"' ∨ c = '\\' then ['\\', c]
  else if c = '\x08' then ['\\', 'b']
  else if c = '\t' then ['\\', 't']
  else if c = '\n' then ['\\', 'n']
  else if c = '\x0c' then ['\\', 'f']
  else if c = '\r' then ['\\', 'r']
  else if c.toNat < 0x20 then '\\' :: 'u' :: controlDigits c
  else [c]

def stringChars (s : String) : List Char := '"' :: s.toList.flatMap escapeChar ++ ['"']

mutual

def toChars : Json → List Char
  | .null => ['n', 'u', 'l', 'l']
  | .bool true => ['t', 'r', 'u', 'e']
  | .bool false => ['f', 'a', 'l', 's', 'e']
  | .number n => n.toChars
  | .string s => stringChars s
  | .array items => '[' :: itemsChars items
  | .object members => '\x7b' :: membersChars members

def itemsChars : List Json → List Char
  | [] => [']']
  | [item] => item.toChars ++ [']']
  | item :: next :: rest => item.toChars ++ ',' :: itemsChars (next :: rest)

def membersChars : List (String × Json) → List Char
  | [] => ['\x7d']
  | [(name, value)] => stringChars name ++ ':' :: value.toChars ++ ['\x7d']
  | (name, value) :: next :: rest =>
    stringChars name ++ ':' :: value.toChars ++ ',' :: membersChars (next :: rest)

end

def toText (j : Json) : String := String.ofList j.toChars

end Json
end MarketMaking
