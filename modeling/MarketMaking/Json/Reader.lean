import MarketMaking.Json.Source
import MarketMaking.Text.Quoted
import MarketMaking.Timestamp.Reader

/-! Typed readers over JSON sources. A reader answers with the first thing in text order that is
wrong: either the text is malformed there, or it is well formed and does not match the type. -/

namespace MarketMaking.Json

inductive Found where
  | null
  | boolean (b : Bool)
  | integer (n : Int)
  | float
  | text (s : String)
  | sequence
  | map
  | bareVariant

def Found.describe : Found → String
  | .null => "null"
  | .boolean b => "boolean `" ++ toString b ++ "`"
  | .integer n => "integer `" ++ toString n ++ "`"
  | .float => "floating point"
  | .text s => "string " ++ Text.quoted s
  | .sequence => "sequence"
  | .map => "map"
  | .bareVariant => "unit variant"

inductive Mismatch where
  | type (found : Found) (wanted : String)
  | value (found : Found) (wanted : String)
  | length (found : Nat) (wanted : String)
  | variant (name : String) (known : List String)
  | duplicate (field : String)
  | missing (field : String)
  | timestamp (fault : Timestamp.Fault)

def backquoted (s : String) : String := "`" ++ s ++ "`"

def oneOf : List String → String
  | [a, b] => backquoted a ++ " or " ++ backquoted b
  | names => "one of " ++ String.intercalate ", " (names.map backquoted)

def Mismatch.message : Mismatch → String
  | .type found wanted => "invalid type: " ++ found.describe ++ ", expected " ++ wanted
  | .value found wanted => "invalid value: " ++ found.describe ++ ", expected " ++ wanted
  | .length found wanted => "invalid length " ++ toString found ++ ", expected " ++ wanted
  | .variant name known => "unknown variant " ++ backquoted name ++ ", expected " ++ oneOf known
  | .duplicate field => "duplicate field " ++ backquoted field
  | .missing field => "missing field " ++ backquoted field
  | .timestamp fault => fault.message

inductive ReadError where
  | malformed
  | mismatch (m : Mismatch)

abbrev Reader (α : Type) := Source → Except ReadError α

def mismatch (m : Mismatch) : Except ReadError α := .error (.mismatch m)

namespace Source

def found : Reader Found
  | .broken | .string none => .error .malformed
  | .null => .ok .null
  | .bool b => .ok (.boolean b)
  | .number n =>
    match n.value with
    | none => .error .malformed
    | some (.unsigned k) => .ok (.integer k)
    | some (.negative k) => .ok (.integer k)
    | some (.float _ _) => .ok .float
  | .string (some s) => .ok (.text s)
  | .array _ _ => .ok .sequence
  | .object _ _ => .ok .map

def refuse (wanted : String) (s : Source) : Except ReadError α := do
  mismatch (.type (← s.found) wanted)

def readText : Reader String
  | .string (some s) => .ok s
  | s => s.refuse "a string"

def readBool : Reader Bool
  | .bool b => .ok b
  | s => s.refuse "a boolean"

def readNull (wanted : String) : Reader Unit
  | .null => .ok ()
  | s => s.refuse wanted

def readWord (wanted : String) : Reader UInt64
  | .number n =>
    match n.value with
    | some (.unsigned k) => .ok (.ofNat k)
    | some (.negative k) => mismatch (.value (.integer k) wanted)
    | _ => (Source.number n).refuse wanted
  | s => s.refuse wanted

def readOption (read : Reader α) : Reader (Option α)
  | .null => .ok none
  | s => (read s).map some

def readList (read : Reader α) : Reader (List α)
  | .array items closed => do
    let items ← items.mapM read
    if closed then return items else throw .malformed
  | s => s.refuse "a sequence"

def readTimestamp : Reader Timestamp
  | .string (some s) =>
    match Timestamp.ofText s with
    | .ok t => .ok t
    | .error fault => mismatch (.timestamp fault)
  | s => s.refuse "an RFC 3339 formatted date and time string"

def decimalWanted : String := "a Decimal type representing a fixed-point number"

def readDecimal : Reader Decimal
  | .number n =>
    match n.value with
    | none => .error .malformed
    | some (.unsigned k) => wanted (.integer k) (Decimal.ofInt? k)
    | some (.negative k) => wanted (.integer k) (Decimal.ofInt? k)
    | some (.float negative x) =>
      wanted .float (Decimal.ofPositional? (if negative then '-' :: x.toChars else x.toChars))
  | .string (some s) => wanted (.text s) (Decimal.ofText? s)
  | s => s.refuse decimalWanted
where
  wanted (found : Found) : Option Decimal → Except ReadError Decimal
    | some d => .ok d
    | none => mismatch (.value found decimalWanted)

def variantOf (variants : List (String × α)) (name : String) : Except ReadError α :=
  match variants.find? (·.1 == name) with
  | some (_, a) => .ok a
  | none => mismatch (.variant name (variants.map (·.1)))

-- The name of the only member of an object and its content. What follows the content is to be
-- checked once the content is read.
def variantName : Source → Except ReadError (String × Source × Bool)
  | .object ((some name, content) :: rest) closed =>
    .ok (name, content, rest.isEmpty && closed)
  | _ => .error .malformed

def readVariant (variants : List (String × α)) : Reader α
  | .string (some name) => variantOf variants name
  | s => do
    let (name, content, alone) ← s.variantName
    let a ← variantOf variants name
    content.readNull "unit"
    if alone then return a else throw .malformed

structure Field where
  name : String
  check : Source → Except ReadError Unit

def field (name : String) (read : Reader α) : Field := ⟨name, fun s => (read s).map fun _ => ()⟩

-- How a record is asked for: how messages call it, its fields in order, and whether fields may
-- be left out at the end of an array because they have defaults.
structure Shape where
  title : String
  fields : List Field
  lenient : Bool := false

def Shape.wanted (shape : Shape) : String :=
  shape.title ++ " with " ++ toString shape.fields.length ++
    (if shape.fields.length = 1 then " element" else " elements")

structure Members where
  values : List (String × Source)

-- Goes through the members in text order. A name seen before is refused before its value is looked
-- at; a name nobody asked for only has to be well formed.
def acceptMembers (fields : List Field) (seen : List (String × Source)) :
    List (Option String × Source) → Except ReadError (List (String × Source))
  | [] => .ok seen.reverse
  | (some name, value) :: rest =>
    match fields.find? (·.name == name) with
    | none =>
      if value.passable then acceptMembers fields seen rest else .error .malformed
    | some f =>
      if seen.any (·.1 == name) then mismatch (.duplicate name)
      else do
        f.check value
        acceptMembers fields ((name, value) :: seen) rest
  | (none, _) :: _ => .error .malformed

def acceptItems (shape : Shape) (closed : Bool) (count : Nat) :
    List Field → List Source → Except ReadError (List (String × Source))
  | [], [] => if closed then .ok [] else .error .malformed
  | [], _ :: _ => .error .malformed
  | f :: fields, item :: items => do
    f.check item
    return (f.name, item) :: (← acceptItems shape closed (count + 1) fields items)
  | _ :: _, [] =>
    if !closed then .error .malformed
    else if shape.lenient then .ok []
    else mismatch (.length count shape.wanted)

def readRecord (shape : Shape) : Reader Members
  | .object members closed => do
    let values ← acceptMembers shape.fields [] members
    if closed then return ⟨values⟩ else throw .malformed
  | .array items closed => do
    return ⟨← acceptItems shape closed 0 shape.fields items⟩
  | s => s.refuse shape.title

namespace Members

def get? (m : Members) (name : String) : Option Source :=
  (m.values.find? (·.1 == name)).map (·.2)

def required (m : Members) (name : String) (read : Reader α) : Except ReadError α :=
  match m.get? name with
  | some s => read s
  | none => mismatch (.missing name)

def optional (m : Members) (name : String) (read : Reader α) : Except ReadError (Option α) :=
  match m.get? name with
  | some s => readOption read s
  | none => .ok none

def withDefault (m : Members) (name : String) (default : α) (read : Reader α) :
    Except ReadError α :=
  match m.get? name with
  | some s => read s
  | none => .ok default

end Members
end Source

def parse (read : Reader α) (text : String) : Except ReadError α := do
  let (source, clean) := Source.ofText text
  let a ← read source
  if clean then return a else throw .malformed

end MarketMaking.Json
