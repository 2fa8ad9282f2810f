import MarketMaking.Proofs.Records
import MarketMaking.Proofs.TimestampText
import MarketMaking.Wire.Model

/-! Values that members of records hold, as they are written and read again. -/

namespace MarketMaking
open Json Json.Source

theorem readDecimal_toJson (a : Decimal) : readDecimal (ofJson a.toJson) = .ok a.plain := by
  rw [Decimal.toJson, ofJson, readDecimal, a.ofText?_toText]
  rfl

theorem readWord_ofWord (wanted : String) (n : UInt64) :
    readWord wanted (ofJson (.ofWord n)) = .ok n := by
  have value : (Numeral.ofNat n.toNat).value = some (.unsigned n.toNat) := by
    simp [Numeral.value, Numeral.ofNat, n.toNat_lt_size]
  rw [Json.ofWord, Json.ofNat, ofJson, readWord, value]
  simp

theorem readOption_ofOption {read : Reader α} {write : β → Json} {f : β → α}
    (reads : ∀ b, read (ofJson (write b)) = .ok (f b)) (present : ∀ b, ofJson (write b) ≠ .null)
    (o : Option β) : readOption read (ofJson (.ofOption write o)) = .ok (o.map f) := by
  cases o with
  | none => rfl
  | some b =>
    have written : readOption read (ofJson (write b)) = (read (ofJson (write b))).map some := by
      rw [readOption]
      exact present b
    rw [Json.ofOption, written, reads]
    rfl

theorem readList_ofList {read : Reader α} {write : α → Json}
    (reads : ∀ a, read (ofJson (write a)) = .ok a) (items : List α) :
    readList read (ofJson (.ofList write items)) = .ok items := by
  have all : (ofItems (items.map write)).mapM read = .ok items := by
    induction items with
    | nil => rfl
    | cons a items ih =>
      rw [List.map_cons, ofItems, List.mapM_cons, reads, ih]
      rfl
  rw [Json.ofList, ofJson, readList, all]
  rfl

theorem readOption_decimal (o : Option Decimal) :
    readOption readDecimal (ofJson (.ofOption Decimal.toJson o)) = .ok (o.map Decimal.plain) :=
  readOption_ofOption readDecimal_toJson (fun _ => by rw [Decimal.toJson, ofJson]; nofun) o

theorem readOption_word (wanted : String) (o : Option UInt64) :
    readOption (readWord wanted) (ofJson (.ofOption .ofWord o)) = .ok o := by
  rw [readOption_ofOption (readWord_ofWord wanted)
    (fun _ => by rw [Json.ofWord, Json.ofNat, ofJson]; nofun), Option.map_id']

theorem readOption_text (o : Option String) :
    readOption readText (ofJson (.ofOption .string o)) = .ok o := by
  cases o <;> rfl

theorem readTimestamp_toJson (t : Timestamp) : readTimestamp (ofJson t.toJson) = .ok t.legible := by
  rw [Timestamp.toJson, ofJson, readTimestamp, t.ofText_toText]

theorem ClientId.read_toJson (id : ClientId) : ClientId.read (ofJson id.toJson) = .ok id := by
  rw [ClientId.read, ClientId.toJson, readWord_ofWord]
  rfl

theorem readOption_clientId (o : Option ClientId) :
    readOption ClientId.read (ofJson (.ofOption ClientId.toJson o)) = .ok o := by
  rw [readOption_ofOption ClientId.read_toJson
    (fun _ => by rw [ClientId.toJson, Json.ofWord, Json.ofNat, ofJson]; nofun), Option.map_id']

theorem Side.read_toJson (s : Side) : Side.read (ofJson s.toJson) = .ok s := by
  cases s <;> rfl

theorem OrderType.read_toJson (t : OrderType) : OrderType.read (ofJson t.toJson) = .ok t := by
  cases t <;> rfl

end MarketMaking
