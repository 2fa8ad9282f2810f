import MarketMaking.Decimal.Text

/-! Decimals as they are written and read again: the same number at the same scale, without the
minus sign that a zero may carry (`Decimal.ofText?_toText`). -/

namespace MarketMaking

theorem digitOf?_of_isDigit {c : Char} (digit : c.isDigit = true) :
    digitOf? c = some (c.toNat - '0'.toNat) := by
  have range : '0' ≤ c ∧ c ≤ '9' := by
    simpa [Char.isDigit, Char.le_def] using digit
  unfold digitOf?
  rw [if_pos range]

theorem digitOf?_eq_none {c : Char} (other : c.isDigit = false) : digitOf? c = none := by
  have range : ¬ ('0' ≤ c ∧ c ≤ '9') := by
    simpa [Char.isDigit, Char.le_def] using other
  unfold digitOf?
  rw [if_neg range]

theorem foldlM_digits {cs : List Char} (digits : ∀ c ∈ cs, c.isDigit = true) (n : Nat) :
    cs.foldlM (fun n c => (digitOf? c).map (n * 10 + ·)) n = some (Nat.ofDigitChars 10 cs n) := by
  induction cs generalizing n with
  | nil => rfl
  | cons c cs ih =>
    obtain ⟨first, rest⟩ := List.forall_mem_cons.mp digits
    rw [List.foldlM_cons, digitOf?_of_isDigit first, Nat.ofDigitChars_cons, Nat.mul_comm 10 n]
    exact ih rest _

theorem isDigit_toDigits {n : Nat} : ∀ c ∈ Nat.toDigits 10 n, c.isDigit = true :=
  fun _ here => Nat.isDigit_of_mem_toDigits (by decide) (by decide) here

theorem natOf?_toDigits (n : Nat) : natOf? (Nat.toDigits 10 n) = some n := by
  have value := foldlM_digits (isDigit_toDigits (n := n)) 0
  rw [Nat.ofDigitChars_toDigits (by decide) (by decide)] at value
  cases digits : Nat.toDigits 10 n with
  | nil => exact absurd digits Nat.toDigits_ne_nil
  | cons c cs => rw [digits] at value; exact value

theorem le_ofDigitChars (cs : List Char) (n : Nat) : n ≤ Nat.ofDigitChars 10 cs n := by
  induction cs generalizing n with
  | nil => exact Nat.le_refl n
  | cons c cs ih =>
    rw [Nat.ofDigitChars_cons]
    exact Nat.le_trans (by omega) (ih _)

namespace Decimal

theorem readDigits_digit {c : Char} (digit : c.isDigit = true) {n scale : Nat} {point : Bool}
    (fits : n * 10 + (c.toNat - '0'.toNat) < limit) (room : point = true → scale < 28)
    (started : Bool) (cs : List Char) :
    readDigits n scale point started (c :: cs) =
      readDigits (n * 10 + (c.toNat - '0'.toNat)) (if point then scale + 1 else scale) point true
        cs := by
  have places : ¬ (point = true ∧ (scale = 28 ∨ limit ≤ n * 10 + (c.toNat - '0'.toNat))) := by
    rintro ⟨on, full⟩
    have within := room on
    omega
  rw [readDigits, digitOf?_of_isDigit digit]
  simp only
  rw [if_neg places, if_neg (Nat.not_le.mpr fits)]

theorem readDigits_append {ds : List Char} (digits : ∀ c ∈ ds, c.isDigit = true) {n scale : Nat}
    {point started : Bool} (fits : Nat.ofDigitChars 10 ds n < limit)
    (places : point = true → scale + ds.length ≤ 28) (rest : List Char) :
    readDigits n scale point started (ds ++ rest) =
      readDigits (Nat.ofDigitChars 10 ds n) (if point then scale + ds.length else scale) point
        (started || !ds.isEmpty) rest := by
  induction ds generalizing n scale started with
  | nil => simp
  | cons c ds ih =>
    obtain ⟨first, others⟩ := List.forall_mem_cons.mp digits
    rw [List.length_cons] at places ⊢
    rw [Nat.ofDigitChars_cons, Nat.mul_comm 10 n] at fits ⊢
    have small := Nat.lt_of_le_of_lt (le_ofDigitChars ds _) fits
    rw [List.cons_append, readDigits_digit first small (fun on => by have := places on; omega),
      ih others fits]
    · cases point <;> simp [Nat.add_comm, Nat.add_left_comm]
    · intro on
      have within := places on
      rw [if_pos on]
      omega

theorem readDigits_point (n scale : Nat) (started : Bool) (cs : List Char) :
    readDigits n scale false started ('.' :: cs) = readDigits n scale true started cs := by
  have point : digitOf? '.' = none := by decide
  rw [readDigits.eq_def]
  simp [point]

theorem readDigits_pointed {before behind : List Char} (digits : ∀ c ∈ before, c.isDigit = true)
    (digits' : ∀ c ∈ behind, c.isDigit = true) (nonempty : before ≠ [])
    (fits : Nat.ofDigitChars 10 (before ++ behind) 0 < limit) (places : behind.length ≤ 28) :
    readDigits 0 0 false false
        (before ++ (if behind.length = 0 then [] else '.' :: behind)) =
      some (Nat.ofDigitChars 10 (before ++ behind) 0, behind.length) := by
  rw [Nat.ofDigitChars_append] at fits ⊢
  have small := Nat.lt_of_le_of_lt (le_ofDigitChars behind _) fits
  rw [readDigits_append digits small (by simp)]
  cases behind with
  | nil => simp [readDigits, nonempty]
  | cons c cs =>
    have pointed : (c :: cs).length ≠ 0 := Nat.succ_ne_zero _
    rw [if_neg pointed, readDigits_point]
    rw [← List.append_nil (c :: cs), readDigits_append digits' fits (by simpa using places)]
    simp [readDigits]

theorem ofDigitChars_paddedDigits (n scale : Nat) :
    Nat.ofDigitChars 10 (paddedDigits n scale) 0 = n := by
  have zeros (k : Nat) : Nat.ofDigitChars 10 (List.replicate k '0') 0 = 0 := by
    induction k with
    | zero => rfl
    | succ k ih => rw [List.replicate_succ, Nat.ofDigitChars_cons]; exact ih
  rw [paddedDigits, Nat.ofDigitChars_append, zeros]
  exact Nat.ofDigitChars_toDigits (by decide) (by decide)

theorem isDigit_paddedDigits (n scale : Nat) : ∀ c ∈ paddedDigits n scale, c.isDigit = true := by
  intro c here
  rcases List.mem_append.mp here with zero | digit
  · rw [List.eq_of_mem_replicate zero]
    rfl
  · exact isDigit_toDigits c digit

theorem lt_length_paddedDigits (n scale : Nat) : scale < (paddedDigits n scale).length := by
  simp only [paddedDigits, List.length_append, List.length_replicate]
  omega

def plain (a : Decimal) : Decimal where
  coefficient := a.coefficient
  scale := a.scale
  coefficient_lt := a.coefficient_lt
  scale_le := a.scale_le

theorem plain_equiv (a : Decimal) : a.plain ≈ a := equiv_refl a

def digitChars (a : Decimal) : List Char :=
  let digits := paddedDigits a.coefficient.natAbs a.scale
  let whole := digits.length - a.scale
  digits.take whole ++ (if a.scale = 0 then [] else '.' :: digits.drop whole)

theorem take_paddedDigits_ne_nil (n scale : Nat) :
    (paddedDigits n scale).take ((paddedDigits n scale).length - scale) ≠ [] := by
  have long := lt_length_paddedDigits n scale
  intro none
  have short := congrArg List.length none
  rw [List.length_take, List.length_nil] at short
  omega

theorem readDigits_digitChars (a : Decimal) :
    readDigits 0 0 false false a.digitChars = some (a.coefficient.natAbs, a.scale) := by
  have digits := isDigit_paddedDigits a.coefficient.natAbs a.scale
  have long := lt_length_paddedDigits a.coefficient.natAbs a.scale
  have value := ofDigitChars_paddedDigits a.coefficient.natAbs a.scale
  have before := take_paddedDigits_ne_nil a.coefficient.natAbs a.scale
  have whole := List.take_append_drop
    ((paddedDigits a.coefficient.natAbs a.scale).length - a.scale)
    (paddedDigits a.coefficient.natAbs a.scale)
  unfold digitChars
  simp only
  generalize paddedDigits a.coefficient.natAbs a.scale = ds at *
  have behind : (ds.drop (ds.length - a.scale)).length = a.scale := by
    rw [List.length_drop]
    omega
  have read := readDigits_pointed (fun c here => digits c (List.mem_of_mem_take here))
    (fun c here => digits c (List.mem_of_mem_drop here)) before
    (by rw [whole, value]; exact a.coefficient_lt) (by rw [behind]; exact a.scale_le)
  rwa [whole, value, behind] at read

theorem digitChars_cons (a : Decimal) :
    ∃ c cs, a.digitChars = c :: cs ∧ c ≠ '-' ∧ c ≠ '+' := by
  have before := take_paddedDigits_ne_nil a.coefficient.natAbs a.scale
  unfold digitChars
  simp only
  cases first : (paddedDigits a.coefficient.natAbs a.scale).take
      ((paddedDigits a.coefficient.natAbs a.scale).length - a.scale) with
  | nil => exact absurd first before
  | cons c cs =>
    have here : c ∈ (paddedDigits a.coefficient.natAbs a.scale).take
      ((paddedDigits a.coefficient.natAbs a.scale).length - a.scale) := first ▸ List.mem_cons_self
    have digit := isDigit_paddedDigits _ _ c (List.mem_of_mem_take here)
    refine ⟨c, _, rfl, ?_, ?_⟩
    · rintro rfl
      cases digit
    · rintro rfl
      cases digit

theorem toChars_eq (a : Decimal) :
    a.toChars = (if a.coefficient < 0 ∨ a.negativeZero then ['-'] else []) ++ a.digitChars :=
  List.append_assoc _ _ _

theorem ofScaled?_plain (a : Decimal) : ofScaled? a.coefficient a.scale = some a.plain := by
  unfold ofScaled?
  rw [dif_pos ⟨a.coefficient_lt, a.scale_le⟩]
  rfl

theorem ofPositional?_toChars (a : Decimal) : ofPositional? a.toChars = some a.plain := by
  rw [toChars_eq, ← ofScaled?_plain]
  by_cases signed : a.coefficient < 0 ∨ a.negativeZero = true
  · have magnitude : -(a.coefficient.natAbs : Int) = a.coefficient := by
      rcases signed with low | zero
      · omega
      · rw [a.zero_of_negativeZero zero]
        rfl
    rw [if_pos signed]
    simp only [ofPositional?, List.singleton_append, readDigits_digitChars, Option.bind_some,
      if_true, magnitude]
  · have magnitude : (a.coefficient.natAbs : Int) = a.coefficient := by omega
    obtain ⟨c, cs, digits, minus, plus⟩ := a.digitChars_cons
    have read := a.readDigits_digitChars
    rw [if_neg signed, List.nil_append]
    rw [digits] at read ⊢
    simp [ofPositional?, minus, plus, read, magnitude]

theorem ofText?_toText (a : Decimal) : ofText? a.toText = some a.plain := by
  unfold ofText? toText ofChars?
  rw [String.toList_ofList, ofPositional?_toChars]
  rfl

end Decimal
end MarketMaking
