import MarketMaking.Proofs.Calendar
import MarketMaking.Proofs.JsonText
import MarketMaking.Timestamp.Reader

/-! Timestamps as they are written and read again. Each part of the reader takes from a text just
what was written for it, so a text is read as the time that it names (`Timestamp.ofText_toText`). -/

namespace MarketMaking.Timestamp
variable {cs ds rest : List Char} {c : Char} {n width most : Nat}

theorem isDigit_padded : ∀ c ∈ padded (width + 1) n, c.isDigit = true :=
  Decimal.isDigit_paddedDigits n width

theorem ofDigitChars_padded : Nat.ofDigitChars 10 (padded (width + 1) n) 0 = n :=
  Decimal.ofDigitChars_paddedDigits n width

theorem length_padded (fits : n < 10 ^ (width + 1)) :
    (padded (width + 1) n).length = width + 1 := by
  have short := Nat.toDigits_length 10 n (width + 1) (Nat.succ_pos width) fits
  simp only [padded, List.length_append, List.length_replicate]
  omega

theorem padded_cons (width n : Nat) :
    ∃ c cs, padded (width + 1) n = c :: cs ∧ c.isDigit = true := by
  have long := Decimal.lt_length_paddedDigits n width
  obtain ⟨c, cs, parts⟩ := List.exists_cons_of_length_pos (Nat.zero_lt_of_lt long)
  exact ⟨c, cs, parts, isDigit_padded c (parts ▸ List.mem_cons_self)⟩

theorem isBlank_of_isDigit (digit : c.isDigit = true) : Text.isBlank c = false := by
  have range : 48 ≤ c.toNat ∧ c.toNat ≤ 57 := by
    simpa [Char.isDigit, Char.le_def, UInt32.le_iff_toNat_le] using digit
  simp [Text.isBlank]
  omega

theorem bind_eq {α β : Type} {p : Part α} {f : α → Part β} {a : α}
    (first : p cs = .ok (a, rest)) : (p >>= f) cs = f a rest := by
  simp [bind, StateT.bind, first, Except.bind]

theorem natOf?_digits (digits : ∀ c ∈ ds, c.isDigit = true) (some : ds ≠ []) :
    natOf? ds = Option.some (Nat.ofDigitChars 10 ds 0) := by
  cases ds with
  | nil => exact absurd rfl some
  | cons c cs => exact foldlM_digits digits 0

theorem number_append (digits : ∀ c ∈ ds, c.isDigit = true) (some : ds ≠ [])
    (fits : ds.length = most ∨ ds.length ≤ most ∧ ∀ c ∈ rest.head?, c.isDigit = false) :
    number most (ds ++ rest) = .ok (Nat.ofDigitChars 10 ds 0, rest) := by
  have ends : ∀ c ∈ (rest.take (most - ds.length)).head?, c.isDigit = false := by
    intro c first
    rw [List.head?_take] at first
    split at first
    · cases first
    · rename_i room
      exact (fits.resolve_left (by omega)).2 c first
  have taken : ((ds ++ rest).take most).takeWhile (fun c => (digitOf? c).isSome) = ds := by
    rw [List.take_append, List.take_of_length_le (by omega)]
    exact Json.Source.takeWhile_isDigit digits ends
  obtain ⟨c, cs, rfl⟩ := List.exists_cons_of_ne_nil some
  simp only [number, taken, natOf?_digits digits some, List.drop_left]
  rfl

theorem number_padded (fits : n < 10 ^ (width + 1))
    (ends : width + 1 = most ∨ width + 1 ≤ most ∧ ∀ c ∈ rest.head?, c.isDigit = false) :
    number most (padded (width + 1) n ++ rest) = .ok (n, rest) := by
  have length := length_padded fits
  have some : padded (width + 1) n ≠ [] := List.ne_nil_of_length_eq_add_one length
  rw [number_append isDigit_padded some (by rwa [length]), ofDigitChars_padded]

theorem blank_cons (solid : Text.isBlank c = false) : blank (c :: cs) = .ok ((), c :: cs) := by
  simp [blank, modify, modifyGet, MonadStateOf.modifyGet, StateT.modifyGet, Text.trimLeft, solid,
    pure, Except.pure]

theorem blank_padded : blank (padded (width + 1) n ++ rest) =
    .ok ((), padded (width + 1) n ++ rest) := by
  obtain ⟨c, cs, parts, digit⟩ := padded_cons width n
  rw [parts]
  exact blank_cons (isBlank_of_isDigit digit)

theorem mark_cons (solid : Text.isBlank c = false) : mark c (c :: cs) = .ok ((), cs) := by
  unfold mark
  rw [bind_eq (blank_cons solid)]
  simp [bind, StateT.bind, get, getThe, MonadStateOf.get, StateT.get, set, StateT.set, Except.bind,
    pure, Except.pure]

theorem within_padded {low high : Nat} (fits : n < 100) (least : low ≤ n) (greatest : n ≤ high) :
    within low high (padded 2 n ++ rest) = .ok (n, rest) := by
  unfold within
  rw [bind_eq blank_padded, bind_eq (number_padded fits (.inl rfl)), if_pos ⟨least, greatest⟩]
  rfl

theorem year_signed {sign : Char} (signed : sign = '-' ∨ sign = '+') (small : n ≤ 2147483647) :
    year (sign :: (padded 4 n ++ '-' :: rest)) =
      .ok (if sign = '-' then -(n : Int) else n, '-' :: rest) := by
  have some : padded 4 n ≠ [] := by
    obtain ⟨c, cs, parts, -⟩ := padded_cons 3 n
    rw [parts]
    exact List.cons_ne_nil c cs
  have read : number (padded 4 n ++ '-' :: rest).length (padded 4 n ++ '-' :: rest) =
      .ok (n, '-' :: rest) := by
    rw [number_append isDigit_padded some, ofDigitChars_padded]
    exact .inr ⟨by simp, by simp⟩
  have solid : Text.isBlank sign = false := by rcases signed with rfl | rfl <;> rfl
  rw [List.length_append, List.length_cons] at read
  unfold year
  rw [bind_eq (blank_cons solid), bind_eq rfl]
  rcases signed with rfl | rfl
  · have range : n ≤ 2147483648 := by omega
    simp [bind, StateT.bind, read, pure, Except.bind, set, StateT.set, StateT.pure, Except.pure,
      range]
  · have range : (-2147483648 : Int) ≤ n ∧ (n : Int) ≤ 2147483647 := by omega
    simp [bind, StateT.bind, read, pure, Except.bind, set, StateT.set, StateT.pure, Except.pure,
      range]

theorem year_plain (small : n ≤ 9999) : year (padded 4 n ++ rest) = .ok ((n : Int), rest) := by
  obtain ⟨c, cs, parts, digit⟩ := padded_cons 3 n
  have minus : c ≠ '-' := by rintro rfl; cases digit
  have plus : c ≠ '+' := by rintro rfl; cases digit
  have read : number 4 (padded 4 n ++ rest) = .ok (n, rest) := number_padded (by omega) (.inl rfl)
  have solid : blank (padded 4 n ++ rest) = .ok ((), padded 4 n ++ rest) := blank_padded
  simp only [Nat.reduceAdd, List.cons_append, parts] at parts read solid ⊢
  unfold year
  rw [bind_eq solid, bind_eq rfl]
  have range : (-2147483648 : Int) ≤ n ∧ (n : Int) ≤ 2147483647 := by omega
  simp [minus, plus, bind, StateT.bind, read, pure, Except.bind, StateT.pure, Except.pure, range]

theorem year_yearChars {y : Int} (low : -2147483648 < y) (high : y ≤ 2147483647) :
    year (yearChars y ++ '-' :: rest) = .ok (y, '-' :: rest) := by
  unfold yearChars
  split
  · rename_i plain
    rw [year_plain (by omega), Int.toNat_of_nonneg plain.1]
  · rw [List.cons_append, year_signed (by split <;> simp) (by omega)]
    by_cases negative : y < 0
    · simp only [negative, if_true]
      rw [← Int.eq_neg_natAbs_of_nonpos (Int.le_of_lt negative)]
    · simp only [negative, if_false]
      rw [if_neg (by decide), Int.natAbs_of_nonneg (Int.not_lt.mp negative)]

theorem fraction_padded (fits : n < 10 ^ (width + 1)) (most : width + 1 ≤ 9) :
    fraction ('.' :: (padded (width + 1) n ++ 'Z' :: rest)) =
      .ok (n * tenTo (9 - (width + 1)), 'Z' :: rest) := by
  have read : number 9 (padded (width + 1) n ++ 'Z' :: rest) = .ok (n, 'Z' :: rest) := by
    refine number_padded fits (.inr ⟨most, ?_⟩)
    simp
  have stop : ('Z' :: rest).dropWhile (fun c => (digitOf? c).isSome) = 'Z' :: rest := rfl
  have places :
      (padded (width + 1) n ++ 'Z' :: rest).length - ('Z' :: rest).length = width + 1 := by
    rw [List.length_append, Nat.add_sub_cancel, length_padded fits]
  unfold fraction
  rw [bind_eq rfl]
  simp only [bind, StateT.bind, read, pure, Except.bind, set, StateT.set, StateT.pure, Except.pure,
    get, getThe, MonadStateOf.get, StateT.get, stop, places]

theorem fraction_fractionChars (small : n < 1000000000) :
    fraction (fractionChars n ++ 'Z' :: rest) = .ok (n, 'Z' :: rest) := by
  unfold fractionChars
  split
  · rename_i none
    rw [none]
    rfl
  · split
    · rename_i millis
      rw [List.cons_append, fraction_padded (by omega) (by decide)]
      have whole : n / 1000000 * tenTo 6 = n := Nat.div_mul_cancel (Nat.dvd_of_mod_eq_zero millis)
      rw [whole]
    · split
      · rename_i micros
        rw [List.cons_append, fraction_padded (by omega) (by decide)]
        have whole : n / 1000 * tenTo 3 = n := Nat.div_mul_cancel (Nat.dvd_of_mod_eq_zero micros)
        rw [whole]
      · rw [List.cons_append, fraction_padded (by omega) (by decide)]
        have whole : n * tenTo 0 = n := Nat.mul_one n
        rw [whole]

theorem offset_zulu : offset ('Z' :: rest) = .ok (0, rest) := by
  simp [offset, bind, StateT.bind, get, getThe, MonadStateOf.get, StateT.get, set, StateT.set,
    Except.bind, pure, Except.pure, StateT.pure]

def parts (t : Timestamp) : Reading :=
  let ofDay := (t.second % 86400).toNat
  { date := Date.ofDays (t.second / 86400)
    hour := ofDay / 3600
    minute := ofDay / 60 % 60
    second := ofDay % 60 + t.nano / 1000000000
    nano := t.nano % 1000000000
    offset := 0 }

theorem year_parts (t : Timestamp) :
    -262143 ≤ t.parts.date.year ∧ t.parts.date.year ≤ 262142 := by
  have low := t.second_ge
  have high := t.second_le
  exact Date.year_ofDays (by omega) (by omega)

theorem daysInMonth_le (year : Int) (month : Nat) : daysInMonth year month ≤ 31 := by
  unfold daysInMonth
  repeat' split
  all_goals decide

theorem nano_parts (t : Timestamp) : t.parts.nano < 1000000000 := Nat.mod_lt _ (by decide)

theorem second_parts (t : Timestamp) :
    t.parts.second = (t.second % 86400).toNat % 60 + t.nano / 1000000000 := rfl

theorem clock_parts (t : Timestamp) :
    t.parts.hour ≤ 23 ∧ t.parts.minute ≤ 59 ∧ t.parts.second ≤ 60 := by
  have below := t.nano_lt
  unfold parts
  dsimp only
  omega

theorem reading_toChars (t : Timestamp) : reading t.toChars = .ok (t.parts, []) := by
  have years := t.year_parts
  have months : 1 ≤ t.parts.date.month ∧ t.parts.date.month ≤ 12 := Date.month_ofDays _
  have days : 1 ≤ t.parts.date.day ∧ t.parts.date.day ≤ 31 :=
    (Date.day_ofDays _).imp_right fun most => most.trans (daysInMonth_le _ _)
  obtain ⟨hour, minute, second⟩ := t.clock_parts
  have text : t.toChars = yearChars t.parts.date.year ++ '-' :: (padded 2 t.parts.date.month ++
      '-' :: (padded 2 t.parts.date.day ++ 'T' :: (padded 2 t.parts.hour ++
      ':' :: (padded 2 t.parts.minute ++ ':' :: (padded 2 t.parts.second ++
      (fractionChars t.parts.nano ++ ['Z'])))))) := by
    simp [toChars, Timestamp.parts]
  rw [text]
  unfold reading
  rw [bind_eq (year_yearChars (by omega) (by omega)), bind_eq (mark_cons rfl),
    bind_eq (within_padded (by omega) months.1 months.2), bind_eq (mark_cons rfl),
    bind_eq (within_padded (by omega) days.1 days.2), bind_eq (by rfl : separator _ = _),
    bind_eq (within_padded (by omega) (Nat.zero_le _) hour), bind_eq (mark_cons rfl),
    bind_eq (within_padded (by omega) (Nat.zero_le _) minute), bind_eq (mark_cons rfl),
    bind_eq (within_padded (by omega) (Nat.zero_le _) second),
    bind_eq (fraction_fractionChars t.nano_parts), bind_eq (blank_cons rfl), bind_eq offset_zulu]
  rfl

-- The time that the text of a timestamp names: a leap second that does not end its minute is taken
-- for the second after it.
def legible (t : Timestamp) : Timestamp :=
  if leap : 1000000000 ≤ t.nano ∧ t.second % 60 ≠ 59 then
    { second := t.second + 1
      nano := t.nano - 1000000000
      second_ge := Int.le_trans t.second_ge (by omega)
      second_le := by have := t.second_le; omega
      nano_lt := Nat.lt_of_le_of_lt (Nat.sub_le _ _) t.nano_lt }
  else t

theorem legible_eq_self_iff (t : Timestamp) :
    t.legible = t ↔ (1000000000 ≤ t.nano → t.second % 60 = 59) := by
  unfold legible
  split
  · rename_i leap
    constructor
    · intro same
      have second : t.second + 1 = t.second := congrArg Timestamp.second same
      omega
    · intro last
      exact absurd (last leap.1) leap.2
  · rename_i shown
    exact ⟨fun _ long => Decidable.byContradiction fun other => shown ⟨long, other⟩, fun _ => rfl⟩

theorem second_legible (t : Timestamp) :
    t.legible.second =
      t.second - t.second % 60 + (if t.parts.second = 60 then 59 else t.parts.second : Nat) := by
  have below := t.nano_lt
  rw [second_parts]
  unfold legible
  split
  · dsimp only
    split <;> omega
  · split <;> omega

theorem nano_legible (t : Timestamp) :
    t.legible.nano = if t.parts.second = 60 then t.parts.nano + 1000000000 else t.parts.nano := by
  have below := t.nano_lt
  have nano : t.parts.nano = t.nano % 1000000000 := rfl
  rw [second_parts, nano]
  unfold legible
  split
  · dsimp only
    split <;> omega
  · split <;> omega

theorem toTimestamp_parts (t : Timestamp) : t.parts.toTimestamp = .ok t.legible := by
  obtain ⟨low, high⟩ := t.year_parts
  have days : t.parts.date.day ≤ daysInMonth t.parts.date.year t.parts.date.month :=
    (Date.day_ofDays _).2
  have possible : ¬ (t.parts.date.year < -262143 ∨ 262142 < t.parts.date.year ∨
      daysInMonth t.parts.date.year t.parts.date.month < t.parts.date.day ∨
      t.parts.offset ≤ -86400 ∨ 86400 ≤ t.parts.offset) := by
    have offset : t.parts.offset = 0 := rfl
    omega
  have total : t.parts.date.toDays * 86400 + ((t.parts.hour * 3600 + t.parts.minute * 60 +
      (if t.parts.second = 60 then 59 else t.parts.second) : Int)) - t.parts.offset =
        t.legible.second := by
    have date : t.parts.date.toDays = t.second / 86400 := Date.toDays_ofDays _
    have hour : t.parts.hour = (t.second % 86400).toNat / 3600 := rfl
    have minute : t.parts.minute = (t.second % 86400).toNat / 60 % 60 := rfl
    have offset : t.parts.offset = 0 := rfl
    rw [date, hour, minute, offset, second_legible]
    omega
  unfold Reading.toTimestamp
  rw [if_neg possible]
  dsimp only
  rw [total, ← nano_legible, ofParts?,
    dif_pos ⟨t.legible.second_ge, t.legible.second_le, t.legible.nano_lt⟩]

theorem ofText_toText (t : Timestamp) : ofText t.toText = .ok t.legible := by
  unfold ofText toText ofChars
  rw [String.toList_ofList, t.reading_toChars]
  exact t.toTimestamp_parts

end MarketMaking.Timestamp
