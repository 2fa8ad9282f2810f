import MarketMaking.Json.Source
import MarketMaking.Proofs.DecimalText

/-! JSON values as they are written and read again: any value, however deep, is read as itself and
the whole text is taken (`Source.ofText_toText`). -/

namespace MarketMaking.Json

def Ends (rest : List Char) : Prop :=
  ∀ c ∈ rest.head?, c.isDigit = false ∧ c ≠ '.' ∧ c ≠ 'e' ∧ c ≠ 'E'

theorem ends_nil : Ends [] := nofun

namespace Source

theorem isDigit_eq (c : Char) : isDigit c = c.isDigit := by
  unfold isDigit
  cases digit : c.isDigit with
  | true => rw [digitOf?_of_isDigit digit]; rfl
  | false => rw [digitOf?_eq_none digit]; rfl

theorem takeWhile_isDigit {ds rest : List Char} (digits : ∀ c ∈ ds, c.isDigit = true)
    (ends : ∀ c ∈ rest.head?, c.isDigit = false) :
    (ds ++ rest).takeWhile isDigit = ds := by
  have none : rest.takeWhile isDigit = [] := by
    cases rest with
    | nil => rfl
    | cons c cs => simp [isDigit_eq, ends c rfl]
  rw [List.takeWhile_append_of_pos (fun c here => by rw [isDigit_eq]; exact digits c here), none,
    List.append_nil]

theorem toDigits_ne_zero_cons (n : Nat) (c : Char) (cs : List Char) :
    Nat.toDigits 10 n ≠ '0' :: c :: cs := by
  induction n using Nat.strongRecOn generalizing c cs with
  | ind n ih =>
    intro same
    by_cases small : n < 10
    · rw [Nat.toDigits_of_lt_base small] at same
      cases (List.cons.inj same).2
    · have large : 10 ≤ n := Nat.not_lt.mp small
      have value := Nat.ofDigitChars_ten_toDigits (n := n / 10)
      rw [Nat.toDigits_of_base_le (by decide) large] at same
      cases digits : Nat.toDigits 10 (n / 10) with
      | nil => exact Nat.toDigits_ne_nil digits
      | cons first rest =>
        rw [digits] at same value
        obtain ⟨rfl, -⟩ := List.cons.inj same
        cases rest with
        | nil =>
          have zero : Nat.ofDigitChars 10 ['0'] 0 = 0 := rfl
          omega
        | cons second others => exact ih (n / 10) (by omega) second others digits

theorem toDigits_cons (n : Nat) :
    ∃ c cs, Nat.toDigits 10 n = c :: cs ∧ c ≠ '-' ∧ c ≠ '+' := by
  cases digits : Nat.toDigits 10 n with
  | nil => exact absurd digits Nat.toDigits_ne_nil
  | cons c cs =>
    have digit := isDigit_toDigits c (digits ▸ List.mem_cons_self)
    refine ⟨c, cs, rfl, ?_, ?_⟩
    · rintro rfl
      cases digit
    · rintro rfl
      cases digit

theorem wholePart_toDigits (n : Nat) {rest : List Char}
    (ends : ∀ c ∈ rest.head?, c.isDigit = false) :
    wholePart (Nat.toDigits 10 n ++ rest) = some (n, rest) := by
  unfold wholePart
  simp only [takeWhile_isDigit isDigit_toDigits ends, natOf?_toDigits, List.drop_left]
  split
  · rename_i same
    exact absurd same (toDigits_ne_zero_cons n _ _)
  · rfl

theorem isDigit_digitChar (d : Fin 10) : (Nat.digitChar d.val).isDigit = true := by
  revert d
  decide

theorem digitsOf_digitChars (fraction : List (Fin 10)) :
    digitsOf (fraction.map fun d => Nat.digitChar d.val) = fraction := by
  have digit (d : Fin 10) : ((digitOf? (Nat.digitChar d.val)).bind fun n =>
      if h : n < 10 then some (⟨n, h⟩ : Fin 10) else none) = some d := by
    revert d
    decide
  unfold digitsOf
  rw [List.filterMap_map]
  simp only [Function.comp_def, digit, List.filterMap_some]

def fractionChars (fraction : List (Fin 10)) : List Char :=
  if fraction.isEmpty then [] else '.' :: fraction.map fun d => Nat.digitChar d.val

theorem fractionPart_fractionChars (fraction : List (Fin 10)) {rest : List Char}
    (ends : ∀ c ∈ rest.head?, c.isDigit = false ∧ c ≠ '.') :
    fractionPart (fractionChars fraction ++ rest) = some (fraction, rest) := by
  have digits : ∀ c ∈ fraction.map fun d => Nat.digitChar d.val, c.isDigit = true := by
    intro c here
    obtain ⟨d, -, rfl⟩ := List.mem_map.mp here
    exact isDigit_digitChar d
  cases fraction with
  | nil =>
    cases rest with
    | nil => rfl
    | cons c cs =>
      have point := (ends c rfl).2
      simp [fractionChars, fractionPart, point]
  | cons d ds =>
    have taken := takeWhile_isDigit digits (fun c here => (ends c here).1)
    simp only [fractionChars, List.isEmpty_cons, Bool.false_eq_true, if_false, List.cons_append,
      fractionPart, taken, digitsOf_digitChars, List.drop_left]
    rfl

def exponentChars : Option Int → List Char
  | none => []
  | some e => 'e' :: (if e < 0 then '-' :: Nat.toDigits 10 e.natAbs else Nat.toDigits 10 e.natAbs)

theorem exponentPart_exponentChars (exponent : Option Int) {rest : List Char} (ends : Ends rest) :
    exponentPart (exponentChars exponent ++ rest) = some (exponent, rest) := by
  cases exponent with
  | none =>
    cases rest with
    | nil => rfl
    | cons c cs =>
      obtain ⟨-, -, small, large⟩ := ends c rfl
      simp [exponentChars, exponentPart, small, large]
  | some e =>
    have taken := takeWhile_isDigit (isDigit_toDigits (n := e.natAbs))
      (fun c here => (ends c here).1)
    by_cases low : e < 0
    · have value : -(e.natAbs : Int) = e := by omega
      simp only [exponentChars, low, if_true, List.cons_append, exponentPart, taken,
        natOf?_toDigits, List.drop_left]
      exact congrArg (fun e => some (some e, rest)) value
    · have value : (e.natAbs : Int) = e := by omega
      obtain ⟨c, cs, digits, minus, plus⟩ := toDigits_cons e.natAbs
      have whole := natOf?_toDigits e.natAbs
      simp only [exponentChars, low, if_false, List.cons_append]
      rw [digits] at taken whole ⊢
      rw [List.cons_append] at taken ⊢
      simp [exponentPart, minus, plus, taken, whole, value]

theorem head_exponentChars (exponent : Option Int) {rest : List Char} (ends : Ends rest) :
    ∀ c ∈ (exponentChars exponent ++ rest).head?, c.isDigit = false ∧ c ≠ '.' := by
  cases exponent with
  | none => exact fun c here => ⟨(ends c here).1, (ends c here).2.1⟩
  | some e =>
    rintro c ⟨⟩
    decide

theorem head_fractionChars (fraction : List (Fin 10)) {rest : List Char}
    (ends : ∀ c ∈ rest.head?, c.isDigit = false ∧ c ≠ '.') :
    ∀ c ∈ (fractionChars fraction ++ rest).head?, c.isDigit = false := by
  cases fraction with
  | nil => exact fun c here => (ends c here).1
  | cons d ds =>
    rintro c ⟨⟩
    decide

theorem numeral_toChars (n : Numeral) {rest : List Char} (ends : Ends rest) :
    numeral (n.toChars ++ rest) = some (n, rest) := by
  obtain ⟨negative, whole, fraction, exponent⟩ := n
  have parts : (⟨negative, whole, fraction, exponent⟩ : Numeral).toChars ++ rest =
      (if negative then ['-'] else []) ++
        (Nat.toDigits 10 whole ++
          (fractionChars fraction ++ (exponentChars exponent ++ rest))) := by
    cases exponent <;> simp [Numeral.toChars, fractionChars, exponentChars]
  have last := head_exponentChars exponent ends
  have digits := wholePart_toDigits whole (head_fractionChars fraction last)
  have places := fractionPart_fractionChars fraction last
  have power := exponentPart_exponentChars exponent ends
  rw [parts]
  cases negative with
  | true =>
    simp only [if_true, List.singleton_append, numeral, digits, places, power, bind, Option.bind]
    rfl
  | false =>
    obtain ⟨c, cs, first, minus, -⟩ := toDigits_cons whole
    rw [first, List.cons_append] at digits ⊢
    simp [numeral, minus, digits, places, power]

def pieceOf (c : Char) : Piece :=
  if c.toNat < 0x20 ∧ c ∉ ['\x08', '\t', '\n', '\x0c', '\r'] then .code c.toNat else .char c

theorem hexDigitOf?_digitChar : ∀ d < 16, hexDigitOf? (Nat.digitChar d) = some d := by
  decide

theorem pieces_letter {letter c : Char} (names : escaped? letter = some c) (other : letter ≠ 'u')
    (cs : List Char) :
    pieces ('\\' :: letter :: cs) = (pieces cs).map fun (ps, rest) => (.char c :: ps, rest) := by
  have step : pieces ('\\' :: letter :: cs) =
      (escaped? letter).bind fun c => (pieces cs).bind fun (ps, rest) =>
        some (.char c :: ps, rest) := by
    rw [pieces]
    · rfl
    · exact fun _ _ _ _ _ same => absurd same other
  rw [step, names, Option.bind_some]
  cases pieces cs <;> rfl

theorem pieces_control {n : Nat} (low : n < 0x100) (cs : List Char) :
    pieces ('\\' :: 'u' :: '0' :: '0' :: Nat.digitChar (n / 16) :: Nat.digitChar (n % 16) :: cs) =
      (pieces cs).map fun (ps, rest) => (.code n :: ps, rest) := by
  have high := hexDigitOf?_digitChar (n / 16) (by omega)
  have digit := hexDigitOf?_digitChar (n % 16) (by omega)
  have zero : hexDigitOf? '0' = some 0 := by decide
  have value : n / 16 * 16 + n % 16 = n := Nat.div_add_mod' n 16
  rw [pieces]
  simp only [zero, high, digit, bind, Option.bind, Nat.zero_mul, Nat.zero_add, value]
  cases pieces cs <;> rfl

theorem pieces_plain {c : Char} (quote : c ≠ '"') (escape : c ≠ '\\') (high : ¬ c.toNat < 0x20)
    (cs : List Char) :
    pieces (c :: cs) = (pieces cs).map fun (ps, rest) => (.char c :: ps, rest) := by
  rw [pieces]
  · rw [if_neg high]
    cases pieces cs <;> rfl
  · exact quote
  · rintro _ _ _ _ _ rfl
    exact absurd rfl escape
  · rintro _ _ rfl
    exact absurd rfl escape

theorem pieces_escapeChar (c : Char) (cs : List Char) :
    pieces (escapeChar c ++ cs) = (pieces cs).map fun (ps, rest) => (pieceOf c :: ps, rest) := by
  unfold escapeChar
  split
  · rename_i quoted
    rcases quoted with rfl | rfl
    · exact pieces_letter (by decide) (by decide) cs
    · exact pieces_letter (by decide) (by decide) cs
  split
  · subst_vars
    exact pieces_letter (by decide) (by decide) cs
  split
  · subst_vars
    exact pieces_letter (by decide) (by decide) cs
  split
  · subst_vars
    exact pieces_letter (by decide) (by decide) cs
  split
  · subst_vars
    exact pieces_letter (by decide) (by decide) cs
  split
  · subst_vars
    exact pieces_letter (by decide) (by decide) cs
  rename_i quoted back tab line form carriage
  split
  · rename_i control
    have piece : pieceOf c = .code c.toNat := by
      simp [pieceOf, control, back, tab, line, form, carriage]
    rw [piece]
    exact pieces_control (by omega) cs
  · rename_i high
    have piece : pieceOf c = .char c := by
      simp [pieceOf, high]
    rw [piece]
    exact pieces_plain (fun quote => quoted (.inl quote)) (fun escape => quoted (.inr escape))
      high cs

theorem pieces_stringChars (s rest : List Char) :
    pieces (s.flatMap escapeChar ++ '"' :: rest) = some (s.map pieceOf, rest) := by
  induction s with
  | nil => rfl
  | cons c s ih =>
    rw [List.flatMap_cons, List.append_assoc, pieces_escapeChar, ih]
    rfl

theorem charsOf_code {n : Nat} (low : n < 0x20) (ps : List Piece) :
    charsOf (.code n :: ps) = (charsOf ps).map (Char.ofNat n :: ·) := by
  have plain : ¬ (0xd800 ≤ n ∧ n < 0xdc00) ∧ ¬ (0xdc00 ≤ n ∧ n < 0xe000) ∧
    ¬ (0xd800 ≤ n ∧ n < 0xe000) := by omega
  cases ps with
  | nil => simp [charsOf, plain]
  | cons p ps => cases p <;> simp [charsOf, plain]

theorem charsOf_pieceOf (s : List Char) : charsOf (s.map pieceOf) = some s := by
  induction s with
  | nil => rfl
  | cons c s ih =>
    rw [List.map_cons, pieceOf]
    split
    · rename_i control
      rw [charsOf_code control.1, ih, Char.ofNat_toNat]
      rfl
    · rw [charsOf, ih]
      rfl

theorem pieces_toList (s : String) (rest : List Char) :
    pieces (s.toList.flatMap escapeChar ++ '"' :: rest) = some (s.toList.map pieceOf, rest) :=
  pieces_stringChars s.toList rest

theorem contentOf_pieceOf (s : String) : contentOf (s.toList.map pieceOf) = some s := by
  rw [contentOf, charsOf_pieceOf, Option.map_some, String.ofList_toList]

theorem skip_cons {c : Char} (cs : List Char) (solid : isSpace c = false) :
    skip (c :: cs) = c :: cs := by
  simp [skip, solid]

def others : List Char :=
  [' ', '\n', '\t', '\x0d', 'n', 't', 'f', '"', '[', '\x7b', ']', '\x7d']

theorem not_mem_others {c : Char} (start : c = '-' ∨ c.isDigit = true) : c ∉ others := by
  have none : ∀ d ∈ others, d ≠ '-' ∧ d.isDigit = false := by
    simp [others, Char.isDigit]
  intro here
  obtain ⟨minus, digit⟩ := none c here
  rcases start with same | same
  · exact minus same
  · rw [digit] at same
    cases same

theorem numeral_cons (n : Numeral) :
    ∃ c cs, n.toChars = c :: cs ∧ (c = '-' ∨ c.isDigit = true) := by
  obtain ⟨negative, whole, fraction, exponent⟩ := n
  cases negative with
  | true => exact ⟨'-', _, rfl, .inl rfl⟩
  | false =>
    cases digits : Nat.toDigits 10 whole with
    | nil => exact absurd digits Nat.toDigits_ne_nil
    | cons c cs =>
      have digit := isDigit_toDigits c (digits ▸ List.mem_cons_self)
      refine ⟨c, ?_, ?_, .inr digit⟩
      · exact cs ++ (fractionChars fraction ++ exponentChars exponent)
      · cases exponent <;> simp [Numeral.toChars, digits, fractionChars, exponentChars]

theorem toChars_cons (j : Json) :
    ∃ c cs, j.toChars = c :: cs ∧ isSpace c = false ∧ c ≠ ']' ∧ c ≠ '\x7d' := by
  cases j with
  | null => exact ⟨'n', _, rfl, by decide⟩
  | bool b => cases b <;> exact ⟨_, _, rfl, by decide⟩
  | number n =>
    obtain ⟨c, cs, chars, start⟩ := numeral_cons n
    refine ⟨c, cs, by simpa [toChars] using chars, ?_⟩
    have other := not_mem_others start
    simp only [others, List.mem_cons, not_or] at other
    simp [isSpace, other]
  | string s => exact ⟨'"', _, rfl, by decide⟩
  | array items => exact ⟨'[', _, by rw [toChars], by decide⟩
  | object members => exact ⟨'\x7b', _, by rw [toChars], by decide⟩

theorem read_null (fuel : Nat) (rest : List Char) :
    read (fuel + 1) (Json.null.toChars ++ rest) = (.null, some rest) := by
  simp [Json.toChars, read, skip, isSpace, literal?, read.word]

theorem read_bool (b : Bool) (fuel : Nat) (rest : List Char) :
    read (fuel + 1) ((Json.bool b).toChars ++ rest) = (.bool b, some rest) := by
  cases b <;> simp [Json.toChars, read, skip, isSpace, literal?, read.word]

theorem read_string (s : String) (fuel : Nat) (rest : List Char) :
    read (fuel + 1) ((Json.string s).toChars ++ rest) = (.string (some s), some rest) := by
  simp [Json.toChars, stringChars, read, skip_cons, isSpace, pieces_toList, contentOf_pieceOf]

theorem read_number (n : Numeral) (fuel : Nat) {rest : List Char} (ends : Ends rest) :
    read (fuel + 1) ((Json.number n).toChars ++ rest) = (.number n, some rest) := by
  obtain ⟨c, cs, chars, start⟩ := numeral_cons n
  have other := not_mem_others start
  have whole := numeral_toChars n ends
  simp only [others, List.mem_cons, not_or] at other
  have starts : c = '-' ∨ isDigit c = true := by
    rw [isDigit_eq]
    exact start
  rw [chars, List.cons_append] at whole
  rw [show (Json.number n).toChars = n.toChars by rw [Json.toChars], chars, List.cons_append]
  simp [read, skip, isSpace, other, starts, whole]

theorem itemsChars_cons (item : Json) (items : List Json) :
    ∃ c cs, itemsChars (item :: items) = c :: cs ∧ isSpace c = false ∧ c ≠ ']' := by
  obtain ⟨c, cs, chars, solid, bracket, -⟩ := toChars_cons item
  cases items with
  | nil => exact ⟨c, _, by rw [itemsChars, chars]; rfl, solid, bracket⟩
  | cons next rest => exact ⟨c, _, by rw [itemsChars, chars]; rfl, solid, bracket⟩

theorem membersChars_cons (member : String × Json) (members : List (String × Json)) :
    ∃ cs, membersChars (member :: members) = '"' :: cs := by
  obtain ⟨name, value⟩ := member
  cases members with
  | nil => exact ⟨_, by rw [membersChars]; rfl⟩
  | cons next rest => exact ⟨_, by rw [membersChars]; rfl⟩

theorem read_array (item : Json) (items : List Json) {fuel : Nat} {rest : List Char}
    (reads : readItems fuel (itemsChars (item :: items) ++ rest) =
      (ofItems (item :: items), some rest)) :
    read (fuel + 1) ((Json.array (item :: items)).toChars ++ rest) =
      (ofJson (.array (item :: items)), some rest) := by
  obtain ⟨c, cs, chars, solid, bracket⟩ := itemsChars_cons item items
  rw [chars, List.cons_append] at reads
  rw [Json.toChars, chars, ofJson]
  simp [read, skip, show isSpace '[' = false from rfl, solid, bracket, reads]

theorem read_object (member : String × Json) (members : List (String × Json)) {fuel : Nat}
    {rest : List Char}
    (reads : readMembers fuel (membersChars (member :: members) ++ rest) =
      (ofMembers (member :: members), some rest)) :
    read (fuel + 1) ((Json.object (member :: members)).toChars ++ rest) =
      (ofJson (.object (member :: members)), some rest) := by
  obtain ⟨cs, chars⟩ := membersChars_cons member members
  rw [chars, List.cons_append] at reads
  rw [Json.toChars, chars, ofJson]
  simp [read, skip, isSpace, reads]

theorem readItems_last (item : Json) {fuel : Nat} {rest : List Char}
    (reads : read fuel (item.toChars ++ ']' :: rest) = (ofJson item, some (']' :: rest))) :
    readItems (fuel + 1) (itemsChars [item] ++ rest) = (ofItems [item], some rest) := by
  rw [itemsChars, List.append_assoc, List.singleton_append, readItems, reads]
  simp [skip, isSpace, ofItems]

theorem readItems_next (item next : Json) (items : List Json) {fuel : Nat} {rest : List Char}
    (reads : read fuel (item.toChars ++ ',' :: (itemsChars (next :: items) ++ rest)) =
      (ofJson item, some (',' :: (itemsChars (next :: items) ++ rest))))
    (others : readItems fuel (itemsChars (next :: items) ++ rest) =
      (ofItems (next :: items), some rest)) :
    readItems (fuel + 1) (itemsChars (item :: next :: items) ++ rest) =
      (ofItems (item :: next :: items), some rest) := by
  rw [itemsChars, List.append_assoc, List.cons_append, readItems, reads, ofItems]
  simp [skip, isSpace, others]

theorem memberName?_stringChars (name : String) (rest : List Char) :
    memberName? (skip (stringChars name ++ rest)) = some (some name, rest) := by
  simp [stringChars, skip, isSpace, memberName?, pieces_toList, contentOf_pieceOf]

theorem readMembers_last (name : String) (value : Json) {fuel : Nat} {rest : List Char}
    (reads : read fuel (value.toChars ++ '\x7d' :: rest) =
      (ofJson value, some ('\x7d' :: rest))) :
    readMembers (fuel + 1) (membersChars [(name, value)] ++ rest) =
      (ofMembers [(name, value)], some rest) := by
  have chars : membersChars [(name, value)] ++ rest =
      stringChars name ++ ':' :: (value.toChars ++ '\x7d' :: rest) := by
    simp [membersChars]
  rw [chars, readMembers, memberName?_stringChars]
  simp [skip, isSpace, reads, ofMembers]

theorem readMembers_next (name : String) (value : Json) (next : String × Json)
    (members : List (String × Json)) {fuel : Nat} {rest : List Char}
    (reads : read fuel (value.toChars ++ ',' :: (membersChars (next :: members) ++ rest)) =
      (ofJson value, some (',' :: (membersChars (next :: members) ++ rest))))
    (others : readMembers fuel (membersChars (next :: members) ++ rest) =
      (ofMembers (next :: members), some rest)) :
    readMembers (fuel + 1) (membersChars ((name, value) :: next :: members) ++ rest) =
      (ofMembers ((name, value) :: next :: members), some rest) := by
  have chars : membersChars ((name, value) :: next :: members) ++ rest =
      stringChars name ++ ':' ::
        (value.toChars ++ ',' :: (membersChars (next :: members) ++ rest)) := by
    simp [membersChars]
  rw [chars, readMembers, memberName?_stringChars, ofMembers]
  simp [skip, isSpace, reads, others]

theorem ends_cons {c : Char} (rest : List Char)
    (stops : c.isDigit = false ∧ c ≠ '.' ∧ c ≠ 'e' ∧ c ≠ 'E') : Ends (c :: rest) := by
  rintro c ⟨⟩
  exact stops

mutual

-- Each step takes a character at least, so as many steps as characters are enough.
theorem read_toChars : ∀ (j : Json) (fuel : Nat) (rest : List Char), j.toChars.length ≤ fuel →
    Ends rest → read fuel (j.toChars ++ rest) = (ofJson j, some rest)
  | j, 0, rest, enough, ends => by
    obtain ⟨c, cs, chars, -⟩ := toChars_cons j
    rw [chars] at enough
    cases enough
  | .null, fuel + 1, rest, enough, ends => read_null fuel rest
  | .bool b, fuel + 1, rest, enough, ends => read_bool b fuel rest
  | .number n, fuel + 1, rest, enough, ends => read_number n fuel ends
  | .string s, fuel + 1, rest, enough, ends => read_string s fuel rest
  | .array [], fuel + 1, rest, enough, ends => by
    simp [Json.toChars, itemsChars, read, skip, isSpace, ofJson, ofItems]
  | .array (item :: items), fuel + 1, rest, enough, ends => by
    rw [Json.toChars, List.length_cons] at enough
    exact read_array item items
      (readItems_itemsChars item items fuel rest (Nat.le_of_succ_le_succ enough))
  | .object [], fuel + 1, rest, enough, ends => by
    simp [Json.toChars, membersChars, read, skip, isSpace, ofJson, ofMembers]
  | .object (member :: members), fuel + 1, rest, enough, ends => by
    rw [Json.toChars, List.length_cons] at enough
    exact read_object member members
      (readMembers_membersChars member members fuel rest (Nat.le_of_succ_le_succ enough))

theorem readItems_itemsChars : ∀ (item : Json) (items : List Json) (fuel : Nat) (rest : List Char),
    (itemsChars (item :: items)).length ≤ fuel →
    readItems fuel (itemsChars (item :: items) ++ rest) = (ofItems (item :: items), some rest)
  | item, items, 0, rest, enough => by
    obtain ⟨c, cs, chars, -⟩ := itemsChars_cons item items
    rw [chars] at enough
    cases enough
  | item, [], fuel + 1, rest, enough => by
    rw [itemsChars, List.length_append] at enough
    exact readItems_last item
      (read_toChars item fuel _ (Nat.le_of_succ_le_succ enough) (ends_cons rest (by decide)))
  | item, next :: items, fuel + 1, rest, enough => by
    rw [itemsChars, List.length_append, List.length_cons] at enough
    apply readItems_next item next items
    · exact read_toChars item fuel _ (by omega) (ends_cons _ (by decide))
    · exact readItems_itemsChars next items fuel rest (by omega)

theorem readMembers_membersChars : ∀ (member : String × Json) (members : List (String × Json))
    (fuel : Nat) (rest : List Char), (membersChars (member :: members)).length ≤ fuel →
    readMembers fuel (membersChars (member :: members) ++ rest) =
      (ofMembers (member :: members), some rest)
  | member, members, 0, rest, enough => by
    obtain ⟨cs, chars⟩ := membersChars_cons member members
    rw [chars] at enough
    cases enough
  | (name, value), [], fuel + 1, rest, enough => by
    simp only [membersChars, List.length_append, List.length_cons, List.length_nil] at enough
    exact readMembers_last name value
      (read_toChars value fuel _ (by omega) (ends_cons rest (by decide)))
  | (name, value), next :: members, fuel + 1, rest, enough => by
    simp only [membersChars, List.length_append, List.length_cons] at enough
    apply readMembers_next name value next members
    · exact read_toChars value fuel _ (by omega) (ends_cons _ (by decide))
    · exact readMembers_membersChars next members fuel rest (by omega)

end

theorem ofText_toText (j : Json) : ofText j.toText = (ofJson j, true) := by
  have whole := read_toChars j (2 * j.toChars.length + 2) [] (by omega) ends_nil
  rw [List.append_nil] at whole
  unfold ofText toText
  simp only [String.toList_ofList, whole]
  rfl

mutual

theorem passable_ofJson : ∀ j : Json, (ofJson j).passable = true
  | .null | .bool _ | .number _ | .string _ => by simp [ofJson, passable]
  | .array items => by simp [ofJson, passable, passableItems_ofItems items]
  | .object members => by simp [ofJson, passable, passableMembers_ofMembers members]

theorem passableItems_ofItems : ∀ items : List Json, passableItems (ofItems items) = true
  | [] => by simp [ofItems, passableItems]
  | item :: items => by
    simp [ofItems, passableItems, passable_ofJson item, passableItems_ofItems items]

theorem passableMembers_ofMembers :
    ∀ members : List (String × Json), passableMembers (ofMembers members) = true
  | [] => by simp [ofMembers, passableMembers]
  | (name, value) :: members => by
    simp [ofMembers, passableMembers, passable_ofJson value, passableMembers_ofMembers members]

end

end Source
end MarketMaking.Json
