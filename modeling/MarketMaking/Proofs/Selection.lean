import MarketMaking.Proofs.Greedy

/-! Greedy matchings between some of the orders only. If the kept pairs do not leave the selected
orders, then the ones among them are what a greedy run keeps between these alone (`Stable.relabel`),
and the orders that are left over are the same ones (`relocate_spare`). -/

namespace MarketMaking
namespace Reconciliation
variable {tolerance : Decimal} {existing desired orders : List Order}
  {rows columns : List (Order × Nat)} {M : Set (Nat × Nat)}

structure Selects (orders : List Order) (rows : List (Order × Nat)) : Prop where
  here : ∀ r ∈ rows, orders[r.2]? = some r.1
  rising : (rows.map (·.2)).Pairwise (· < ·)

theorem selects_filter (orders : List Order) (wanted : Order × Nat → Bool) :
    Selects orders (orders.zipIdx.filter wanted) := by
  refine ⟨fun r here => ?_, rising_filter orders wanted⟩
  exact List.mk_mem_zipIdx_iff_getElem?.mp (List.mem_of_mem_filter here)

namespace Selects
variable {r t : Order × Nat} {i j : Nat}

theorem lt_iff (selects : Selects orders rows) (first : rows[i]? = some r)
    (second : rows[j]? = some t) : r.2 < t.2 ↔ i < j := by
  obtain ⟨short, rfl⟩ := List.getElem?_eq_some_iff.mp first
  obtain ⟨short', rfl⟩ := List.getElem?_eq_some_iff.mp second
  have rising := List.pairwise_iff_getElem.mp (List.pairwise_map.mp selects.rising)
  constructor
  · intro less
    by_contra other
    rcases Nat.lt_or_eq_of_le (Nat.le_of_not_lt other) with above | rfl
    · exact absurd (rising j i short' short above) (Nat.lt_asymm less)
    · exact Nat.lt_irrefl _ less
  · exact rising i j short short'

theorem eq_iff (selects : Selects orders rows) (first : rows[i]? = some r)
    (second : rows[j]? = some t) : r.2 = t.2 ↔ i = j := by
  have less := selects.lt_iff first second
  have more := selects.lt_iff second first
  omega

theorem order (selects : Selects orders rows) (first : rows[i]? = some r) :
    orders[r.2]? = some r.1 := selects.here r (List.mem_of_getElem? first)

end Selects

def relabel (rows columns : List (Order × Nat)) (M : Set (Nat × Nat)) : Set (Nat × Nat) :=
  {p | ∃ r c, rows[p.1]? = some r ∧ columns[p.2]? = some c ∧ (r.2, c.2) ∈ M}

theorem costs_selected (above : Selects existing rows) (across : Selects desired columns)
    {r c : Order × Nat} {i j : Nat} (row : rows[i]? = some r) (column : columns[j]? = some c) :
    costs tolerance (rows.map (·.1)) (columns.map (·.1)) i j =
      costs tolerance existing desired r.2 c.2 := by
  simp [costs, row, column, above.order row, across.order column]

theorem rank_selected (above : Selects existing rows) (across : Selects desired columns)
    {r c r' c' : Order × Nat} {p q : Nat × Nat} (row : rows[p.1]? = some r)
    (column : columns[p.2]? = some c) (row' : rows[q.1]? = some r')
    (column' : columns[q.2]? = some c') :
    (costs tolerance (rows.map (·.1)) (columns.map (·.1))).rank p <
        (costs tolerance (rows.map (·.1)) (columns.map (·.1))).rank q ↔
      (costs tolerance existing desired).rank (r.2, c.2) <
        (costs tolerance existing desired).rank (r'.2, c'.2) := by
  simp only [Costs.rank, Prod.Lex.toLex_lt_toLex, costs_selected above across row column,
    costs_selected above across row' column', above.lt_iff row row', above.eq_iff row row',
    across.lt_iff column column']

theorem Costs.Stable.relabel (above : Selects existing rows) (across : Selects desired columns)
    (stable : (costs tolerance existing desired).Stable M)
    (closed : ∀ p ∈ M, p.1 ∈ rows.map (·.2) ↔ p.2 ∈ columns.map (·.2)) :
    (costs tolerance (rows.map (·.1)) (columns.map (·.1))).Stable (relabel rows columns M) := by
  refine ⟨?_, ?_, ?_⟩
  · rintro p ⟨r, c, row, column, pair⟩
    have allowed := stable.allowed _ pair
    rwa [Costs.Allows, costs_selected above across row column]
  · rintro p ⟨r, c, row, column, pair⟩ q ⟨r', c', row', column', pair'⟩ meets
    have meets : Meets (r.2, c.2) (r'.2, c'.2) :=
      meets.imp (above.eq_iff row row').mpr (across.eq_iff column column').mpr
    obtain ⟨sameRow, sameColumn⟩ := Prod.ext_iff.mp (stable.apart _ pair _ pair' meets)
    exact Prod.ext ((above.eq_iff row row').mp sameRow)
      ((across.eq_iff column column').mp sameColumn)
  · intro p allowed absent
    obtain ⟨x, cost⟩ := Option.isSome_iff_exists.mp allowed
    obtain ⟨o, d, here, wanted, -⟩ := costs_eq_some.mp cost
    rw [List.getElem?_map, Option.map_eq_some_iff] at here wanted
    obtain ⟨r, row, rfl⟩ := here
    obtain ⟨c, column, rfl⟩ := wanted
    have whole : (costs tolerance existing desired).Allows (r.2, c.2) := by
      rwa [Costs.Allows, ← costs_selected above across row column]
    obtain ⟨q, pair, meets, lower⟩ :=
      stable.yields _ whole fun pair => absent ⟨r, c, row, column, pair⟩
    have inside : q.1 ∈ rows.map (·.2) ∧ q.2 ∈ columns.map (·.2) := by
      rcases meets with same | same
      · have left : q.1 ∈ rows.map (·.2) :=
          same ▸ List.mem_map_of_mem (List.mem_of_getElem? row)
        exact ⟨left, (closed q pair).mp left⟩
      · have right : q.2 ∈ columns.map (·.2) :=
          same ▸ List.mem_map_of_mem (List.mem_of_getElem? column)
        exact ⟨(closed q pair).mpr right, right⟩
    obtain ⟨⟨r', left, atRow⟩, c', right, atColumn⟩ :=
      inside.imp List.mem_map.mp List.mem_map.mp
    obtain ⟨i, row'⟩ := List.getElem?_of_mem left
    obtain ⟨j, column'⟩ := List.getElem?_of_mem right
    have spot : q = (r'.2, c'.2) := Prod.ext atRow.symm atColumn.symm
    subst spot
    refine ⟨(i, j), ⟨r', c', row', column', pair⟩, ?_, ?_⟩
    · exact meets.imp (above.eq_iff row row').mp (across.eq_iff column column').mp
    · exact (rank_selected above across row' column' row column).mpr lower

-- Between the selected orders alone, a greedy run keeps the pairs that it keeps among them.
theorem places_selected {kept part : List Candidate} (above : Selects existing rows)
    (across : Selects desired columns)
    (closed : ∀ p ∈ places kept, p.1 ∈ rows.map (·.2) ↔ p.2 ∈ columns.map (·.2))
    (matched : matching tolerance existing desired = .ok kept)
    (alone : matching tolerance (rows.map (·.1)) (columns.map (·.1)) = .ok part) :
    places part = relabel rows columns (places kept) :=
  (matching_stable alone).unique (finite_allows _ _ _)
    ((matching_stable matched).relabel above across closed)

theorem any_existing {kept : List Candidate} {i : Nat} :
    kept.any (·.existing == i) = true ↔ ∃ j, (i, j) ∈ places kept := by
  simp [places, Candidate.place]

theorem any_desired {kept : List Candidate} {j : Nat} :
    kept.any (·.desired == j) = true ↔ ∃ i, (i, j) ∈ places kept := by
  simp [places, Candidate.place]

section
variable {kept part : List Candidate} {i : Nat} {r : Order × Nat}

theorem any_existing_selected
    (closed : ∀ p ∈ places kept, p.1 ∈ rows.map (·.2) ↔ p.2 ∈ columns.map (·.2))
    (same : places part = relabel rows columns (places kept)) (row : rows[i]? = some r) :
    part.any (·.existing == i) = kept.any (·.existing == r.2) := by
  rw [Bool.eq_iff_iff, any_existing, any_existing, same]
  constructor
  · rintro ⟨j, r', c, row', column, pair⟩
    cases row.symm.trans row'
    exact ⟨c.2, pair⟩
  · rintro ⟨j, pair⟩
    have right := (closed _ pair).mp (List.mem_map_of_mem (List.mem_of_getElem? row))
    obtain ⟨c, here, rfl⟩ := List.mem_map.mp right
    obtain ⟨k, column⟩ := List.getElem?_of_mem here
    exact ⟨k, r, c, row, column, pair⟩

theorem any_desired_selected
    (closed : ∀ p ∈ places kept, p.1 ∈ rows.map (·.2) ↔ p.2 ∈ columns.map (·.2))
    (same : places part = relabel rows columns (places kept)) (column : columns[i]? = some r) :
    part.any (·.desired == i) = kept.any (·.desired == r.2) := by
  rw [Bool.eq_iff_iff, any_desired, any_desired, same]
  constructor
  · rintro ⟨j, r', c, row, column', pair⟩
    cases column.symm.trans column'
    exact ⟨r'.2, pair⟩
  · rintro ⟨j, pair⟩
    have left := (closed _ pair).mpr (List.mem_map_of_mem (List.mem_of_getElem? column))
    obtain ⟨r', here, rfl⟩ := List.mem_map.mp left
    obtain ⟨k, row⟩ := List.getElem?_of_mem here
    exact ⟨k, r', r, row, column, pair⟩

end

def relocate (rows : List (Order × Nat)) (part : List (Order × Nat)) : List (Order × Nat) :=
  part.filterMap fun p => rows[p.2]?

theorem relocate_spare {taken taken' : Nat → Bool}
    (agree : ∀ i r, rows[i]? = some r → taken' i = taken r.2) :
    relocate rows (spare (rows.map (·.1)) taken') = rows.filter fun r => !taken r.2 := by
  have found : ∀ e ∈ rows.zipIdx, rows[e.2]? = some e.1 :=
    fun e here => List.mem_zipIdx_iff_getElem?.mp here
  calc relocate rows (spare (rows.map (·.1)) taken')
      = (rows.zipIdx.filter fun e => !taken' e.2).filterMap fun e => rows[e.2]? := by
        rw [relocate, spare, List.zipIdx_map, List.filter_map, List.filterMap_map]
        rfl
    _ = (rows.zipIdx.filter fun e => !taken e.1.2).filterMap fun e => some e.1 := by
        rw [List.filter_congr fun e here => by rw [agree e.2 e.1 (found e here)]]
        exact List.filterMap_congr fun e here => found e (List.mem_of_mem_filter here)
    _ = (rows.zipIdx.map (·.1)).filter fun r => !taken r.2 := by
        rw [List.filterMap_eq_map', List.filter_map]
        rfl
    _ = rows.filter fun r => !taken r.2 := by rw [List.zipIdx_map_fst]

theorem map_relocate_spare (rows : List (Order × Nat)) (taken : Nat → Bool) :
    (relocate rows (spare (rows.map (·.1)) taken)).map (·.1) = leftOver (rows.map (·.1)) taken := by
  have orders := filterMap_spare (rows.map (·.1)) taken
  simp only [List.getElem?_map] at orders
  rw [relocate, List.map_filterMap, orders]
  rfl

end Reconciliation
end MarketMaking
