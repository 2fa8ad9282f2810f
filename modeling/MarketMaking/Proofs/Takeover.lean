import MarketMaking.Proofs.Greedy

/-! What a greedy run makes of a book on which a plan was executed. The placed copies take their own
positions or earlier ones as good; the kept orders then find positions as good as their old ones
(`Executed.covers`). -/

namespace MarketMaking
namespace Reconciliation
namespace Costs
variable {w : Costs} {M N : Set (Nat × Nat)} {old : Nat} {p q r : Nat × Nat} {i j k l : Nat}

theorem rank_lt_iff : w.rank p < w.rank q ↔ (w p.1 p.2).getD 0 < (w q.1 q.2).getD 0 ∨
    (w p.1 p.2).getD 0 = (w q.1 q.2).getD 0 ∧ (p.1 < q.1 ∨ p.1 = q.1 ∧ p.2 < q.2) := by
  simp only [rank, Prod.Lex.toLex_lt_toLex]

def Alike (w : Costs) (old j k : Nat) : Prop := ∀ i < old, w i j = w i k

-- Intended pairs, one for each row. They are stable between the old rows, and the new rows cost
-- nothing. Another column that costs a new row nothing is alike to the intended one; then so is
-- a column that costs an old row the same, unless it comes after all that are.
structure Executed (w : Costs) (old : Nat) (N : Set (Nat × Nat)) : Prop where
  nonneg : ∀ i j x, w i j = some x → 0 ≤ x
  allowed : ∀ p ∈ N, w.Allows p
  apart : ∀ p ∈ N, ∀ q ∈ N, Meets p q → p = q
  row : ∀ p, w.Allows p → ∃ j, (p.1, j) ∈ N
  column : ∀ p, w.Allows p → ∃ i, (i, p.2) ∈ N
  yields : ∀ p, w.Allows p → p.1 < old → p ∉ N →
    ∃ q ∈ N, q.1 < old ∧ Meets p q ∧ w.rank q < w.rank p
  fresh : ∀ p ∈ N, old ≤ p.1 → w p.1 p.2 = some 0
  rising : ∀ p ∈ N, ∀ q ∈ N, old ≤ p.1 → p.1 < q.1 → p.2 < q.2
  alike : ∀ p ∈ N, old ≤ p.1 → ∀ k ≠ p.2, w p.1 k = some 0 → w.Alike old p.2 k
  unrivalled : ∀ p ∈ N, old ≤ p.1 → ∀ k ≠ p.2, w p.1 k = some 0 → ∀ i < old, ∀ l,
    w i p.2 ≠ none → w i l = w i p.2 → ∀ m > l, w.Alike old p.2 m → w.Alike old p.2 l

namespace Executed

theorem zero_of_rank_lt (executed : w.Executed old N) (zero : w p.1 p.2 = some 0)
    (allowed : w.Allows q) (lower : w.rank q < w.rank p) :
    w q.1 q.2 = some 0 ∧ (q.1 < p.1 ∨ q.1 = p.1 ∧ q.2 < p.2) := by
  obtain ⟨x, cost⟩ := Option.isSome_iff_exists.mp allowed
  have nonneg := executed.nonneg _ _ _ cost
  rw [rank_lt_iff, zero, cost, Option.getD_some, Option.getD_some] at lower
  rcases lower with less | ⟨rfl, before⟩
  · exact absurd less (not_lt_of_ge nonneg)
  · exact ⟨cost, before⟩

theorem keeps_zero (executed : w.Executed old N) (stable : w.Stable M) (here : p ∈ N)
    (below : p.1 < old) (zero : w p.1 p.2 = some 0) : p ∈ M := by
  obtain ⟨i, j⟩ := p
  induction i using Nat.strongRecOn generalizing j with
  | ind i ih =>
    by_contra absent
    obtain ⟨q, taken, meets, lower⟩ := stable.yields (i, j) (executed.allowed _ here) absent
    have claimed := stable.allowed q taken
    obtain ⟨nothing, before⟩ := executed.zero_of_rank_lt zero claimed lower
    have other : q ∉ N := fun also => absent (executed.apart _ here q also meets ▸ taken)
    have small : q.1 < old := by omega
    obtain ⟨r, kept, low, meets', lower'⟩ := executed.yields q claimed small other
    have settled := executed.allowed r kept
    obtain ⟨nothing', before'⟩ := executed.zero_of_rank_lt nothing settled lower'
    rcases Nat.lt_or_ge r.1 i with less | more
    · have stays := ih r.1 less r.2 kept low nothing'
      exact other (stable.apart q taken r stays meets' ▸ kept)
    · have same := executed.apart _ here r kept (.inl (by simp only; omega))
      exact absurd (lower'.trans lower) (same ▸ lt_irrefl _)

theorem takes_zero (executed : w.Executed old N) (stable : w.Stable M) (here : p ∈ N)
    (new : old ≤ p.1) : ∃ k ≤ p.2, (p.1, k) ∈ M ∧ w p.1 k = some 0 := by
  obtain ⟨i, j⟩ := p
  induction i using Nat.strongRecOn generalizing j with
  | ind i ih =>
    have zero := executed.fresh _ here new
    by_cases stays : (i, j) ∈ M
    · exact ⟨j, Nat.le_refl j, stays, zero⟩
    obtain ⟨q, taken, meets, lower⟩ := stable.yields (i, j) (executed.allowed _ here) stays
    have claimed := stable.allowed q taken
    obtain ⟨nothing, before⟩ := executed.zero_of_rank_lt zero claimed lower
    rcases before with less | ⟨same, less⟩
    · have column : j = q.2 := meets.resolve_left (Nat.ne_of_gt less)
      obtain ⟨h, meant⟩ := executed.row q claimed
      rcases Nat.lt_or_ge q.1 old with low | high
      · have other : q ∉ N := fun also =>
          Nat.ne_of_gt less (congrArg Prod.fst (executed.apart _ here q also meets))
        obtain ⟨r, kept, low', meets', lower'⟩ := executed.yields q claimed low other
        have settled := executed.allowed r kept
        obtain ⟨nothing', -⟩ := executed.zero_of_rank_lt nothing settled lower'
        have stays' := executed.keeps_zero stable kept low' nothing'
        exact absurd (stable.apart q taken r stays' meets' ▸ kept) other
      · obtain ⟨k, most, taken', -⟩ := ih q.1 less h meant high
        have same := congrArg Prod.snd (stable.apart q taken (q.1, k) taken' (.inl rfl))
        have rises := executed.rising _ meant _ here high less
        simp only at same rises most
        omega
    · exact ⟨q.2, Nat.le_of_lt less, same ▸ taken, same ▸ nothing⟩

def Loose (w : Costs) (old : Nat) (N : Set (Nat × Nat)) (j : Nat) : Prop :=
  ∃ p ∈ N, old ≤ p.1 ∧ (∃ k ≠ p.2, w p.1 k = some 0) ∧ w.Alike old p.2 j

-- Columns that stand for each other: each for itself, and loose ones for those alike to them.
def Stands (w : Costs) (old : Nat) (N : Set (Nat × Nat)) (j k : Nat) : Prop :=
  j = k ∨ Loose w old N j ∧ w.Alike old j k

theorem Stands.symm (stands : Stands w old N j k) : Stands w old N k j := by
  rcases stands with rfl | ⟨⟨p, here, new, free, alike⟩, same⟩
  · exact .inl rfl
  · exact .inr ⟨⟨p, here, new, free, fun i low => (alike i low).trans (same i low)⟩,
      fun i low => (same i low).symm⟩

theorem Stands.trans (one : Stands w old N j k) (two : Stands w old N k l) :
    Stands w old N j l := by
  rcases one with rfl | ⟨loose, same⟩
  · exact two
  · rcases two with rfl | ⟨-, same'⟩
    · exact .inr ⟨loose, same⟩
    · exact .inr ⟨loose, fun i low => (same i low).trans (same' i low)⟩

theorem Stands.cost (stands : Stands w old N j k) (low : i < old) : w i j = w i k := by
  rcases stands with rfl | ⟨-, same⟩
  · rfl
  · exact same i low

theorem stands_of_tie (executed : w.Executed old N) (loose : Loose w old N j) (low : i < old)
    (some : w i j ≠ none) (tie : w i l = w i j) (stands : Stands w old N j k) (before : l < k) :
    Stands w old N j l := by
  have own := loose
  obtain ⟨p, here, new, ⟨free, other, zero⟩, alike⟩ := loose
  have same := alike i low
  have late : w.Alike old p.2 k := fun i low => (alike i low).trans (stands.cost low)
  have rival := executed.unrivalled p here new free other zero i low l (same ▸ some)
    (tie.trans same.symm) k before late
  exact .inr ⟨own, fun i low => (alike i low).symm.trans (rival i low)⟩

theorem stands_of_taken (executed : w.Executed old N) (stable : w.Stable M) (here : p ∈ N)
    (new : old ≤ p.1) (taken : (p.1, k) ∈ M) : Stands w old N p.2 k := by
  obtain ⟨k', -, taken', zero⟩ := executed.takes_zero stable here new
  have same : k = k' := congrArg Prod.snd (stable.apart _ taken _ taken' (.inl rfl))
  subst same
  by_cases own : k = p.2
  · exact .inl own.symm
  · exact .inr ⟨⟨p, here, new, ⟨k, own, zero⟩, fun _ _ => rfl⟩,
      executed.alike p here new k own zero⟩

theorem onto_of_into {C : Set Nat} (finite : C.Finite) {R : Nat → Nat → Prop}
    (into : ∀ k ∈ C, ∃ l ∈ C, R k l) (injective : ∀ k k' l, R k l → R k' l → k = k') :
    ∀ l ∈ C, ∃ k ∈ C, R k l := by
  choose! f inside related using into
  have injOn : Set.InjOn f C := fun k here k' here' same =>
    injective k k' (f k) (related k here) (same ▸ related k' here')
  have onto := ((finite.injOn_iff_bijOn_of_mapsTo inside).mp injOn).surjOn
  intro l here
  obtain ⟨k, there, rfl⟩ := onto here
  exact ⟨k, there, related k there⟩

theorem joint_injective {M' : Set (Nat × Nat)} (apart : ∀ p ∈ M, ∀ q ∈ M, Meets p q → p = q)
    (apart' : ∀ p ∈ M', ∀ q ∈ M', Meets p q → p = q) (k k' l : Nat)
    (one : ∃ z, (z, k) ∈ M ∧ (z, l) ∈ M') (other : ∃ z, (z, k') ∈ M ∧ (z, l) ∈ M') : k = k' := by
  obtain ⟨z, here, there⟩ := one
  obtain ⟨z', here', there'⟩ := other
  have row := congrArg Prod.fst (apart' _ there _ there' (.inr rfl))
  exact congrArg Prod.snd (apart _ here _ here' (.inl row))

theorem finite_stands (finite : {p | w.Allows p}.Finite) (low : i < old)
    (some : w i j ≠ none) : {k | Stands w old N j k}.Finite := by
  apply (finite.image Prod.snd).subset
  intro k stands
  refine ⟨(i, k), ?_, rfl⟩
  exact Option.isSome_iff_ne_none.mpr (stands.cost low ▸ some)

def Served (w : Costs) (old : Nat) (N M : Set (Nat × Nat)) (p : Nat × Nat) : Prop :=
  ∃ k, (p.1, k) ∈ M ∧ Stands w old N p.2 k

theorem alone_of_tie (executed : w.Executed old N) (low : i < old) (some : w i j ≠ none)
    (tie : w i j = w i l) (apart : ¬ Stands w old N j l) (stands : Stands w old N j k)
    (before : l < k) : k = j := by
  rcases stands with same | ⟨loose, alike⟩
  · exact same.symm
  · exact absurd (executed.stands_of_tie loose low some tie.symm (.inr ⟨loose, alike⟩) before) apart

-- Where a column is cheaper for a row than the ones that would serve it, or as cheap and earlier,
-- the row does not yield what stands for that column to its own: the two would cost the same, then
-- only the positions decide, and they would have to be in both orders.
theorem not_own (executed : w.Executed old N) (here : p ∈ N) (low : p.1 < old)
    (some : w p.1 l ≠ none) (other : ¬ Stands w old N p.2 l) (stands : Stands w old N p.2 k)
    (ahead : w.rank (p.1, l) < w.rank (p.1, k)) (stands' : Stands w old N l i) :
    ¬ w.rank p < w.rank (p.1, i) := by
  intro lower
  have own : w p.1 p.2 ≠ none := Option.isSome_iff_ne_none.mp (executed.allowed p here)
  simp only [rank_lt_iff, ← stands.cost low, ← stands'.cost low, lt_self_iff_false, false_or,
    true_and] at ahead lower
  have tie : w p.1 l = w p.1 p.2 := by
    obtain ⟨x, first⟩ := Option.ne_none_iff_exists'.mp some
    obtain ⟨y, second⟩ := Option.ne_none_iff_exists'.mp own
    rw [first, second, Option.getD_some, Option.getD_some] at ahead lower
    rw [first, second]
    exact congrArg Option.some (le_antisymm (ahead.elim le_of_lt fun same => same.1.le)
      (lower.elim le_of_lt fun same => same.1.le))
  rw [tie] at ahead lower
  simp only [lt_self_iff_false, false_or, true_and] at ahead lower
  have alone := executed.alone_of_tie low own tie.symm other stands ahead
  have alone' := executed.alone_of_tie low some tie (fun back => other back.symm) stands' lower
  omega

-- A row of least rank that is not served has not taken a column ahead of one that would serve it:
-- all that stand for that column are intended for rows of lower rank, which are served, so that
-- none of them is left.
theorem not_ahead (executed : w.Executed old N) (stable : w.Stable M)
    (finite : {p | w.Allows p}.Finite) (here : p ∈ N) (low : p.1 < old)
    (least : ∀ q ∈ N, q.1 < old → w.rank q < w.rank p → Served w old N M q)
    (stands : Stands w old N p.2 k) (taken : (p.1, l) ∈ M)
    (ahead : w.rank (p.1, l) < w.rank (p.1, k)) : Stands w old N p.2 l := by
  by_contra other
  have some : w p.1 l ≠ none := Option.isSome_iff_ne_none.mp (stable.allowed _ taken)
  have apart : ¬ Stands w old N l p.2 := fun back => other back.symm
  have earlier : ∀ k' ∈ {k' | Stands w old N l k'}, ∃ l' ∈ {k' | Stands w old N l k'},
      ∃ z, (z, k') ∈ N ∧ (z, l') ∈ M := by
    intro k' stands'
    have cost := stands'.cost low
    have absent : (p.1, k') ∉ N := fun also =>
      apart (congrArg Prod.snd (executed.apart p here _ also (.inl rfl)) ▸ stands')
    obtain ⟨r, kept, below, meets, lower⟩ := executed.yields (p.1, k')
      (Option.isSome_iff_ne_none.mpr (cost ▸ some)) low absent
    rcases meets with row | column
    · have own := executed.apart p here r kept (.inl row)
      exact absurd (own ▸ lower) (executed.not_own here low some other stands ahead stands')
    · simp only at column
      have ranked : w.rank r < w.rank p := by
        rw [rank_lt_iff, ← cost] at lower
        rw [rank_lt_iff, ← stands.cost low] at ahead
        rw [rank_lt_iff]
        rcases lower with less | ⟨same, before⟩
        · exact .inl (less.trans_le (ahead.elim le_of_lt fun same => same.1.le))
        · have row : r.1 < p.1 := by omega
          rw [same]
          exact ahead.imp_right fun equal => ⟨equal.1, .inl row⟩
      obtain ⟨l', taken', stands''⟩ := least r kept below ranked
      exact ⟨l', stands'.trans (column ▸ stands''), r.1, column ▸ kept, taken'⟩
  obtain ⟨k', stands', z, meant, has⟩ :=
    onto_of_into (finite_stands finite low some) earlier
      (joint_injective executed.apart stable.apart) l (.inl rfl)
  have row : z = p.1 := congrArg Prod.fst (stable.apart _ has _ taken (.inr rfl))
  have own := congrArg Prod.snd (executed.apart _ meant p here (.inl row))
  exact apart (own ▸ stands')

-- An old row that is ahead of it on such a column is meant for one, too: it would yield that column
-- to its own, which ranks below the row then and is served.
theorem stands_of_ahead (executed : w.Executed old N) (stable : w.Stable M) (here : p ∈ N)
    (low : p.1 < old) (least : ∀ q ∈ N, q.1 < old → w.rank q < w.rank p → Served w old N M q)
    (stands : Stands w old N p.2 k) (taken : (i, k) ∈ M) (meant : (i, l) ∈ N) (below : i < old)
    (ahead : w.rank (i, k) < w.rank (p.1, k)) : Stands w old N p.2 l := by
  by_contra other
  have cost : w i p.2 = w i k := stands.cost below
  have absent : (i, p.2) ∉ N := fun also =>
    other (.inl (congrArg Prod.snd (executed.apart _ also _ meant (.inl rfl))))
  have possible : w.Allows (i, p.2) := by
    have claimed : w.Allows (i, k) := stable.allowed _ taken
    simpa only [Costs.Allows, cost] using claimed
  obtain ⟨r, kept, -, meets, lower⟩ := executed.yields _ possible below absent
  simp only [rank_lt_iff, ← cost, ← stands.cost low] at ahead lower
  have least' : w.rank (i, p.2) < w.rank p := by
    rw [rank_lt_iff]
    exact ahead.imp_right fun same => ⟨same.1, .inl (by omega)⟩
  rcases meets with row | column
  · have own : (i, l) = r := executed.apart _ meant r kept (.inl row)
    subst own
    have ranked : w.rank (i, l) < w.rank p := (rank_lt_iff.mpr lower).trans least'
    obtain ⟨k', taken', stands'⟩ := least _ meant below ranked
    have same : k' = k := congrArg Prod.snd (stable.apart _ taken' _ taken (.inl rfl))
    exact other (stands.trans (same ▸ stands'.symm))
  · have own : p = r := executed.apart p here r kept (.inr column)
    exact absurd ((rank_lt_iff.mpr lower).trans least') (own ▸ lt_irrefl _)

-- Nor are all columns that would serve it taken by others: these are rows whose intended columns
-- stand for them too, and the intended column of the row itself is among these.
theorem served_of_least (executed : w.Executed old N) (stable : w.Stable M)
    (finite : {p | w.Allows p}.Finite) (here : p ∈ N) (low : p.1 < old)
    (least : ∀ q ∈ N, q.1 < old → w.rank q < w.rank p → Served w old N M q) :
    Served w old N M p := by
  by_contra unserved
  have some : w p.1 p.2 ≠ none := Option.isSome_iff_ne_none.mp (executed.allowed p here)
  have claimed : ∀ k ∈ {k | Stands w old N p.2 k}, ∃ h ∈ {k | Stands w old N p.2 k},
      ∃ z, (z, k) ∈ M ∧ (z, h) ∈ N := by
    intro k stands
    have cost := stands.cost low
    have absent : (p.1, k) ∉ M := fun also => unserved ⟨k, also, stands⟩
    obtain ⟨⟨z, c⟩, taken, meets, ahead⟩ := stable.yields (p.1, k)
      (Option.isSome_iff_ne_none.mpr (cost ▸ some)) absent
    rcases meets with row | column
    · simp only at row
      subst row
      exact absurd ⟨c, taken, executed.not_ahead stable finite here low least stands taken ahead⟩
        unserved
    simp only at column
    subst column
    obtain ⟨h, meant⟩ := executed.row _ (stable.allowed _ taken)
    refine ⟨h, ?_, z, taken, meant⟩
    rcases Nat.lt_or_ge z old with low' | new
    · exact executed.stands_of_ahead stable here low least stands taken meant low' ahead
    · exact stands.trans (executed.stands_of_taken stable meant new taken).symm
  obtain ⟨k, stands, z, has, meant⟩ :=
    onto_of_into (finite_stands finite low some) claimed
      (joint_injective stable.apart executed.apart) p.2 (.inl rfl)
  have row : z = p.1 := congrArg Prod.fst (executed.apart _ meant p here (.inr rfl))
  exact unserved ⟨k, row ▸ has, stands⟩

theorem served (executed : w.Executed old N) (stable : w.Stable M)
    (finite : {p | w.Allows p}.Finite) (here : p ∈ N) (low : p.1 < old) : Served w old N M p := by
  by_contra unserved
  have bounded : {p | p ∈ N ∧ p.1 < old ∧ ¬ Served w old N M p}.Finite :=
    finite.subset fun p bad => executed.allowed p bad.1
  obtain ⟨q, ⟨meant, below, bad⟩, least⟩ :=
    Set.exists_min_image _ w.rank bounded ⟨p, here, low, unserved⟩
  refine bad (executed.served_of_least stable finite meant below ?_)
  intro r kept under ranked
  by_contra worse
  exact absurd (least r ⟨kept, under, worse⟩) (not_le_of_gt ranked)

theorem covers (executed : w.Executed old N) (stable : w.Stable M)
    (finite : {p | w.Allows p}.Finite) (here : p ∈ N) :
    (∃ k, (p.1, k) ∈ M) ∧ ∃ i, (i, p.2) ∈ M := by
  have rows : ∀ q ∈ N, ∃ k, (q.1, k) ∈ M := by
    intro q meant
    rcases Nat.lt_or_ge q.1 old with low | new
    · obtain ⟨k, taken, -⟩ := executed.served stable finite meant low
      exact ⟨k, taken⟩
    · obtain ⟨k, -, taken, -⟩ := executed.takes_zero stable meant new
      exact ⟨k, taken⟩
  refine ⟨rows p here, ?_⟩
  have bounded : {j | ∃ i, (i, j) ∈ N}.Finite := by
    apply (finite.image Prod.snd).subset
    rintro j ⟨i, meant⟩
    exact ⟨(i, j), executed.allowed _ meant, rfl⟩
  have into : ∀ j ∈ {j | ∃ i, (i, j) ∈ N}, ∃ k ∈ {j | ∃ i, (i, j) ∈ N},
      ∃ z, (z, j) ∈ N ∧ (z, k) ∈ M := by
    rintro j ⟨i, meant⟩
    obtain ⟨k, taken⟩ := rows (i, j) meant
    exact ⟨k, executed.column _ (stable.allowed _ taken), i, meant, taken⟩
  obtain ⟨j, -, z, -, taken⟩ :=
    onto_of_into bounded into (joint_injective executed.apart stable.apart) p.2 ⟨p.1, here⟩
  exact ⟨z, taken⟩

end Executed
end Costs
end Reconciliation
end MarketMaking
