import MarketMaking.Proofs.Matching
import MarketMaking.Proofs.Rational

/-! Which pairs a greedy run keeps, said without the run: every other pair of equivalent orders
shares an order with a kept pair that comes before it. Just one set of pairs is like that
(`Stable.unique`). -/

namespace MarketMaking

namespace Candidate
variable {a b c : Candidate}

def place (c : Candidate) : Nat × Nat := (c.existing, c.desired)

def key (c : Candidate) : ℚ ×ₗ ℕ ×ₗ ℕ := toLex (c.score.value, toLex c.place)

theorem precedes_iff : a.precedes b = true ↔ a.key ≤ b.key := by
  simp only [precedes, key, place, Bool.or_eq_true, Bool.and_eq_true, decide_eq_true_eq,
    beq_iff_eq, Decimal.lt_iff, Decimal.equiv_iff, Prod.Lex.toLex_le_toLex]

theorem pairwise_mergeSort (found : List Candidate) :
    (found.mergeSort precedes).Pairwise fun a b => a.key ≤ b.key := by
  have sorted : (found.mergeSort precedes).Pairwise fun a b => precedes a b := by
    apply List.pairwise_mergeSort
    · exact fun a b c one two =>
        precedes_iff.mpr ((precedes_iff.mp one).trans (precedes_iff.mp two))
    · intro a b
      simpa [precedes_iff] using le_total a.key b.key
  exact sorted.imp precedes_iff.mp

end Candidate

namespace Reconciliation

abbrev Costs := Nat → Nat → Option ℚ

def Meets (p q : Nat × Nat) : Prop := p.1 = q.1 ∨ p.2 = q.2

theorem Meets.symm {p q : Nat × Nat} (meets : Meets p q) : Meets q p := meets.imp Eq.symm Eq.symm

namespace Costs
variable {w : Costs} {M N : Set (Nat × Nat)} {p q : Nat × Nat}

def Allows (w : Costs) (p : Nat × Nat) : Prop := (w p.1 p.2).isSome

def rank (w : Costs) (p : Nat × Nat) : ℚ ×ₗ ℕ ×ₗ ℕ := toLex ((w p.1 p.2).getD 0, toLex p)

-- Pairs that may be matched, of which no two meet, and which leave out no pair but for one of
-- lower rank that it meets.
structure Stable (w : Costs) (M : Set (Nat × Nat)) : Prop where
  allowed : ∀ p ∈ M, w.Allows p
  apart : ∀ p ∈ M, ∀ q ∈ M, Meets p q → p = q
  yields : ∀ p, w.Allows p → p ∉ M → ∃ q ∈ M, Meets p q ∧ w.rank q < w.rank p

theorem Stable.disputed (one : w.Stable M) (other : w.Stable N) (here : p ∈ M) (absent : p ∉ N) :
    ∃ q ∈ N, q ∉ M ∧ w.rank q < w.rank p := by
  obtain ⟨q, there, meets, lower⟩ := other.yields p (one.allowed p here) absent
  refine ⟨q, there, fun also => ?_, lower⟩
  have same := one.apart p here q also meets
  exact absent (same ▸ there)

-- The pair of least rank that is in one of two such sets only would have to yield to another one.
theorem Stable.unique (finite : {p | w.Allows p}.Finite) (one : w.Stable M) (other : w.Stable N) :
    M = N := by
  by_contra different
  have bounded : (symmDiff M N).Finite := finite.subset fun p here =>
    here.elim (fun left => one.allowed p left.1) (fun right => other.allowed p right.1)
  obtain ⟨p, here, least⟩ :=
    Set.exists_min_image (symmDiff M N) w.rank bounded (Set.symmDiff_nonempty.mpr different)
  rcases here with ⟨inM, notN⟩ | ⟨inN, notM⟩
  · obtain ⟨q, there, absent, lower⟩ := one.disputed other inM notN
    exact absurd (least q (.inr ⟨there, absent⟩)) (not_le_of_gt lower)
  · obtain ⟨q, there, absent, lower⟩ := other.disputed one inN notM
    exact absurd (least q (.inl ⟨there, absent⟩)) (not_le_of_gt lower)

end Costs

variable {tolerance : Decimal} {existing desired : List Order} {kept : List Candidate}

def distance? (tolerance : Decimal) (o d : Order) : Option ℚ :=
  match equivalent tolerance o d, score o d with
  | .ok true, .ok s => some s.value
  | _, _ => none

def costs (tolerance : Decimal) (existing desired : List Order) : Costs := fun i j => do
  distance? tolerance (← existing[i]?) (← desired[j]?)

theorem distance?_eq_some {o d : Order} {x : ℚ} : distance? tolerance o d = some x ↔
    equivalent tolerance o d = .ok true ∧ ∃ s, score o d = .ok s ∧ s.value = x := by
  unfold distance?
  split
  · rename_i s close scored
    simp [close, scored]
  · rename_i neither
    constructor
    · nofun
    · rintro ⟨close, s, scored, -⟩
      exact absurd scored (neither s close)

theorem costs_eq_some {i j : Nat} {x : ℚ} : costs tolerance existing desired i j = some x ↔
    ∃ o d, existing[i]? = some o ∧ desired[j]? = some d ∧ distance? tolerance o d = some x := by
  simp [costs, Option.bind_eq_some_iff]

theorem finite_allows (tolerance : Decimal) (existing desired : List Order) :
    {p | (costs tolerance existing desired).Allows p}.Finite := by
  apply ((Set.finite_lt_nat existing.length).prod (Set.finite_lt_nat desired.length)).subset
  intro p allowed
  obtain ⟨x, cost⟩ := Option.isSome_iff_exists.mp allowed
  obtain ⟨o, d, here, wanted, -⟩ := costs_eq_some.mp cost
  exact ⟨(List.getElem?_eq_some_iff.mp here).1, (List.getElem?_eq_some_iff.mp wanted).1⟩

def places (kept : List Candidate) : Set (Nat × Nat) := {p | ∃ c ∈ kept, c.place = p}

theorem overlaps_iff {a b : Candidate} : a.overlaps b = true ↔ Meets a.place b.place := by
  simp [Candidate.overlaps, Meets, Candidate.place]

theorem rank_place {c : Candidate}
    (cost : costs tolerance existing desired c.existing c.desired = some c.score.value) :
    (costs tolerance existing desired).rank c.place = c.key := by
  simp only [Costs.rank, Candidate.key, Candidate.place, cost, Option.getD_some]

theorem matching_stable (through : matching tolerance existing desired = .ok kept) :
    (costs tolerance existing desired).Stable (places kept) := by
  have matched := matching_matches through
  obtain ⟨found, listed, accepted⟩ := matching_eq_ok.mp through
  have cost {c : Candidate} (here : c ∈ found) :
      costs tolerance existing desired c.existing c.desired = some c.score.value := by
    obtain ⟨o, d, pair, close, scored⟩ := candidates_scored listed here
    obtain ⟨here, wanted⟩ := mem_pairs.mp pair
    exact costs_eq_some.mpr ⟨o, d, here, wanted,
      distance?_eq_some.mpr ⟨close, c.score, scored, rfl⟩⟩
  have of_kept {c : Candidate} (standing : c ∈ kept) : c ∈ found := by
    rw [← accepted] at standing
    rcases mem_of_mem_accept standing with none | sorted
    · cases none
    · exact List.mem_mergeSort.mp sorted
  refine ⟨?_, ?_, ?_⟩
  · rintro p ⟨c, standing, rfl⟩
    exact Option.isSome_iff_exists.mpr ⟨_, cost (of_kept standing)⟩
  · rintro p ⟨a, first, rfl⟩ q ⟨b, second, rfl⟩ meets
    rw [matched.apart a first b second (overlaps_iff.mpr meets)]
  · intro p allowed absent
    obtain ⟨x, weight⟩ := Option.isSome_iff_exists.mp allowed
    obtain ⟨o, d, here, wanted, near⟩ := costs_eq_some.mp weight
    obtain ⟨c, member, row, column⟩ := (candidates_finds listed).complete o p.1 d p.2
      (mem_pairs.mpr ⟨here, wanted⟩) (distance?_eq_some.mp near).1
    have place : c.place = p := Prod.ext row column
    have sorted : List.Pairwise (fun a b : Candidate => a.key ≤ b.key)
        ([] ++ found.mergeSort Candidate.precedes) := Candidate.pairwise_mergeSort found
    obtain ⟨b, standing, overlap, before⟩ :=
      exists_overlap_of_mem sorted (List.mem_mergeSort.mpr member)
    rw [accepted] at standing
    have other : b ≠ c := by
      rintro rfl
      exact absent ⟨b, standing, place⟩
    refine ⟨b.place, ⟨b, standing, rfl⟩, ?_, ?_⟩
    · rw [← place]
      exact overlaps_iff.mp overlap
    · rw [← place, rank_place (cost member), rank_place (cost (of_kept standing))]
      refine lt_of_le_of_ne (before.resolve_left other) fun same => absent ⟨b, standing, ?_⟩
      rw [← place]
      exact congrArg (fun k => ofLex (ofLex k).2) same

variable {M : Set (Nat × Nat)} {p q : Nat × Nat}

def EquivalentAt (tolerance : Decimal) (existing desired : List Order) (p : Nat × Nat) : Prop :=
  ∃ o d, existing[p.1]? = some o ∧ desired[p.2]? = some d ∧ equivalent tolerance o d = .ok true

def ScoredAt (existing desired : List Order) (p : Nat × Nat) (s : Decimal) : Prop :=
  ∃ o d, existing[p.1]? = some o ∧ desired[p.2]? = some d ∧ score o d = .ok s

def Before (existing desired : List Order) (p q : Nat × Nat) : Prop :=
  ∃ s t, ScoredAt existing desired p s ∧ ScoredAt existing desired q t ∧
    (s < t ∨ s ≈ t ∧ (p.1 < q.1 ∨ p.1 = q.1 ∧ p.2 < q.2))

-- Pairs of equivalent orders that share no order, and that leave out a pair of equivalent orders
-- only if it shares one with a pair that comes before it.
structure GreedyPairs (tolerance : Decimal) (existing desired : List Order)
    (M : Set (Nat × Nat)) : Prop where
  equivalent : ∀ p ∈ M, EquivalentAt tolerance existing desired p
  apart : ∀ p ∈ M, ∀ q ∈ M, p.1 = q.1 ∨ p.2 = q.2 → p = q
  preceded : ∀ p, EquivalentAt tolerance existing desired p → p ∉ M →
    ∃ q ∈ M, (p.1 = q.1 ∨ p.2 = q.2) ∧ Before existing desired q p

theorem allows_iff (inRange : ∀ o ∈ existing, ∀ d ∈ desired, InRange tolerance o d) :
    (costs tolerance existing desired).Allows p ↔ EquivalentAt tolerance existing desired p := by
  constructor
  · intro allowed
    obtain ⟨x, cost⟩ := Option.isSome_iff_exists.mp allowed
    obtain ⟨o, d, here, wanted, near⟩ := costs_eq_some.mp cost
    exact ⟨o, d, here, wanted, (distance?_eq_some.mp near).1⟩
  · rintro ⟨o, d, here, wanted, equivalent⟩
    obtain ⟨close, tested, scored⟩ :=
      inRange o (List.mem_of_getElem? here) d (List.mem_of_getElem? wanted)
    cases tested.symm.trans equivalent
    obtain ⟨s, scored⟩ := scored rfl
    exact Option.isSome_iff_exists.mpr ⟨s.value, costs_eq_some.mpr ⟨o, d, here, wanted,
      distance?_eq_some.mpr ⟨equivalent, s, scored, rfl⟩⟩⟩

theorem ScoredAt.unique {s t : Decimal} (one : ScoredAt existing desired p s)
    (other : ScoredAt existing desired p t) : s = t := by
  obtain ⟨o, d, here, wanted, scored⟩ := one
  obtain ⟨o', d', here', wanted', scored'⟩ := other
  cases here.symm.trans here'
  cases wanted.symm.trans wanted'
  exact Except.ok.inj (scored.symm.trans scored')

theorem scoredAt_of_allows (allowed : (costs tolerance existing desired).Allows p) :
    ∃ s, ScoredAt existing desired p s ∧
      (costs tolerance existing desired).rank p = toLex (s.value, toLex p) := by
  obtain ⟨x, cost⟩ := Option.isSome_iff_exists.mp allowed
  obtain ⟨o, d, here, wanted, near⟩ := costs_eq_some.mp cost
  obtain ⟨-, s, scored, rfl⟩ := distance?_eq_some.mp near
  exact ⟨s, ⟨o, d, here, wanted, scored⟩, by rw [Costs.rank, cost, Option.getD_some]⟩

theorem before_iff (first : (costs tolerance existing desired).Allows p)
    (second : (costs tolerance existing desired).Allows q) : Before existing desired p q ↔
      (costs tolerance existing desired).rank p < (costs tolerance existing desired).rank q := by
  obtain ⟨s, scored, rank⟩ := scoredAt_of_allows first
  obtain ⟨t, scored', rank'⟩ := scoredAt_of_allows second
  rw [rank, rank']
  simp only [Prod.Lex.toLex_lt_toLex, ← Decimal.lt_iff, ← Decimal.equiv_iff]
  constructor
  · rintro ⟨s', t', one, other, before⟩
    cases scored.unique one
    cases scored'.unique other
    exact before
  · exact fun before => ⟨s, t, scored, scored', before⟩

theorem greedyPairs_iff (inRange : ∀ o ∈ existing, ∀ d ∈ desired, InRange tolerance o d) :
    GreedyPairs tolerance existing desired M ↔ (costs tolerance existing desired).Stable M := by
  constructor
  · rintro ⟨equivalent, apart, preceded⟩
    refine ⟨fun p here => (allows_iff inRange).mpr (equivalent p here), apart, ?_⟩
    intro p allowed absent
    obtain ⟨q, here, meets, before⟩ := preceded p ((allows_iff inRange).mp allowed) absent
    have other := (allows_iff inRange).mpr (equivalent q here)
    exact ⟨q, here, meets, (before_iff other allowed).mp before⟩
  · rintro ⟨allowed, apart, yields⟩
    refine ⟨fun p here => (allows_iff inRange).mp (allowed p here), apart, ?_⟩
    intro p equivalent absent
    have own := (allows_iff inRange).mpr equivalent
    obtain ⟨q, here, meets, lower⟩ := yields p own absent
    exact ⟨q, here, meets, (before_iff (allowed q here) own).mpr lower⟩

def ListsAt (orders : List Order) (wanted : Nat → Prop) (part : List Order) : Prop :=
  ∃ spots : List Nat, spots.Pairwise (· < ·) ∧ (∀ i, i ∈ spots ↔ i < orders.length ∧ wanted i) ∧
    part = spots.filterMap (orders[·]?)

theorem listsAt_leftOver {orders : List Order} {taken : Nat → Bool} {wanted : Nat → Prop}
    (free : ∀ i, taken i = false ↔ wanted i) : ListsAt orders wanted (leftOver orders taken) := by
  refine ⟨(spare orders taken).map (·.2), rising_filter orders _, ?_, ?_⟩
  · intro i
    constructor
    · intro spot
      obtain ⟨⟨o, i⟩, left, rfl⟩ := List.mem_map.mp spot
      obtain ⟨here, vacated⟩ := mem_spare.mp left
      exact ⟨(List.getElem?_eq_some_iff.mp here).1, (free i).mp vacated⟩
    · rintro ⟨inside, want⟩
      exact List.mem_map.mpr ⟨(orders[i], i), mem_spare.mpr
        ⟨List.getElem?_eq_getElem inside, (free i).mpr want⟩, rfl⟩
  · rw [List.filterMap_map]
    exact (filterMap_spare orders taken).symm

end Reconciliation

namespace Reconciler
open Reconciliation
variable {existing desired : List Order}

theorem plan_of_greedy (inRange : ∀ o ∈ existing, ∀ d ∈ desired, InRange ratio.abs o d) :
    ∃ plan, (tolerance ratio).plan existing desired = .ok plan ∧
      ∃ M, GreedyPairs ratio.abs existing desired M ∧
        (∀ N, GreedyPairs ratio.abs existing desired N → N = M) ∧
        ListsAt existing (fun i => ∀ p ∈ M, p.1 ≠ i) plan.toCancel ∧
        ListsAt desired (fun j => ∀ p ∈ M, p.2 ≠ j) plan.toPlace := by
  obtain ⟨plan, planned⟩ := plan_of_inRange inRange
  obtain ⟨kept, matched, cancels, placed⟩ := plan_eq_ok.mp planned
  have stable := matching_stable matched
  refine ⟨plan, planned, places kept, (greedyPairs_iff inRange).mpr stable, ?_, ?_, ?_⟩
  · intro N greedy
    exact ((greedyPairs_iff inRange).mp greedy).unique (finite_allows _ _ _) stable
  · rw [cancels]
    exact listsAt_leftOver fun i => by simp [places, Candidate.place]
  · rw [placed]
    exact listsAt_leftOver fun j => by simp [places, Candidate.place]

def bidAt (price : UInt64) (places : Nat) : Order :=
  ⟨.buy, .ofWord price places, .one, .postOnly, none, none⟩

-- A bid at just the price goes before an earlier one near it, and of two equal orders it takes the
-- earlier. The bid that is the farthest off is left over.
theorem plan_of_greedy_bids :
    let existing := [bidAt 9900 2, bidAt 100 0, bidAt 9800 2]
    let desired := [bidAt 100 0, bidAt 100 0]
    (∀ o ∈ existing, ∀ d ∈ desired, InRange (Decimal.ofWord 2 2).abs o d) ∧
      ∃ M, GreedyPairs (Decimal.ofWord 2 2).abs existing desired M ∧
        (∀ N, GreedyPairs (Decimal.ofWord 2 2).abs existing desired N → N = M) ∧
        ListsAt existing (fun i => ∀ p ∈ M, p.1 ≠ i) [bidAt 9800 2] ∧
        ListsAt desired (fun j => ∀ p ∈ M, p.2 ≠ j) [] := by
  intro existing desired
  have matched : matching (Decimal.ofWord 2 2).abs existing desired =
      .ok [⟨.zero, 1, 0⟩, ⟨.ofWord 1 2, 0, 1⟩] := by cbv
  have inRange := inRange_of_matching matched
  obtain ⟨plan, planned, greedy⟩ := plan_of_greedy inRange
  have evaluated : (tolerance (.ofWord 2 2)).plan existing desired =
      .ok ⟨[bidAt 9800 2], []⟩ := by cbv
  cases planned.symm.trans evaluated
  exact ⟨inRange, greedy⟩

end Reconciler
end MarketMaking
