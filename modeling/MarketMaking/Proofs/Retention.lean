import Mathlib
import MarketMaking.Proofs.Greedy

/-! How many orders a plan keeps: at least half as many as could be (`Reconciler.plan_keeps_half`),
since each pair of another matching shares an order with a kept pair, and a kept pair has two to
share. -/

namespace MarketMaking

namespace Reconciliation
variable {tolerance : Decimal} {existing desired orders : List Order} {kept : List Candidate}

theorem length_leftOver {taken : Nat → Bool} {spots : List Nat} (unique : spots.Nodup)
    (inside : ∀ i ∈ spots, i < orders.length) (exact : ∀ i, taken i = true ↔ i ∈ spots) :
    (leftOver orders taken).length + spots.length = orders.length := by
  have positions : (leftOver orders taken).length =
      (List.range orders.length).countP fun i => !taken i := by
    rw [List.range_eq_range', ← List.zipIdx_map_snd, List.countP_map, List.countP_eq_length_filter]
    exact List.length_map _
  have chosen : ((List.range orders.length).filter taken).Perm spots := by
    refine (List.perm_ext_iff_of_nodup (List.nodup_range.filter _) unique).mpr fun i => ?_
    rw [List.mem_filter, List.mem_range, exact]
    exact ⟨And.right, fun spot => ⟨inside i spot, spot⟩⟩
  have both := List.length_eq_countP_add_countP taken (l := List.range orders.length)
  rw [List.countP_eq_length_filter, chosen.length_eq, List.length_range] at both
  simp only [positions, Bool.not_eq_true, Bool.decide_eq_false] at both ⊢
  omega

theorem matching_apart (through : matching tolerance existing desired = .ok kept) :
    kept.Pairwise fun a b => a.existing ≠ b.existing ∧ a.desired ≠ b.desired := by
  obtain ⟨found, -, rfl⟩ := matching_eq_ok.mp through
  exact (accept_apart .nil _).imp fun apart => by simpa [Candidate.overlaps] using apart

theorem length_unmatched (side : Candidate → Nat) (apart : kept.Pairwise fun a b => side a ≠ side b)
    (inside : ∀ c ∈ kept, side c < orders.length) :
    (leftOver orders fun i => kept.any (side · == i)).length + kept.length = orders.length := by
  have counted : (kept.map side).length = kept.length := List.length_map side
  rw [← counted]
  refine length_leftOver (List.pairwise_map.mpr apart) ?_ fun i => by simp
  intro i spot
  obtain ⟨c, standing, rfl⟩ := List.mem_map.mp spot
  exact inside c standing

structure OneToOne (tolerance : Decimal) (existing desired : List Order)
    (P : Finset (Nat × Nat)) : Prop where
  equivalent : ∀ p ∈ P, EquivalentAt tolerance existing desired p
  apart : ∀ p ∈ P, ∀ q ∈ P, p.1 = q.1 ∨ p.2 = q.2 → p = q

theorem card_filter_le {P : Finset (Nat × Nat)} (side : Nat × Nat → Nat)
    (apart : ∀ p ∈ P, ∀ q ∈ P, side p = side q → p = q) (spots : List Nat) :
    (P.filter (side · ∈ spots)).card ≤ spots.length := by
  have into : (P.filter (side · ∈ spots)).card ≤ spots.toFinset.card := by
    apply Finset.card_le_card_of_injOn side
    · exact fun p here => List.mem_toFinset.mpr (Finset.mem_filter.mp here).2
    · intro p one q two same
      exact apart p (Finset.mem_filter.mp one).1 q (Finset.mem_filter.mp two).1 same
  exact into.trans spots.toFinset_card_le

-- Each pair is charged to a kept pair that has its existing or its desired order, and two pairs
-- that are charged for the same order would share it.
theorem Matches.card_le (pairs : Matches tolerance existing desired kept) {P : Finset (Nat × Nat)}
    (other : OneToOne tolerance existing desired P) : P.card ≤ 2 * kept.length := by
  let rows := kept.map (·.existing)
  let columns := kept.map (·.desired)
  have charged : P ⊆ P.filter (·.1 ∈ rows) ∪ P.filter (·.2 ∈ columns) := by
    intro p here
    obtain ⟨o, d, row, column, close⟩ := other.equivalent p here
    obtain ⟨c, standing, shared⟩ := pairs.maximal p.1 o p.2 d row column close
    rw [Finset.mem_union, Finset.mem_filter, Finset.mem_filter]
    rcases shared with sameRow | sameColumn
    · exact .inl ⟨here, List.mem_map.mpr ⟨c, standing, sameRow⟩⟩
    · exact .inr ⟨here, List.mem_map.mpr ⟨c, standing, sameColumn⟩⟩
  have byRow : (P.filter (·.1 ∈ rows)).card ≤ rows.length :=
    card_filter_le (·.1) (fun p one q two same => other.apart p one q two (.inl same)) rows
  have byColumn : (P.filter (·.2 ∈ columns)).card ≤ columns.length :=
    card_filter_le (·.2) (fun p one q two same => other.apart p one q two (.inr same)) columns
  rw [List.length_map] at byRow byColumn
  calc P.card ≤ (P.filter (·.1 ∈ rows) ∪ P.filter (·.2 ∈ columns)).card :=
        Finset.card_le_card charged
    _ ≤ (P.filter (·.1 ∈ rows)).card + (P.filter (·.2 ∈ columns)).card :=
        Finset.card_union_le _ _
    _ ≤ 2 * kept.length := by omega

end Reconciliation

namespace Reconciler
open Reconciliation
variable {ratio : Decimal} {existing desired : List Order} {plan : Plan} {kept : List Candidate}
  {e d : Order}

theorem not_equivalent_of_changed (keeps : Keeps ratio.abs existing desired kept plan)
    (cancelled : e ∈ plan.toCancel) (placed : d ∈ plan.toPlace) :
    equivalent ratio.abs e d = .ok false := by
  rw [keeps.cancels] at cancelled
  rw [keeps.places] at placed
  obtain ⟨⟨e, i⟩, left, rfl⟩ := List.mem_map.mp cancelled
  obtain ⟨⟨d, j⟩, free, rfl⟩ := List.mem_map.mp placed
  obtain ⟨here, unkept⟩ := mem_surplus.mp left
  obtain ⟨wanted, unserved⟩ := mem_vacant.mp free
  obtain ⟨close, tested⟩ :=
    keeps.pairs.decided e (List.mem_of_getElem? here) d (List.mem_of_getElem? wanted)
  cases close with
  | false => exact tested
  | true =>
    obtain ⟨c, standing, shared⟩ := keeps.pairs.maximal i e j d here wanted tested
    rcases shared with row | column
    · exact absurd row (unkept c standing)
    · exact absurd column (unserved c standing)

theorem plan_keeps_half (inRange : ∀ o ∈ existing, ∀ d ∈ desired, InRange ratio.abs o d) :
    ∃ plan, (tolerance ratio).plan existing desired = .ok plan ∧
      ∃ n, plan.toCancel.length + n = existing.length ∧ plan.toPlace.length + n = desired.length ∧
        (∀ P, OneToOne ratio.abs existing desired P → P.card ≤ 2 * n) ∧
        ∀ e ∈ plan.toCancel, ∀ d ∈ plan.toPlace, equivalent ratio.abs e d = .ok false := by
  obtain ⟨plan, planned⟩ := plan_of_inRange inRange
  obtain ⟨kept, matched, cancels, places⟩ := plan_eq_ok.mp planned
  have pairs := matching_matches matched
  have apart := matching_apart matched
  refine ⟨plan, planned, kept.length, ?_, ?_, fun P other => pairs.card_le other, ?_⟩
  · rw [cancels]
    refine length_unmatched (·.existing) (apart.imp And.left) fun c standing => ?_
    obtain ⟨o, d, here, -⟩ := pairs.close c standing
    exact (List.getElem?_eq_some_iff.mp here).1
  · rw [places]
    refine length_unmatched (·.desired) (apart.imp And.right) fun c standing => ?_
    obtain ⟨o, d, -, wanted, -⟩ := pairs.close c standing
    exact (List.getElem?_eq_some_iff.mp wanted).1
  · intro e cancelled d placed
    exact not_equivalent_of_changed ⟨pairs, cancels, places⟩ cancelled placed

-- The bid at just the wanted price is kept for it. Crosswise both bids could have been kept.
theorem plan_keeps_just_half :
    let existing := [bidAt 10000 2, bidAt 7500 2]
    let desired := [bidAt 100 0, bidAt 125 0]
    (∀ o ∈ existing, ∀ d ∈ desired, InRange (Decimal.ofWord 25 2).abs o d) ∧
      OneToOne (Decimal.ofWord 25 2).abs existing desired {(0, 1), (1, 0)} ∧
      (tolerance (.ofWord 25 2)).plan existing desired = .ok ⟨[bidAt 7500 2], [bidAt 125 0]⟩ ∧
      ∃ n, 1 + n = existing.length ∧ 1 + n = desired.length ∧
        (∀ P, OneToOne (Decimal.ofWord 25 2).abs existing desired P → P.card ≤ 2 * n) ∧
        equivalent (Decimal.ofWord 25 2).abs (bidAt 7500 2) (bidAt 125 0) = .ok false := by
  intro existing desired
  have matched : matching (Decimal.ofWord 25 2).abs existing desired = .ok [⟨.zero, 0, 0⟩] := by cbv
  have inRange := inRange_of_matching matched
  have planned : (tolerance (.ofWord 25 2)).plan existing desired =
      .ok ⟨[bidAt 7500 2], [bidAt 125 0]⟩ := by cbv
  have crosswise : OneToOne (Decimal.ofWord 25 2).abs existing desired {(0, 1), (1, 0)} := by
    refine ⟨?_, by decide⟩
    have first : equivalent (Decimal.ofWord 25 2).abs (bidAt 10000 2) (bidAt 125 0) = .ok true := by
      cbv
    have second : equivalent (Decimal.ofWord 25 2).abs (bidAt 7500 2) (bidAt 100 0) = .ok true := by
      cbv
    intro p here
    rcases Finset.mem_insert.mp here with rfl | last
    · exact ⟨_, _, rfl, rfl, first⟩
    · rw [Finset.mem_singleton.mp last]
      exact ⟨_, _, rfl, rfl, second⟩
  obtain ⟨plan, found, n, kept, kept', half, apart⟩ := plan_keeps_half inRange
  cases found.symm.trans planned
  exact ⟨inRange, crosswise, planned, n, kept, kept', half,
    apart _ List.mem_cons_self _ List.mem_cons_self⟩

end Reconciler
end MarketMaking
