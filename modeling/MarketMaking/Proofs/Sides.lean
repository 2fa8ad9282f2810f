import MarketMaking.Proofs.Selection

/-! The two sides of the book do not meet in a reconciliation: reconciled one by one, and put
together by position again, they give the plan that reconciling both at once gives
(`Reconciler.plan_bySide`). -/

namespace MarketMaking
namespace Reconciliation
variable {tolerance : Decimal} {existing desired orders : List Order} {kept : List Candidate}

def onSide (s : Side) (orders : List Order) : List Order := orders.filter (·.side == s)

def sideRows (s : Side) (orders : List Order) : List (Order × Nat) :=
  orders.zipIdx.filter (·.1.side == s)

theorem map_sideRows (s : Side) (orders : List Order) :
    (sideRows s orders).map (·.1) = onSide s orders := by
  have whole := List.filter_map (f := Prod.fst) (p := (·.side == s)) (l := orders.zipIdx)
  rw [List.zipIdx_map_fst] at whole
  exact whole.symm

theorem mem_sideRows {s : Side} {i : Nat} :
    i ∈ (sideRows s orders).map (·.2) ↔ ∃ o, orders[i]? = some o ∧ o.side = s := by
  simp [sideRows, List.mk_mem_zipIdx_iff_getElem?]

theorem side_of_distance? {o d : Order} {x : ℚ} (near : distance? tolerance o d = some x) :
    o.side = d.side := by
  have close := (distance?_eq_some.mp near).1
  by_contra different
  simp [equivalent, different, pure, Except.pure] at close

theorem Costs.Stable.closed {M : Set (Nat × Nat)}
    (stable : (costs tolerance existing desired).Stable M)
    (s : Side) (p : Nat × Nat) (here : p ∈ M) :
    p.1 ∈ (sideRows s existing).map (·.2) ↔ p.2 ∈ (sideRows s desired).map (·.2) := by
  obtain ⟨x, cost⟩ := Option.isSome_iff_exists.mp (stable.allowed p here)
  obtain ⟨o, d, first, second, near⟩ := costs_eq_some.mp cost
  rw [mem_sideRows, mem_sideRows]
  simp [first, second, side_of_distance? near]

def keptOnSide (s : Side) (existing desired : List Order) (kept : List Candidate) :
    Set (Nat × Nat) :=
  relabel (sideRows s existing) (sideRows s desired) (places kept)

theorem matching_onSide (matched : matching tolerance existing desired = .ok kept) (s : Side) :
    ∃ part, matching tolerance (onSide s existing) (onSide s desired) = .ok part ∧
      places part = keptOnSide s existing desired kept := by
  have inRange : ∀ o ∈ onSide s existing, ∀ d ∈ onSide s desired, InRange tolerance o d :=
    fun o here d wanted =>
      inRange_of_matching matched o (List.mem_of_mem_filter here) d (List.mem_of_mem_filter wanted)
  obtain ⟨part, alone⟩ := matching_of_inRange inRange
  refine ⟨part, alone, ?_⟩
  rw [← map_sideRows, ← map_sideRows] at alone
  exact places_selected (selects_filter _ _) (selects_filter _ _)
    ((matching_stable matched).closed s) matched alone

def earlier (a b : Order × Nat) : Bool := decide (a.2 ≤ b.2)

def merged (buys sells : List (Order × Nat)) : List (Order × Nat) := List.merge buys sells earlier

theorem merged_filter {rows : List (Order × Nat)} (rising : (rows.map (·.2)).Pairwise (· < ·)) :
    merged (rows.filter (·.1.side == .buy)) (rows.filter (·.1.side == .sell)) = rows := by
  have ordered : rows.Pairwise fun a b => earlier a b :=
    (List.pairwise_map.mp rising).imp fun less => decide_eq_true (Nat.le_of_lt less)
  have sells : rows.filter (·.1.side == .sell) = rows.filter fun r => !(r.1.side == .buy) :=
    List.filter_congr fun r _ => by cases r.1.side <;> rfl
  have same :
      (merged (rows.filter (·.1.side == .buy)) (rows.filter (·.1.side == .sell))).Perm rows := by
    rw [merged, sells]
    exact (List.merge_perm_append _).trans (List.filter_append_perm _ rows)
  have sorted : (merged (rows.filter (·.1.side == .buy)) (rows.filter (·.1.side == .sell))).Pairwise
      fun a b => earlier a b := by
    apply List.pairwise_merge
    · intro a b c
      simp only [earlier, decide_eq_true_eq]
      exact Nat.le_trans
    · intro a b
      simp only [earlier, Bool.or_eq_true, decide_eq_true_eq]
      exact Nat.le_total _ _
    · exact ordered.filter (·.1.side == .buy)
    · exact ordered.filter (·.1.side == .sell)
  refine same.eq_of_pairwise (fun a b first second le ge => ?_) sorted ordered
  have distinct : (rows.map (·.2)).Nodup := rising.imp Nat.ne_of_lt
  exact List.inj_on_of_nodup_map distinct (same.subset first) second
    (Nat.le_antisymm (of_decide_eq_true le) (of_decide_eq_true ge))

section
variable {s : Side} {taken taken' : Nat → Bool}

theorem relocate_onSide
    (agree : ∀ i r, (sideRows s orders)[i]? = some r → taken' i = taken r.2) :
    relocate (sideRows s orders) (spare (onSide s orders) taken') =
      (spare orders taken).filter (·.1.side == s) := by
  rw [← map_sideRows, relocate_spare agree, sideRows, spare, List.filter_filter, List.filter_filter]
  exact List.filter_congr fun r _ => Bool.and_comm _ _

theorem leftOver_onSide
    (agree : ∀ i r, (sideRows s orders)[i]? = some r → taken' i = taken r.2) :
    leftOver (onSide s orders) taken' = onSide s (leftOver orders taken) := by
  have moved := map_relocate_spare (sideRows s orders) taken'
  rw [map_sideRows, relocate_onSide agree] at moved
  rw [← moved, onSide, show leftOver orders taken = (spare orders taken).map (·.1) from rfl,
    List.filter_map]
  rfl

end

end Reconciliation

namespace Reconciler
open Reconciliation
variable {existing desired : List Order} {plan : Plan}

-- Each side reconciled alone, and the two plans put together by the positions of their orders.
def planBySide (ratio : Decimal) (existing desired : List Order) : Checked Plan := do
  let buys ← matching ratio.abs (onSide .buy existing) (onSide .buy desired)
  let sells ← matching ratio.abs (onSide .sell existing) (onSide .sell desired)
  let cancels (s : Side) (kept : List Candidate) :=
    relocate (sideRows s existing) (surplus (onSide s existing) kept)
  let placements (s : Side) (kept : List Candidate) :=
    relocate (sideRows s desired) (vacant (onSide s desired) kept)
  return {
    toCancel := (merged (cancels .buy buys) (cancels .sell sells)).map (·.1)
    toPlace := (merged (placements .buy buys) (placements .sell sells)).map (·.1) }

theorem plan_onSide (planned : (tolerance ratio).plan existing desired = .ok plan) (s : Side) :
    (tolerance ratio).plan (onSide s existing) (onSide s desired) =
      .ok ⟨onSide s plan.toCancel, onSide s plan.toPlace⟩ := by
  obtain ⟨kept, matched, cancels, placed⟩ := plan_eq_ok.mp planned
  have closed := (matching_stable matched).closed s
  obtain ⟨part, alone, same⟩ := matching_onSide matched s
  refine plan_eq_ok.mpr ⟨part, alone, ?_, ?_⟩
  · rw [cancels]
    exact (leftOver_onSide fun i r =>
      any_existing_selected closed same).symm
  · rw [placed]
    exact (leftOver_onSide fun i r =>
      any_desired_selected closed same).symm

theorem planBySide_eq (planned : (tolerance ratio).plan existing desired = .ok plan) :
    planBySide ratio existing desired = .ok plan := by
  obtain ⟨toCancel, toPlace⟩ := plan
  obtain ⟨kept, matched, rfl, rfl⟩ := plan_eq_ok.mp planned
  have closed := (matching_stable matched).closed
  obtain ⟨buys, buysAlone, buysSame⟩ := matching_onSide matched .buy
  obtain ⟨sells, sellsAlone, sellsSame⟩ := matching_onSide matched .sell
  have cancels {s part} (same : places part = keptOnSide s existing desired kept) :
      relocate (sideRows s existing) (surplus (onSide s existing) part) =
        (surplus existing kept).filter (·.1.side == s) :=
    relocate_onSide fun i r => any_existing_selected (closed s) same
  have placements {s part} (same : places part = keptOnSide s existing desired kept) :
      relocate (sideRows s desired) (vacant (onSide s desired) part) =
        (vacant desired kept).filter (·.1.side == s) :=
    relocate_onSide fun i r => any_desired_selected (closed s) same
  simp only [planBySide, buysAlone, sellsAlone, cancels buysSame, cancels sellsSame,
    placements buysSame, placements sellsSame, bind, Except.bind, pure, Except.pure]
  have rising : ((surplus existing kept).map (·.2)).Pairwise (· < ·) := rising_filter existing _
  have rising' : ((vacant desired kept).map (·.2)).Pairwise (· < ·) := rising_filter desired _
  rw [merged_filter rising, merged_filter rising']
  rfl

theorem plan_bySide (planned : (tolerance ratio).plan existing desired = .ok plan) :
    (∀ s, (tolerance ratio).plan (onSide s existing) (onSide s desired) =
      .ok ⟨onSide s plan.toCancel, onSide s plan.toPlace⟩) ∧
    planBySide ratio existing desired = .ok plan ∧
    ∀ s existing' desired' plan', (tolerance ratio).plan existing' desired' = .ok plan' →
      onSide s existing' = onSide s existing → onSide s desired' = onSide s desired →
      onSide s plan'.toCancel = onSide s plan.toCancel ∧
      onSide s plan'.toPlace = onSide s plan.toPlace ∧
      ∀ kept kept', matching ratio.abs existing desired = .ok kept →
        matching ratio.abs existing' desired' = .ok kept' →
        keptOnSide s existing' desired' kept' = keptOnSide s existing desired kept := by
  refine ⟨plan_onSide planned, planBySide_eq planned, ?_⟩
  intro s existing' desired' plan' planned' sameExisting sameDesired
  have part := plan_onSide planned s
  have part' := plan_onSide planned' s
  rw [sameExisting, sameDesired, part, Except.ok.injEq, Plan.mk.injEq] at part'
  refine ⟨part'.1.symm, part'.2.symm, fun kept kept' matched matched' => ?_⟩
  obtain ⟨alone, found, same⟩ := matching_onSide matched s
  obtain ⟨alone', found', same'⟩ := matching_onSide matched' s
  rw [sameExisting, sameDesired, found, Except.ok.injEq] at found'
  subst found'
  exact same'.symm.trans same

def askAt (price : UInt64) (places : Nat) : Order := { bidAt price places with side := .sell }

theorem plan_bySide_spread :
    let existing := [bidAt 9900 2, askAt 10200 2, bidAt 90 0]
    let desired := [askAt 102 0, askAt 104 0, bidAt 100 0]
    (tolerance (.ofWord 1 2)).plan existing desired = .ok ⟨[bidAt 90 0], [askAt 104 0]⟩ ∧
      (∀ s, (tolerance (.ofWord 1 2)).plan (onSide s existing) (onSide s desired) =
        .ok ⟨onSide s [bidAt 90 0], onSide s [askAt 104 0]⟩) ∧
      planBySide (.ofWord 1 2) existing desired = .ok ⟨[bidAt 90 0], [askAt 104 0]⟩ := by
  intro existing desired
  have planned : (tolerance (.ofWord 1 2)).plan existing desired =
      .ok ⟨[bidAt 90 0], [askAt 104 0]⟩ := by cbv
  obtain ⟨alone, together, -⟩ := plan_bySide planned
  exact ⟨planned, alone, together⟩

end Reconciler
end MarketMaking
