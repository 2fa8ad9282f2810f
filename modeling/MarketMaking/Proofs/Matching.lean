import Mathlib.Data.List.Nodup
import Mathlib.Data.List.Pairwise
import MarketMaking.Reconciliation

/-! What reconciliation keeps: pairs of equivalent orders, no order in two of them, and every other
such pair lost one of its orders to one of these (`Matches`). -/

namespace MarketMaking

namespace Reconciliation
variable {existing desired orders : List Order} {accepted found : List Candidate}
  {taken : Nat → Bool}

theorem position_unique {all : List α} {i j : Nat} (distinct : all.Nodup) (one : all[i]? = some a)
    (other : all[j]? = some a) : i = j := by
  obtain ⟨short, -⟩ := List.getElem?_eq_some_iff.mp one
  exact (List.getElem?_inj short distinct).mp (one.trans other.symm)

def spare (orders : List Order) (taken : Nat → Bool) : List (Order × Nat) :=
  orders.zipIdx.filter fun o => !taken o.2

theorem mem_spare {p : Order × Nat} :
    p ∈ spare orders taken ↔ orders[p.2]? = some p.1 ∧ taken p.2 = false := by
  obtain ⟨o, i⟩ := p
  simp [spare, List.mem_zipIdx_iff_getElem?]

theorem rising_filter (orders : List Order) (wanted : Order × Nat → Bool) :
    ((orders.zipIdx.filter wanted).map (·.2)).Pairwise (· < ·) := by
  have part : ((orders.zipIdx.filter wanted).map (·.2)).Sublist (orders.zipIdx.map (·.2)) :=
    List.filter_sublist.map _
  refine List.Pairwise.sublist part ?_
  rw [List.zipIdx_map_snd]
  exact List.pairwise_lt_range'

theorem positions_spare (orders : List Order) (taken : Nat → Bool) :
    ((spare orders taken).map (·.2)).Nodup :=
  (rising_filter orders _).imp Nat.ne_of_lt

theorem spare_sublist (orders : List Order) (taken : Nat → Bool) :
    ((spare orders taken).map (·.1)).Sublist orders := by
  have part : ((spare orders taken).map (·.1)).Sublist (orders.zipIdx.map (·.1)) :=
    List.filter_sublist.map _
  rwa [List.zipIdx_map_fst] at part

theorem filterMap_spare (orders : List Order) (taken : Nat → Bool) :
    (spare orders taken).filterMap (fun p => orders[p.2]?) = (spare orders taken).map (·.1) := by
  rw [← List.filterMap_eq_map]
  exact List.filterMap_congr fun p left => (mem_spare.mp left).1

theorem mem_of_mem_accept {c : Candidate} (kept : c ∈ accept accepted found) :
    c ∈ accepted ∨ c ∈ found := by
  induction found generalizing accepted with
  | nil => exact .inl kept
  | cons d rest ih =>
    unfold accept at kept
    split at kept
    · exact (ih kept).imp_right (List.mem_cons_of_mem d)
    · rcases ih kept with before | later
      · rcases List.mem_append.mp before with old | new
        · exact .inl old
        · rw [List.mem_singleton.mp new]; exact .inr List.mem_cons_self
      · exact .inr (List.mem_cons_of_mem d later)

theorem mem_accept_of_mem {c : Candidate} (before : c ∈ accepted) (found : List Candidate) :
    c ∈ accept accepted found := by
  induction found generalizing accepted with
  | nil => exact before
  | cons d rest ih =>
    unfold accept
    split
    · exact ih before
    · exact ih (List.mem_append_left [d] before)

theorem overlaps_comm (a b : Candidate) : a.overlaps b = b.overlaps a := by
  simp only [Candidate.overlaps, Bool.beq_comm (a := a.existing), Bool.beq_comm (a := a.desired)]

theorem accept_apart (apart : accepted.Pairwise fun a b => a.overlaps b = false)
    (found : List Candidate) :
    (accept accepted found).Pairwise fun a b => a.overlaps b = false := by
  induction found generalizing accepted with
  | nil => exact apart
  | cons d rest ih =>
    unfold accept
    split
    · exact ih apart
    · rename_i clear
      refine ih (List.pairwise_append.mpr ⟨apart, List.pairwise_singleton _ d, ?_⟩)
      intro a before b new
      rw [List.mem_singleton.mp new, overlaps_comm, Bool.eq_false_iff]
      exact fun overlap => clear (List.any_eq_true.mpr ⟨a, before, overlap⟩)

-- A candidate that is passed over overlaps one that is not and that came before it.
theorem exists_overlap_of_mem {Before : Candidate → Candidate → Prop} {c : Candidate}
    (ordered : (accepted ++ found).Pairwise Before) (here : c ∈ found) :
    ∃ d ∈ accept accepted found, c.overlaps d = true ∧ (d = c ∨ Before d c) := by
  induction found generalizing accepted with
  | nil => cases here
  | cons d rest ih =>
    have shorter : (accepted ++ rest).Pairwise Before :=
      ordered.sublist ((List.sublist_cons_self d rest).append_left accepted)
    have longer : (accepted ++ [d] ++ rest).Pairwise Before := by
      rwa [List.append_assoc, List.singleton_append]
    unfold accept
    rcases List.mem_cons.mp here with rfl | later
    · split
      · rename_i claimed
        obtain ⟨a, before, overlap⟩ := List.any_eq_true.mp claimed
        have earlier := (List.pairwise_append.mp ordered).2.2 a before c List.mem_cons_self
        exact ⟨a, mem_accept_of_mem before rest, overlap, .inr earlier⟩
      · refine ⟨c, mem_accept_of_mem (List.mem_append_right _ List.mem_cons_self) rest, ?_,
          .inl rfl⟩
        simp [Candidate.overlaps]
    · split
      · exact ih shorter later
      · exact ih longer later

theorem mem_pairs {e d : Order} {i j : Nat} :
    ((e, i), (d, j)) ∈ pairs existing desired ↔
      existing[i]? = some e ∧ desired[j]? = some d := by
  simp [pairs, List.mem_zipIdx_iff_getElem?]

structure Finds (tolerance : Decimal) (ps : List ((Order × Nat) × (Order × Nat)))
    (found : List Candidate) : Prop where
  close : ∀ c ∈ found, ∃ e d, ((e, c.existing), (d, c.desired)) ∈ ps ∧
    equivalent tolerance e d = .ok true
  complete : ∀ e i d j, ((e, i), (d, j)) ∈ ps → equivalent tolerance e d = .ok true →
    ∃ c ∈ found, c.existing = i ∧ c.desired = j
  decided : ∀ e i d j, ((e, i), (d, j)) ∈ ps → ∃ b, equivalent tolerance e d = .ok b

theorem candidates_cons {tolerance : Decimal} {e d : Order} {i j : Nat}
    {rest : List ((Order × Nat) × (Order × Nat))}
    (through : candidates tolerance (((e, i), (d, j)) :: rest) = .ok found) :
    (equivalent tolerance e d = .ok false ∧ candidates tolerance rest = .ok found) ∨
      ∃ s others, equivalent tolerance e d = .ok true ∧ score e d = .ok s ∧
        candidates tolerance rest = .ok others ∧ found = ⟨s, i, j⟩ :: others := by
  simp only [candidates, bind, Except.bind, pure, Except.pure] at through
  cases tested : equivalent tolerance e d with
  | error o => simp [tested] at through
  | ok close =>
    cases close with
    | false => exact .inl ⟨rfl, by simpa [tested] using through⟩
    | true =>
      cases scored : score e d with
      | error o => simp [tested, scored] at through
      | ok s =>
        cases later : candidates tolerance rest with
        | error o => simp [tested, scored, later] at through
        | ok others =>
          simp only [tested, scored, later, if_true, Except.ok.injEq] at through
          exact .inr ⟨s, others, rfl, rfl, rfl, through.symm⟩

theorem Finds.pass {tolerance : Decimal} {e d : Order} {i j : Nat}
    {rest : List ((Order × Nat) × (Order × Nat))} (finds : Finds tolerance rest found)
    (far : equivalent tolerance e d = .ok false) :
    Finds tolerance (((e, i), (d, j)) :: rest) found := by
  refine ⟨?_, ?_, ?_⟩
  · intro c here
    obtain ⟨e', d', pair, close⟩ := finds.close c here
    exact ⟨e', d', List.mem_cons_of_mem _ pair, close⟩
  · intro e' i' d' j' pair close
    rcases List.mem_cons.mp pair with same | before
    · cases same; cases far.symm.trans close
    · exact finds.complete e' i' d' j' before close
  · intro e' i' d' j' pair
    rcases List.mem_cons.mp pair with same | before
    · cases same; exact ⟨false, far⟩
    · exact finds.decided e' i' d' j' before

theorem Finds.take {tolerance : Decimal} {e d : Order} {i j : Nat}
    {rest : List ((Order × Nat) × (Order × Nat))} (finds : Finds tolerance rest found)
    (close : equivalent tolerance e d = .ok true) (s : Decimal) :
    Finds tolerance (((e, i), (d, j)) :: rest) (⟨s, i, j⟩ :: found) := by
  refine ⟨?_, ?_, ?_⟩
  · intro c here
    rcases List.mem_cons.mp here with rfl | before
    · exact ⟨e, d, List.mem_cons_self, close⟩
    · obtain ⟨e', d', pair, close⟩ := finds.close c before
      exact ⟨e', d', List.mem_cons_of_mem _ pair, close⟩
  · intro e' i' d' j' pair equal
    rcases List.mem_cons.mp pair with same | before
    · cases same; exact ⟨_, List.mem_cons_self, rfl, rfl⟩
    · obtain ⟨c, here, places⟩ := finds.complete e' i' d' j' before equal
      exact ⟨c, List.mem_cons_of_mem _ here, places⟩
  · intro e' i' d' j' pair
    rcases List.mem_cons.mp pair with same | before
    · cases same; exact ⟨true, close⟩
    · exact finds.decided e' i' d' j' before

theorem candidates_finds {tolerance : Decimal} {ps : List ((Order × Nat) × (Order × Nat))}
    (through : candidates tolerance ps = .ok found) : Finds tolerance ps found := by
  induction ps generalizing found with
  | nil =>
    cases through
    exact ⟨fun _ here => (List.not_mem_nil here).elim,
      fun _ _ _ _ pair => (List.not_mem_nil pair).elim,
      fun _ _ _ _ pair => (List.not_mem_nil pair).elim⟩
  | cons p rest ih =>
    obtain ⟨⟨e, i⟩, d, j⟩ := p
    rcases candidates_cons through with ⟨far, later⟩ | ⟨s, others, close, -, later, rfl⟩
    · exact (ih later).pass far
    · exact (ih later).take close s

-- Neither the test whether the orders are equivalent nor, if they are, their score overflows.
def InRange (tolerance : Decimal) (o d : Order) : Prop :=
  ∃ close, equivalent tolerance o d = .ok close ∧ (close = true → ∃ s, score o d = .ok s)

instance (tolerance : Decimal) (o d : Order) : Decidable (InRange tolerance o d) :=
  match tested : equivalent tolerance o d with
  | .error _ => isFalse fun ⟨_, through, _⟩ => by cases tested.symm.trans through
  | .ok false => isTrue ⟨false, tested, nofun⟩
  | .ok true =>
    match scored : score o d with
    | .ok s => isTrue ⟨true, tested, fun _ => ⟨s, scored⟩⟩
    | .error _ => isFalse fun ⟨_, through, scores⟩ => by
      cases tested.symm.trans through
      obtain ⟨s, same⟩ := scores rfl
      cases scored.symm.trans same

theorem candidates_scored {tolerance : Decimal} {ps : List ((Order × Nat) × (Order × Nat))}
    (through : candidates tolerance ps = .ok found) {c : Candidate} (here : c ∈ found) :
    ∃ e d, ((e, c.existing), (d, c.desired)) ∈ ps ∧ equivalent tolerance e d = .ok true ∧
      score e d = .ok c.score := by
  induction ps generalizing found with
  | nil => cases through; cases here
  | cons p rest ih =>
    obtain ⟨⟨e, i⟩, d, j⟩ := p
    have lift {found} (later : candidates tolerance rest = .ok found) (here : c ∈ found) :
        ∃ e' d', ((e', c.existing), (d', c.desired)) ∈ ((e, i), (d, j)) :: rest ∧
          equivalent tolerance e' d' = .ok true ∧ score e' d' = .ok c.score := by
      obtain ⟨e', d', pair, scored⟩ := ih later here
      exact ⟨e', d', List.mem_cons_of_mem _ pair, scored⟩
    rcases candidates_cons through with ⟨far, later⟩ | ⟨s, others, close, scored, later, rfl⟩
    · exact lift later here
    · rcases List.mem_cons.mp here with rfl | before
      · exact ⟨e, d, List.mem_cons_self, close, scored⟩
      · exact lift later before

theorem inRange_of_candidates {tolerance : Decimal} {ps : List ((Order × Nat) × (Order × Nat))}
    (through : candidates tolerance ps = .ok found) {e d : Order} {i j : Nat}
    (pair : ((e, i), (d, j)) ∈ ps) : InRange tolerance e d := by
  induction ps generalizing found with
  | nil => cases pair
  | cons p rest ih =>
    obtain ⟨⟨e', i'⟩, d', j'⟩ := p
    rcases candidates_cons through with ⟨far, later⟩ | ⟨s, others, close, scored, later, rfl⟩
    · rcases List.mem_cons.mp pair with same | before
      · cases same; exact ⟨false, far, nofun⟩
      · exact ih later before
    · rcases List.mem_cons.mp pair with same | before
      · cases same; exact ⟨true, close, fun _ => ⟨s, scored⟩⟩
      · exact ih later before

theorem candidates_of_inRange {tolerance : Decimal} {ps : List ((Order × Nat) × (Order × Nat))}
    (inRange : ∀ e i d j, ((e, i), (d, j)) ∈ ps → InRange tolerance e d) :
    ∃ found, candidates tolerance ps = .ok found := by
  induction ps with
  | nil => exact ⟨[], rfl⟩
  | cons p rest ih =>
    obtain ⟨⟨e, i⟩, d, j⟩ := p
    obtain ⟨others, later⟩ := ih fun e i d j pair => inRange e i d j (List.mem_cons_of_mem _ pair)
    obtain ⟨close, tested, scored⟩ := inRange e i d j List.mem_cons_self
    cases close with
    | false => exact ⟨others, by simp [candidates, tested, later, bind, Except.bind]⟩
    | true =>
      obtain ⟨s, scored⟩ := scored rfl
      refine ⟨⟨s, i, j⟩ :: others, ?_⟩
      simp [candidates, tested, scored, later, bind, Except.bind, pure, Except.pure]

structure Matches (tolerance : Decimal) (existing desired : List Order)
    (kept : List Candidate) : Prop where
  close : ∀ c ∈ kept, ∃ e d, existing[c.existing]? = some e ∧
    desired[c.desired]? = some d ∧ equivalent tolerance e d = .ok true
  apart : ∀ a ∈ kept, ∀ b ∈ kept, a.overlaps b = true → a = b
  maximal : ∀ i e j d, existing[i]? = some e → desired[j]? = some d →
    equivalent tolerance e d = .ok true → ∃ c ∈ kept, c.existing = i ∨ c.desired = j
  decided : ∀ e ∈ existing, ∀ d ∈ desired, ∃ b, equivalent tolerance e d = .ok b

def surplus (existing : List Order) (kept : List Candidate) : List (Order × Nat) :=
  spare existing fun i => kept.any (·.existing == i)

def vacant (desired : List Order) (kept : List Candidate) : List (Order × Nat) :=
  spare desired fun j => kept.any (·.desired == j)

theorem mem_surplus {p : Order × Nat} :
    p ∈ surplus existing accepted ↔
      existing[p.2]? = some p.1 ∧ ∀ c ∈ accepted, c.existing ≠ p.2 := by
  simp [surplus, mem_spare]

theorem mem_vacant {p : Order × Nat} :
    p ∈ vacant desired accepted ↔
      desired[p.2]? = some p.1 ∧ ∀ c ∈ accepted, c.desired ≠ p.2 := by
  simp [vacant, mem_spare]

structure Keeps (tolerance : Decimal) (existing desired : List Order) (kept : List Candidate)
    (plan : Plan) : Prop where
  pairs : Matches tolerance existing desired kept
  cancels : plan.toCancel = (surplus existing kept).map (·.1)
  places : plan.toPlace = (vacant desired kept).map (·.1)

namespace Keeps
variable {tolerance : Decimal} {kept : List Candidate} {plan : Plan} {c : Candidate} {o : Order}

theorem covered (keeps : Keeps tolerance existing desired kept plan)
    (here : existing[i]? = some o) (spared : o.clientId ∉ plan.toCancel.map (·.clientId)) :
    ∃ c ∈ kept, c.existing = i := by
  by_contra free
  have left : (o, i) ∈ surplus existing kept :=
    mem_surplus.mpr ⟨here, fun c standing same => free ⟨c, standing, same⟩⟩
  have cancelled : o ∈ plan.toCancel := keeps.cancels ▸ List.mem_map_of_mem left
  exact spared (List.mem_map_of_mem cancelled)

theorem spared (keeps : Keeps tolerance existing desired kept plan)
    (unique : (existing.map (·.clientId)).Nodup) (standing : c ∈ kept)
    (here : existing[c.existing]? = some o) : o.clientId ∉ plan.toCancel.map (·.clientId) := by
  intro cancelled
  rw [keeps.cancels, List.map_map] at cancelled
  obtain ⟨⟨t, i⟩, left, same⟩ := List.mem_map.mp cancelled
  obtain ⟨atI, free⟩ := mem_surplus.mp left
  have atC : (existing.map (·.clientId))[c.existing]? = some o.clientId := by simp [here]
  have atT : (existing.map (·.clientId))[i]? = some o.clientId := by simpa [atI] using same
  exact free c standing (position_unique unique atC atT)

end Keeps

theorem matching_eq_ok {tolerance : Decimal} {kept : List Candidate} :
    matching tolerance existing desired = .ok kept ↔
      ∃ found, candidates tolerance (pairs existing desired) = .ok found ∧
        accept [] (found.mergeSort Candidate.precedes) = kept := by
  unfold matching
  cases candidates tolerance (pairs existing desired) with
  | error o => simp [bind, Except.bind]
  | ok found => simp [bind, Except.bind, pure, Except.pure]

theorem matching_matches {tolerance : Decimal} {kept : List Candidate}
    (through : matching tolerance existing desired = .ok kept) :
    Matches tolerance existing desired kept := by
  obtain ⟨found, listed, rfl⟩ := matching_eq_ok.mp through
  have finds := candidates_finds listed
  refine ⟨?_, ?_, ?_, ?_⟩
  · intro c here
    rcases mem_of_mem_accept here with none | sorted
    · cases none
    · obtain ⟨e, d, pair, close⟩ := finds.close c (List.mem_mergeSort.mp sorted)
      exact ⟨e, d, (mem_pairs.mp pair).1, (mem_pairs.mp pair).2, close⟩
  · intro a first b second overlap
    by_contra different
    have : Std.Symm fun a b : Candidate => a.overlaps b = false :=
      ⟨fun a b clear => (overlaps_comm b a).trans clear⟩
    have clear := (accept_apart List.Pairwise.nil _).forall first second different
    rw [overlap] at clear
    cases clear
  · intro i e j d here wanted close
    obtain ⟨c, member, rfl, rfl⟩ := finds.complete e i d j (mem_pairs.mpr ⟨here, wanted⟩) close
    have any : List.Pairwise (fun _ _ => True) ([] ++ found.mergeSort Candidate.precedes) :=
      List.pairwise_of_forall fun _ _ => trivial
    obtain ⟨b, kept, overlap, -⟩ :=
      exists_overlap_of_mem any (List.mem_mergeSort.mpr member)
    refine ⟨b, kept, ?_⟩
    rw [overlaps_comm] at overlap
    simpa [Candidate.overlaps] using overlap
  · intro e here d wanted
    obtain ⟨i, atE⟩ := List.getElem?_of_mem here
    obtain ⟨j, atD⟩ := List.getElem?_of_mem wanted
    exact finds.decided e i d j (mem_pairs.mpr ⟨atE, atD⟩)

theorem matching_of_inRange {tolerance : Decimal}
    (inRange : ∀ o ∈ existing, ∀ d ∈ desired, InRange tolerance o d) :
    ∃ kept, matching tolerance existing desired = .ok kept := by
  have each : ∀ e i d j, ((e, i), (d, j)) ∈ pairs existing desired → InRange tolerance e d := by
    intro e i d j pair
    obtain ⟨here, wanted⟩ := mem_pairs.mp pair
    exact inRange e (List.mem_of_getElem? here) d (List.mem_of_getElem? wanted)
  obtain ⟨found, listed⟩ := candidates_of_inRange each
  exact ⟨_, matching_eq_ok.mpr ⟨found, listed, rfl⟩⟩

theorem inRange_of_matching {tolerance : Decimal} {kept : List Candidate}
    (matched : matching tolerance existing desired = .ok kept) :
    ∀ o ∈ existing, ∀ d ∈ desired, InRange tolerance o d := by
  intro o here d wanted
  obtain ⟨i, first⟩ := List.getElem?_of_mem here
  obtain ⟨j, second⟩ := List.getElem?_of_mem wanted
  obtain ⟨found, listed, -⟩ := matching_eq_ok.mp matched
  exact inRange_of_candidates listed (mem_pairs.mpr ⟨first, second⟩)

end Reconciliation

namespace Reconciler
open Reconciliation
variable {existing desired : List Order} {plan : Plan}

theorem plan_eq_ok : (tolerance ratio).plan existing desired = .ok plan ↔
    ∃ kept, matching ratio.abs existing desired = .ok kept ∧
      plan.toCancel = leftOver existing (fun i => kept.any (·.existing == i)) ∧
      plan.toPlace = leftOver desired (fun j => kept.any (·.desired == j)) := by
  obtain ⟨toCancel, toPlace⟩ := plan
  simp only [Reconciler.plan]
  cases matching ratio.abs existing desired with
  | error o => simp [bind, Except.bind]
  | ok kept => simp [bind, Except.bind, pure, Except.pure, eq_comm]

theorem plan_keeps (planned : (tolerance ratio).plan existing desired = .ok plan) :
    ∃ kept, Keeps ratio.abs existing desired kept plan := by
  obtain ⟨kept, matched, cancels, places⟩ := plan_eq_ok.mp planned
  exact ⟨kept, matching_matches matched, cancels, places⟩

theorem plan_of_inRange
    (inRange : ∀ o ∈ existing, ∀ d ∈ desired, InRange ratio.abs o d) :
    ∃ plan, (tolerance ratio).plan existing desired = .ok plan := by
  obtain ⟨kept, matched⟩ := matching_of_inRange inRange
  exact ⟨⟨_, _⟩, plan_eq_ok.mpr ⟨kept, matched, rfl, rfl⟩⟩

theorem plan_sublists {r : Reconciler} (planned : r.plan existing desired = .ok plan) :
    plan.toCancel.Sublist existing ∧ plan.toPlace.Sublist desired := by
  cases r with
  | replaceAll =>
    cases planned
    exact ⟨List.Sublist.refl _, List.Sublist.refl _⟩
  | tolerance ratio =>
    obtain ⟨kept, keeps⟩ := plan_keeps planned
    rw [keeps.cancels, keeps.places]
    exact ⟨spare_sublist _ _, spare_sublist _ _⟩

end Reconciler
end MarketMaking
