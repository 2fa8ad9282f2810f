import MarketMaking.Proofs.Division
import MarketMaking.Proofs.Selection
import MarketMaking.Proofs.Takeover

/-! What a plan leaves to do once it was executed. The placed orders are copies of desired ones, so
they score zero and are matched first, but not always where they were meant to go. Nothing is left
to do if no kept order is torn between their targets. -/

namespace MarketMaking
namespace Reconciliation
variable {tolerance a b s : Decimal} {o p d d' : Order} {x : ℚ}

theorem relativeDistance_nonneg (through : relativeDistance a b = .ok s) : 0 ≤ s.coefficient := by
  unfold relativeDistance at through
  split at through
  · cases through; exact le_refl 0
  · cases gap : a.sub b with
    | error e => simp [gap, bind, Except.bind] at through
    | ok d =>
      simp only [gap, bind, Except.bind] at through
      exact Decimal.div_nonneg d.abs_nonneg b.abs_nonneg through

theorem relativeDistance_self (a : Decimal) : relativeDistance a a = .ok .zero := by
  unfold relativeDistance
  split
  · rfl
  · rename_i some
    obtain ⟨d, none, nothing⟩ := a.sub_self
    have some : a.coefficient ≠ 0 := by simpa [Decimal.isZero] using some
    simp [none, bind, Except.bind, Decimal.div, Decimal.abs, nothing, some]

theorem score_nonneg (through : score o d = .ok s) : 0 ≤ s.coefficient := by
  unfold score at through
  cases priced : relativeDistance o.price d.price with
  | error e => simp [priced, bind, Except.bind] at through
  | ok x =>
    cases sized : relativeDistance o.quantity d.quantity with
    | error e => simp [priced, sized, bind, Except.bind] at through
    | ok y =>
      simp only [priced, sized, bind, Except.bind] at through
      exact Decimal.add_nonneg (relativeDistance_nonneg priced) (relativeDistance_nonneg sized)
        through

theorem distance?_nonneg (near : distance? tolerance o d = some x) : 0 ≤ x := by
  obtain ⟨-, s, scored, rfl⟩ := distance?_eq_some.mp near
  exact Decimal.value_nonneg_iff.mpr (score_nonneg scored)

def CopyOf (o p : Order) : Prop := ∃ exchangeId clientId, p = { o with exchangeId, clientId }

theorem CopyOf.distance? (copy : CopyOf o p) (d : Order) :
    distance? tolerance p d = distance? tolerance o d := by
  obtain ⟨_, _, rfl⟩ := copy
  rfl

theorem distance?_of_copy (nonneg : 0 ≤ tolerance.coefficient) (copy : CopyOf d p)
    (inRange : InRange tolerance p d) : distance? tolerance d d = some 0 := by
  obtain ⟨_, _, rfl⟩ := copy
  obtain ⟨close, tested, -⟩ := inRange
  have same := equivalent_of_eq nonneg rfl rfl rfl tested
  refine distance?_eq_some.mpr ⟨same ▸ tested, .zero, ?_, by simp [Decimal.value]⟩
  simp [score, relativeDistance_self, bind, Except.bind, Decimal.add]

variable {existing desired orders placed : List Order} {kept : List Candidate} {i j k : Nat}

def standing (existing : List Order) (kept : List Candidate) : List (Order × Nat) :=
  spare existing fun i => !kept.any (·.existing == i)

def retained (existing : List Order) (kept : List Candidate) : List Order :=
  leftOver existing fun i => !kept.any (·.existing == i)

-- Whether the orders see two desired ones alike: each of them is equivalent to both, with the same
-- score, or to neither.
def SeenAlike (tolerance : Decimal) (orders : List Order) (d d' : Order) : Prop :=
  ∀ o ∈ orders, distance? tolerance o d = distance? tolerance o d'

-- Whether a copy of a desired order scores zero against one at another position, too: against a
-- repeat, or against an order so near that the score is rounded away.
def Interchanges (tolerance : Decimal) (desired : List Order) (c : Order × Nat) (d : Order) :
    Prop :=
  ∃ k, k ≠ c.2 ∧ desired[k]? = some d ∧ distance? tolerance c.1 d = some 0

-- If a copy of an order to be placed can go to another position, then the kept orders see the
-- two alike. A kept order that is equivalent to them has the same score with a further desired
-- order only if that one is seen like them, or comes after all that are.
structure Untorn (tolerance : Decimal) (existing desired : List Order) (kept : List Candidate) :
    Prop where
  alike : ∀ c ∈ vacant desired kept, ∀ d, Interchanges tolerance desired c d →
    SeenAlike tolerance (retained existing kept) c.1 d
  untied : ∀ c ∈ vacant desired kept, ∀ d, Interchanges tolerance desired c d →
    ∀ o ∈ retained existing kept, distance? tolerance o c.1 ≠ none →
    ∀ (l : Nat) d', desired[l]? = some d' → distance? tolerance o d' = distance? tolerance o c.1 →
    SeenAlike tolerance (retained existing kept) c.1 d' ∨ ∀ (m : Nat) d'', desired[m]? = some d'' →
      SeenAlike tolerance (retained existing kept) c.1 d'' → m < l

def intended (existing desired : List Order) (kept : List Candidate) : Set (Nat × Nat) :=
  {p | p ∈ relabel (standing existing kept) desired.zipIdx (places kept) ∨
    ∃ b c, (vacant desired kept)[b]? = some c ∧ p = ((retained existing kept).length + b, c.2)}

theorem selects_zipIdx (orders : List Order) : Selects orders orders.zipIdx := by
  have whole := selects_filter orders fun _ => true
  rwa [List.filter_true] at whole

theorem mem_standing {r : Order × Nat} : r ∈ standing existing kept ↔
    existing[r.2]? = some r.1 ∧ ∃ j, (r.2, j) ∈ places kept := by
  rw [standing, mem_spare, Bool.not_eq_false', any_existing]

theorem costs_append_left (less : i < existing.length) :
    costs tolerance (existing ++ placed) desired i j = costs tolerance existing desired i j := by
  simp only [costs, List.getElem?_append_left less]

theorem exists_copy (copies : List.Forall₂ CopyOf orders placed) (here : orders[i]? = some o) :
    ∃ p, placed[i]? = some p ∧ CopyOf o p := by
  obtain ⟨inside, rfl⟩ := List.getElem?_eq_some_iff.mp here
  have inside' : i < placed.length := copies.length_eq ▸ inside
  exact ⟨placed[i], List.getElem?_eq_getElem inside',
    (List.forall₂_iff_get.mp copies).2 i inside inside'⟩

theorem costs_append_right (copies : List.Forall₂ CopyOf orders placed) (here : orders[i]? = some o)
    (wanted : desired[j]? = some d) :
    costs tolerance (existing ++ placed) desired (existing.length + i) j =
      distance? tolerance o d := by
  obtain ⟨p, there, copy⟩ := exists_copy copies here
  have after : (existing ++ placed)[existing.length + i]? = some p := by
    rw [List.getElem?_append_right (Nat.le_add_right _ _), Nat.add_sub_cancel_left, there]
  simp only [costs, after, wanted, bind, Option.bind]
  exact copy.distance? d

theorem length_retained : (retained existing kept).length = (standing existing kept).length :=
  List.length_map _

theorem retained_stable (matched : matching tolerance existing desired = .ok kept) :
    (costs tolerance (retained existing kept) desired).Stable
      (relabel (standing existing kept) desired.zipIdx (places kept)) := by
  have closed : ∀ p ∈ places kept,
      p.1 ∈ (standing existing kept).map (·.2) ↔ p.2 ∈ desired.zipIdx.map (·.2) := by
    intro p pair
    obtain ⟨x, cost⟩ := Option.isSome_iff_exists.mp ((matching_stable matched).allowed p pair)
    obtain ⟨o, d, here, wanted, -⟩ := costs_eq_some.mp cost
    have left : (o, p.1) ∈ standing existing kept := mem_standing.mpr ⟨here, p.2, pair⟩
    have right : (d, p.2) ∈ desired.zipIdx := List.mk_mem_zipIdx_iff_getElem?.mpr wanted
    exact iff_of_true (List.mem_map_of_mem left) (List.mem_map_of_mem right)
  have stable := (matching_stable matched).relabel (selects_filter existing _)
    (selects_zipIdx desired) closed
  rwa [List.zipIdx_map_fst] at stable

theorem lt_of_relabel {q : Nat × Nat}
    (pair : q ∈ relabel (standing existing kept) desired.zipIdx (places kept)) :
    q.1 < (retained existing kept).length := by
  obtain ⟨r, c, row, -, -⟩ := pair
  rw [length_retained]
  exact (List.getElem?_eq_some_iff.mp row).1

theorem ne_of_vacant {q : Nat × Nat} {c : Order × Nat}
    (pair : q ∈ relabel (standing existing kept) desired.zipIdx (places kept))
    (free : c ∈ vacant desired kept) : q.2 ≠ c.2 := by
  obtain ⟨r, d, -, column, k, here, place⟩ := pair
  obtain ⟨-, unmatched⟩ := mem_vacant.mp free
  rw [List.getElem?_zipIdx, Option.map_eq_some_iff] at column
  obtain ⟨d, -, rfl⟩ := column
  have spot := congrArg Prod.snd place
  intro same
  exact unmatched k here (by simpa [Candidate.place, same] using spot)

section
variable {q : Nat × Nat}

theorem intended_retained (meant : q ∈ intended existing desired kept)
    (low : q.1 < (retained existing kept).length) :
    q ∈ relabel (standing existing kept) desired.zipIdx (places kept) := by
  rcases meant with pair | ⟨b, c, -, rfl⟩
  · exact pair
  · exact absurd low (Nat.not_lt.mpr (Nat.le_add_right _ b))

theorem intended_placed (meant : q ∈ intended existing desired kept)
    (new : (retained existing kept).length ≤ q.1) :
    ∃ b c, (vacant desired kept)[b]? = some c ∧ q = ((retained existing kept).length + b, c.2) := by
  rcases meant with pair | placed
  · exact absurd (lt_of_relabel pair) (Nat.not_lt.mpr new)
  · exact placed

theorem intended_apart {r : Nat × Nat} (matched : matching tolerance existing desired = .ok kept)
    (first : q ∈ intended existing desired kept) (second : r ∈ intended existing desired kept)
    (meets : Meets q r) : q = r := by
  rcases first with pair | ⟨b, c, row, rfl⟩
  · rcases second with pair' | ⟨b', c', row', rfl⟩
    · exact (retained_stable matched).apart q pair r pair' meets
    · have low := lt_of_relabel pair
      have other := ne_of_vacant pair (List.mem_of_getElem? row')
      exact absurd meets (not_or.mpr ⟨by simp only; omega, other⟩)
  · rcases second with pair' | ⟨b', c', row', rfl⟩
    · have low := lt_of_relabel pair'
      have other := ne_of_vacant pair' (List.mem_of_getElem? row)
      exact absurd meets (not_or.mpr ⟨by simp only; omega, other.symm⟩)
    · have across : Selects desired (vacant desired kept) := selects_filter desired _
      have same : b = b' := by
        rcases meets with same | same
        · exact Nat.add_left_cancel same
        · exact (across.eq_iff row row').mp same
      subst same
      cases row.symm.trans row'
      rfl

theorem exists_intended (wanted : desired[j]? = some d)
    (matched : matching tolerance existing desired = .ok kept) :
    ∃ i, (i, j) ∈ intended existing desired kept := by
  by_cases claimed : ∃ i, (i, j) ∈ places kept
  · obtain ⟨i, pair⟩ := claimed
    obtain ⟨x, cost⟩ := Option.isSome_iff_exists.mp ((matching_stable matched).allowed _ pair)
    obtain ⟨o, -, here, -, -⟩ := costs_eq_some.mp cost
    have stays : (o, i) ∈ standing existing kept := mem_standing.mpr ⟨here, j, pair⟩
    obtain ⟨k, row⟩ := List.getElem?_of_mem stays
    exact ⟨k, .inl ⟨(o, i), (d, j), row, List.getElem?_zipIdx.trans (by simp [wanted]), pair⟩⟩
  · have free : (d, j) ∈ vacant desired kept := mem_spare.mpr
      ⟨wanted, Bool.eq_false_iff.mpr fun some => claimed (any_desired.mp some)⟩
    obtain ⟨b, column⟩ := List.getElem?_of_mem free
    exact ⟨_, .inr ⟨b, (d, j), column, rfl⟩⟩

theorem exists_intended_of_row (here : (retained existing kept ++ placed)[i]? = some o)
    (copies : List.Forall₂ CopyOf ((vacant desired kept).map (·.1)) placed)
    (matched : matching tolerance existing desired = .ok kept) :
    ∃ j, (i, j) ∈ intended existing desired kept := by
  rcases Nat.lt_or_ge i (retained existing kept).length with low | new
  · obtain ⟨r, row⟩ : ∃ r, (standing existing kept)[i]? = some r :=
      ⟨_, List.getElem?_eq_getElem (length_retained ▸ low)⟩
    obtain ⟨-, j, pair⟩ := mem_standing.mp (List.mem_of_getElem? row)
    obtain ⟨x, cost⟩ := Option.isSome_iff_exists.mp ((matching_stable matched).allowed _ pair)
    obtain ⟨-, d, -, wanted, -⟩ := costs_eq_some.mp cost
    exact ⟨j, .inl ⟨r, (d, j), row, List.getElem?_zipIdx.trans (by simp [wanted]), pair⟩⟩
  · obtain ⟨b, rfl⟩ := Nat.exists_eq_add_of_le new
    have inside := (List.getElem?_eq_some_iff.mp here).1
    have many := copies.length_eq
    rw [List.length_append] at inside
    rw [List.length_map] at many
    have column : (vacant desired kept)[b]? = some (vacant desired kept)[b] :=
      List.getElem?_eq_getElem (by omega)
    exact ⟨_, .inr ⟨b, _, column, rfl⟩⟩

end

theorem costs_retained (low : i < (retained existing kept).length) (wanted : desired[j]? = some d) :
    costs tolerance (retained existing kept ++ placed) desired i j =
      distance? tolerance (retained existing kept)[i] d := by
  rw [costs_append_left low]
  simp only [costs, List.getElem?_eq_getElem low, wanted, bind, Option.bind]

theorem costs_placed {b : Nat} {c : Order × Nat}
    (copies : List.Forall₂ CopyOf ((vacant desired kept).map (·.1)) placed)
    (row : (vacant desired kept)[b]? = some c) (wanted : desired[k]? = some d) :
    costs tolerance (retained existing kept ++ placed) desired
      ((retained existing kept).length + b) k = distance? tolerance c.1 d :=
  costs_append_right copies (by rw [List.getElem?_map, row]; rfl) wanted

theorem alike_of_seen {c : Order} (wanted : desired[j]? = some c) (wanted' : desired[k]? = some d)
    (seen : SeenAlike tolerance (retained existing kept) c d) :
    (costs tolerance (retained existing kept ++ placed) desired).Alike
      (retained existing kept).length j k := by
  intro i low
  rw [costs_retained low wanted, costs_retained low wanted']
  exact seen _ (List.getElem_mem low)

theorem seen_of_alike {c : Order} (wanted : desired[j]? = some c) (wanted' : desired[k]? = some d)
    (alike : (costs tolerance (retained existing kept ++ placed) desired).Alike
      (retained existing kept).length j k) : SeenAlike tolerance (retained existing kept) c d := by
  intro o here
  obtain ⟨i, low, rfl⟩ := List.getElem_of_mem here
  rw [← costs_retained low wanted, ← costs_retained low wanted']
  exact alike i low

theorem placed_free {q : Nat × Nat} (nonneg : 0 ≤ tolerance.coefficient)
    (copies : List.Forall₂ CopyOf ((vacant desired kept).map (·.1)) placed)
    (inRange : ∀ o ∈ retained existing kept ++ placed, ∀ d ∈ desired, InRange tolerance o d)
    (meant : q ∈ intended existing desired kept) (new : (retained existing kept).length ≤ q.1) :
    costs tolerance (retained existing kept ++ placed) desired q.1 q.2 = some 0 := by
  have across : Selects desired (vacant desired kept) := selects_filter desired _
  obtain ⟨b, c, row, rfl⟩ := intended_placed meant new
  obtain ⟨p, there, copy⟩ := exists_copy copies (by rw [List.getElem?_map, row]; rfl)
  have wanted := across.order row
  rw [costs_placed copies row wanted]
  exact distance?_of_copy nonneg copy (inRange p
    (List.mem_append_right _ (List.mem_of_getElem? there)) c.1 (List.mem_of_getElem? wanted))

theorem Untorn.alike_at {q : Nat × Nat} (untorn : Untorn tolerance existing desired kept)
    (copies : List.Forall₂ CopyOf ((vacant desired kept).map (·.1)) placed)
    (meant : q ∈ intended existing desired kept) (new : (retained existing kept).length ≤ q.1)
    (other : k ≠ q.2)
    (zero : costs tolerance (retained existing kept ++ placed) desired q.1 k = some 0) :
    (costs tolerance (retained existing kept ++ placed) desired).Alike
      (retained existing kept).length q.2 k := by
  have across : Selects desired (vacant desired kept) := selects_filter desired _
  obtain ⟨b, c, row, rfl⟩ := intended_placed meant new
  obtain ⟨-, d, -, wanted, -⟩ := costs_eq_some.mp zero
  rw [costs_placed copies row wanted] at zero
  exact alike_of_seen (across.order row) wanted
    (untorn.alike c (List.mem_of_getElem? row) d ⟨k, other, wanted, zero⟩)

theorem Untorn.untied_at {q : Nat × Nat} {l m : Nat}
    (untorn : Untorn tolerance existing desired kept)
    (copies : List.Forall₂ CopyOf ((vacant desired kept).map (·.1)) placed)
    (meant : q ∈ intended existing desired kept) (new : (retained existing kept).length ≤ q.1)
    (other : k ≠ q.2)
    (zero : costs tolerance (retained existing kept ++ placed) desired q.1 k = some 0)
    (low : i < (retained existing kept).length)
    (some : costs tolerance (retained existing kept ++ placed) desired i q.2 ≠ none)
    (tie : costs tolerance (retained existing kept ++ placed) desired i l =
      costs tolerance (retained existing kept ++ placed) desired i q.2)
    (before : l < m)
    (late : (costs tolerance (retained existing kept ++ placed) desired).Alike
      (retained existing kept).length q.2 m) :
    (costs tolerance (retained existing kept ++ placed) desired).Alike
      (retained existing kept).length q.2 l := by
  have across : Selects desired (vacant desired kept) := selects_filter desired _
  have exists_of_cost {n : Nat}
      (same : costs tolerance (retained existing kept ++ placed) desired i n =
        costs tolerance (retained existing kept ++ placed) desired i q.2) :
      ∃ d, desired[n]? = Option.some d := by
    obtain ⟨x, cost⟩ := Option.ne_none_iff_exists'.mp (same ▸ some)
    obtain ⟨-, d, -, wanted, -⟩ := costs_eq_some.mp cost
    exact ⟨d, wanted⟩
  obtain ⟨d', wanted'⟩ := exists_of_cost tie
  obtain ⟨d'', wanted''⟩ := exists_of_cost (late i low).symm
  obtain ⟨b, c, row, rfl⟩ := intended_placed meant new
  obtain ⟨-, d, -, wanted, -⟩ := costs_eq_some.mp zero
  have seen := seen_of_alike (across.order row) wanted'' late
  rw [costs_placed copies row wanted] at zero
  rw [costs_retained low (across.order row)] at some tie
  rw [costs_retained low wanted'] at tie
  rcases untorn.untied c (List.mem_of_getElem? row) d ⟨k, other, wanted, zero⟩ _
    (List.getElem_mem low) some l d' wanted' tie with alike | after
  · exact alike_of_seen (across.order row) wanted' alike
  · exact absurd (after m d'' wanted'' seen) (Nat.lt_asymm before)

theorem executed (nonneg : 0 ≤ tolerance.coefficient)
    (matched : matching tolerance existing desired = .ok kept)
    (copies : List.Forall₂ CopyOf ((vacant desired kept).map (·.1)) placed)
    (inRange : ∀ o ∈ retained existing kept ++ placed, ∀ d ∈ desired, InRange tolerance o d)
    (untorn : Untorn tolerance existing desired kept) :
    (costs tolerance (retained existing kept ++ placed) desired).Executed
      (retained existing kept).length (intended existing desired kept) := by
  have stable := retained_stable matched
  have same {i j : Nat} (low : i < (retained existing kept).length) :
      costs tolerance (retained existing kept ++ placed) desired i j =
        costs tolerance (retained existing kept) desired i j := costs_append_left low
  constructor
  case nonneg =>
    intro i j x cost
    obtain ⟨o, d, -, -, near⟩ := costs_eq_some.mp cost
    exact distance?_nonneg near
  case allowed =>
    intro p meant
    rcases Nat.lt_or_ge p.1 (retained existing kept).length with low | new
    · have allowed := stable.allowed p (intended_retained meant low)
      rwa [Costs.Allows, same low]
    · rw [Costs.Allows, placed_free nonneg copies inRange meant new]
      rfl
  case apart => exact fun p first q second meets => intended_apart matched first second meets
  case row =>
    intro p allowed
    obtain ⟨x, cost⟩ := Option.isSome_iff_exists.mp allowed
    obtain ⟨o, d, here, -, -⟩ := costs_eq_some.mp cost
    exact exists_intended_of_row here copies matched
  case column =>
    intro p allowed
    obtain ⟨x, cost⟩ := Option.isSome_iff_exists.mp allowed
    obtain ⟨o, d, -, wanted, -⟩ := costs_eq_some.mp cost
    exact exists_intended wanted matched
  case yields =>
    intro p allowed low absent
    have allowed : (costs tolerance (retained existing kept) desired).Allows p := by
      rwa [Costs.Allows, ← same low]
    obtain ⟨q, pair, meets, lower⟩ := stable.yields p allowed fun pair => absent (.inl pair)
    refine ⟨q, .inl pair, lt_of_relabel pair, meets, ?_⟩
    rwa [Costs.rank, Costs.rank, same low, same (lt_of_relabel pair)]
  case fresh => exact fun p meant new => placed_free nonneg copies inRange meant new
  case rising =>
    intro p first q second new less
    have across : Selects desired (vacant desired kept) := selects_filter desired _
    obtain ⟨b, c, row, rfl⟩ := intended_placed first new
    obtain ⟨b', c', row', rfl⟩ :=
      intended_placed second (Nat.le_of_lt (Nat.lt_of_le_of_lt new less))
    exact (across.lt_iff row row').mpr (Nat.lt_of_add_lt_add_left less)
  case alike => exact fun p meant new k other zero => untorn.alike_at copies meant new other zero
  case unrivalled =>
    exact fun p meant new k other zero i low l some tie m before late =>
      untorn.untied_at copies meant new other zero low some tie before late

theorem leftOver_eq_nil {taken : Nat → Bool}
    (all : ∀ i o, orders[i]? = some o → taken i = true) : leftOver orders taken = [] := by
  rw [leftOver, List.map_eq_nil_iff, List.filter_eq_nil_iff]
  rintro ⟨o, i⟩ here
  simp [all i o (List.mk_mem_zipIdx_iff_getElem?.mp here)]

end Reconciliation

namespace Reconciler
open Reconciliation
variable {existing desired placed : List Order} {kept : List Candidate} {plan next : Plan}

theorem plan_executed (planned : (tolerance ratio).plan existing desired = .ok plan)
    (matched : matching ratio.abs existing desired = .ok kept)
    (copies : List.Forall₂ CopyOf plan.toPlace placed)
    (again : (tolerance ratio).plan (retained existing kept ++ placed) desired = .ok next)
    (untorn : Untorn ratio.abs existing desired kept) : next.isEmpty = true := by
  obtain ⟨kept', matched', -, places⟩ := plan_eq_ok.mp planned
  cases matched.symm.trans matched'
  rw [places] at copies
  obtain ⟨taken, found, cancels, placements⟩ := plan_eq_ok.mp again
  have executed := executed ratio.abs_nonneg matched copies (inRange_of_matching found) untorn
  have covers {p} := executed.covers (p := p) (matching_stable found) (finite_allows _ _ _)
  have nothing : next.toCancel = [] := by
    rw [cancels]
    refine leftOver_eq_nil fun i o here => any_existing.mpr ?_
    obtain ⟨j, meant⟩ := exists_intended_of_row here copies matched
    exact (covers meant).1
  have nothing' : next.toPlace = [] := by
    rw [placements]
    refine leftOver_eq_nil fun j d wanted => any_desired.mpr ?_
    obtain ⟨i, meant⟩ := exists_intended wanted matched
    exact (covers meant).2
  rw [Plan.isEmpty, nothing, nothing']
  rfl

-- The copy of the second order at 90 takes the position of the first one, and the bid at 99 that
-- had it takes the position of the second: that is as near as the one at 110, and comes before it.
theorem plan_executed_twice :
    let existing := [bidAt 9900 2, bidAt 12100 2]
    let desired := [bidAt 90 0, bidAt 90 0, bidAt 110 0]
    let placed := [(bidAt 90 0).withClientId ⟨7⟩]
    let kept := [⟨.ofWord 10 2, 0, 0⟩, ⟨.ofWord 10 2, 1, 2⟩]
    (tolerance (.ofWord 1 1)).plan existing desired = .ok ⟨[], [bidAt 90 0]⟩ ∧
      matching (Decimal.ofWord 1 1).abs existing desired = .ok kept ∧
      List.Forall₂ CopyOf [bidAt 90 0] placed ∧
      Untorn (Decimal.ofWord 1 1).abs existing desired kept ∧
      ∃ next, (tolerance (.ofWord 1 1)).plan (retained existing kept ++ placed) desired = .ok next ∧
        next.isEmpty = true := by
  intro existing desired placed kept
  have planned : (tolerance (.ofWord 1 1)).plan existing desired = .ok ⟨[], [bidAt 90 0]⟩ := by cbv
  have matched : matching (Decimal.ofWord 1 1).abs existing desired = .ok kept := by cbv
  have copies : List.Forall₂ CopyOf [bidAt 90 0] placed := .cons ⟨_, _, rfl⟩ .nil
  have again : (tolerance (.ofWord 1 1)).plan (retained existing kept ++ placed) desired =
      .ok ⟨[], []⟩ := by cbv
  have free : vacant desired kept = [(bidAt 90 0, 1)] := by cbv
  have stays : retained existing kept = existing := by cbv
  have apart : equivalent (Decimal.ofWord 1 1).abs (bidAt 90 0) (bidAt 110 0) = .ok false := by cbv
  have far : equivalent (Decimal.ofWord 1 1).abs (bidAt 12100 2) (bidAt 90 0) = .ok false := by cbv
  have near : equivalent (Decimal.ofWord 1 1).abs (bidAt 12100 2) (bidAt 110 0) = .ok true := by cbv
  have scored : score (bidAt 12100 2) (bidAt 110 0) = .ok (.ofWord 10 2) := by cbv
  have told : ¬ SeenAlike (Decimal.ofWord 1 1).abs existing (bidAt 90 0) (bidAt 110 0) := by
    intro alike
    have same := alike (bidAt 12100 2) (by simp [existing])
    simp [distance?, far, near, scored] at same
  have spots (l : Nat) (d : Order) (wanted : desired[l]? = some d) :
      d = bidAt 90 0 ∧ l < 2 ∨ d = bidAt 110 0 ∧ l = 2 := by
    rcases l with _ | _ | _ | l
    · exact .inl ⟨(Option.some.inj wanted).symm, by decide⟩
    · exact .inl ⟨(Option.some.inj wanted).symm, by decide⟩
    · exact .inr ⟨(Option.some.inj wanted).symm, rfl⟩
    · cases wanted
  have untorn : Untorn (Decimal.ofWord 1 1).abs existing desired kept := by
    constructor
    case alike =>
      rintro c here d ⟨k, -, wanted, zero⟩
      rw [free, List.mem_singleton] at here
      subst here
      rcases spots k d wanted with ⟨rfl, -⟩ | ⟨rfl, -⟩
      · exact fun _ _ => rfl
      · simp [distance?, apart] at zero
    case untied =>
      intro c here d _ o _ _ l d' wanted _
      rw [free, List.mem_singleton] at here
      subst here
      rw [stays]
      rcases spots l d' wanted with ⟨rfl, -⟩ | ⟨rfl, rfl⟩
      · exact .inl fun _ _ => rfl
      · refine .inr fun m d'' wanted' seen => ?_
        rcases spots m d'' wanted' with ⟨-, before⟩ | ⟨rfl, -⟩
        · exact before
        · exact absurd seen told
  exact ⟨planned, matched, copies, untorn, _, again,
    plan_executed planned matched copies again untorn⟩

-- A bid at 99 is as near to 90 as to 110. When the copy of the second order at 90 takes the
-- position of the first one, the bid does not wait for the second but takes the place of the bid
-- at 121.
theorem plan_executed_torn :
    let existing := [bidAt 9900 2, bidAt 12100 2]
    let desired := [bidAt 90 0, bidAt 110 0, bidAt 90 0]
    ∃ kept plan next, (tolerance (.ofWord 1 1)).plan existing desired = .ok plan ∧
      matching (Decimal.ofWord 1 1).abs existing desired = .ok kept ∧
      List.Forall₂ CopyOf plan.toPlace [bidAt 90 0] ∧
      (tolerance (.ofWord 1 1)).plan (retained existing kept ++ [bidAt 90 0]) desired = .ok next ∧
      next = ⟨[bidAt 12100 2], [bidAt 90 0]⟩ ∧ next.isEmpty = false := by
  intro existing desired
  have planned : (tolerance (.ofWord 1 1)).plan existing desired = .ok ⟨[], [bidAt 90 0]⟩ := by cbv
  have matched : matching (Decimal.ofWord 1 1).abs existing desired =
      .ok [⟨.ofWord 10 2, 0, 0⟩, ⟨.ofWord 10 2, 1, 1⟩] := by cbv
  have copies : List.Forall₂ CopyOf [bidAt 90 0] [bidAt 90 0] := .cons ⟨_, _, rfl⟩ .nil
  exact ⟨_, _, _, planned, matched, copies, by cbv, rfl, rfl⟩

end Reconciler
end MarketMaking
