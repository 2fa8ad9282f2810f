import Mathlib.Logic.Equiv.Defs
import MarketMaking.Proofs.Closeness
import MarketMaking.Proofs.OneForOne

/-! A book that is settled for a quote: of each side that is wanted there is one live order, which
stands for the one wanted. Reconciliation leaves such a book alone (`Keeps.settled`), and its orders
and those of the quote belong together one by one (`Settled.one_to_one`). -/

namespace MarketMaking
open Reconciliation

structure Settled (tolerance : Decimal) (live desired : List Order) : Prop where
  sides : (live.map (·.side)).Nodup
  forth : ∀ o ∈ live, ∃ d ∈ desired, StandsFor tolerance o d
  back : ∀ d ∈ desired, ∃ o ∈ live, StandsFor tolerance o d

def OneToOne (tolerance : Decimal) (live desired : List Order) : Prop :=
  ∃ place : Fin live.length ≃ Fin desired.length,
    ∀ i, equivalent tolerance (live.get i) (desired.get (place i)) = .ok true

variable {tolerance : Decimal} {live existing desired : List Order} {kept : List Candidate}
  {plan : Plan}

theorem side_unique (sides : (desired.map (·.side)).Nodup) {i j : Fin desired.length}
    (same : (desired.get i).side = (desired.get j).side) : i = j := by
  have atI : (desired.map (·.side))[i.val]? = some (desired.get j).side := by simpa using same
  have atJ : (desired.map (·.side))[j.val]? = some (desired.get j).side := by simp
  exact Fin.ext (position_unique sides atI atJ)

theorem StandsFor.equivalent {o d : Order} (stands : StandsFor tolerance o d)
    (nonneg : 0 ≤ tolerance.coefficient) (tested : ∃ b, equivalent tolerance o d = .ok b) :
    equivalent tolerance o d = .ok true := by
  obtain ⟨b, through⟩ := tested
  obtain ⟨side, ⟨price, quantity⟩ | close⟩ := stands
  · rw [through, equivalent_of_eq nonneg side price quantity through]
  · exact close

theorem OneForOne.settled (pairs : OneForOne tolerance live desired)
    (sides : (desired.map (·.side)).Nodup)
    (back : ∀ d ∈ desired, ∃ o ∈ live, StandsFor tolerance o d) :
    Settled tolerance live desired := by
  obtain ⟨place, injective, stands⟩ := pairs
  refine ⟨?_, ?_, back⟩
  · refine List.pairwise_iff_getElem.mpr fun i j low high less same => ?_
    simp only [List.length_map] at low high
    simp only [List.getElem_map] at same
    have side := ((stands ⟨i, low⟩).1.symm.trans same).trans (stands ⟨j, high⟩).1
    cases injective (side_unique sides side)
    exact Nat.lt_irrefl i less
  · intro o here
    obtain ⟨i, rfl⟩ := List.get_of_mem here
    exact ⟨_, List.get_mem _ _, stands i⟩

theorem Settled.one_to_one (settled : Settled tolerance live desired)
    (sides : (desired.map (·.side)).Nodup) (nonneg : 0 ≤ tolerance.coefficient)
    (tested : ∀ o ∈ live, ∀ d ∈ desired, ∃ b, equivalent tolerance o d = .ok b) :
    OneToOne tolerance live desired := by
  have forth : ∀ i : Fin live.length, ∃ j : Fin desired.length,
      StandsFor tolerance (live.get i) (desired.get j) := by
    intro i
    obtain ⟨d, wanted, stands⟩ := settled.forth _ (List.get_mem live i)
    obtain ⟨j, rfl⟩ := List.get_of_mem wanted
    exact ⟨j, stands⟩
  choose place stands using forth
  refine ⟨Equiv.ofBijective place ⟨fun a b same => ?_, fun j => ?_⟩, fun i => ?_⟩
  · exact side_unique settled.sides ((stands a).1.trans (same ▸ (stands b).1.symm))
  · obtain ⟨o, here, own⟩ := settled.back _ (List.get_mem desired j)
    obtain ⟨i, rfl⟩ := List.get_of_mem here
    exact ⟨i, side_unique sides ((stands i).1.symm.trans own.1)⟩
  · exact (stands i).equivalent nonneg (tested _ (List.get_mem _ _) _ (List.get_mem _ _))

theorem Settled.merged (settled : Settled tolerance live desired)
    (unique : (existing.map (·.clientId)).Nodup)
    (backed : ∀ o ∈ existing, ∃ r ∈ live, r.asSent = o.asSent)
    (shown : ∀ r ∈ live, ∃ o ∈ existing, o.asSent = r.asSent) :
    Settled tolerance existing desired := by
  refine ⟨nodup_sides_of_backed unique settled.sides backed, ?_, ?_⟩
  · intro o here
    obtain ⟨r, live, same⟩ := backed o here
    obtain ⟨d, wanted, stands⟩ := settled.forth r live
    exact ⟨d, wanted, standsFor_asSent same stands⟩
  · intro d wanted
    obtain ⟨r, live, stands⟩ := settled.back d wanted
    obtain ⟨o, here, same⟩ := shown r live
    exact ⟨o, here, standsFor_asSent same.symm stands⟩

namespace Reconciliation

theorem Keeps.settled (keeps : Keeps tolerance existing desired kept plan)
    (settled : Settled tolerance existing desired) (sides : (desired.map (·.side)).Nodup)
    (nonneg : 0 ≤ tolerance.coefficient) : plan.toCancel = [] ∧ plan.toPlace = [] := by
  -- a pair that got in the way has an order of the same side, so it is the same order
  have close : ∀ (i j : Nat) (o d : Order), existing[i]? = some o → desired[j]? = some d →
      StandsFor tolerance o d → ∃ c ∈ kept, c.existing = i ∧ c.desired = j := by
    intro i j o d atI atJ stands
    have tested := keeps.pairs.decided o (List.mem_of_getElem? atI) d (List.mem_of_getElem? atJ)
    obtain ⟨c, standing, way⟩ :=
      keeps.pairs.maximal i o j d atI atJ (stands.equivalent nonneg tested)
    obtain ⟨e, f, atE, atF, same⟩ := keeps.pairs.close c standing
    have side := side_of_equivalent same
    refine ⟨c, standing, ?_⟩
    rcases way with rfl | rfl
    · cases atE.symm.trans atI
      have atF : (desired.map (·.side))[c.desired]? = some d.side := by
        simp [atF, ← side, stands.1]
      exact ⟨rfl, position_unique sides atF (by simp [atJ])⟩
    · cases atF.symm.trans atJ
      have atE : (existing.map (·.side))[c.existing]? = some o.side := by
        simp [atE, side, stands.1]
      exact ⟨position_unique settled.sides atE (by simp [atI]), rfl⟩
  constructor
  · rw [keeps.cancels, List.map_eq_nil_iff, List.eq_nil_iff_forall_not_mem]
    rintro ⟨o, i⟩ left
    obtain ⟨atI, free⟩ := mem_surplus.mp left
    obtain ⟨d, wanted, stands⟩ := settled.forth o (List.mem_of_getElem? atI)
    obtain ⟨j, atJ⟩ := List.getElem?_of_mem wanted
    obtain ⟨c, standing, same, -⟩ := close i j o d atI atJ stands
    exact free c standing same
  · rw [keeps.places, List.map_eq_nil_iff, List.eq_nil_iff_forall_not_mem]
    rintro ⟨d, j⟩ left
    obtain ⟨atJ, free⟩ := mem_vacant.mp left
    obtain ⟨o, here, stands⟩ := settled.back d (List.mem_of_getElem? atJ)
    obtain ⟨i, atI⟩ := List.getElem?_of_mem here
    obtain ⟨c, standing, -, same⟩ := close i j o d atI atJ stands
    exact free c standing same

end Reconciliation
end MarketMaking
