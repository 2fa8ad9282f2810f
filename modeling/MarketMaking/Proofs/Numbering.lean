import Mathlib.Data.List.Nodup
import MarketMaking.Proofs.Floor

/-! The books that an exchange can come to hold, whoever trades on it and however its owners name
their orders. The exchange ids on a book are those that the exchange gave out, each at most once and
in the order in which they were given (`Exchange.Reachable.numbered`). -/

namespace MarketMaking

namespace Exchange

inductive Request where
  | fetch
  | submit (b : Batch)
  | cancel (target : Order) (okIfMissing : Bool)
  | disturb (d : Disturbance)

def serve (x : Exchange) : Request → Exchange
  | .fetch => (Exchange.fetch x).2
  | .submit b => (Exchange.submit b x).2
  | .cancel target okIfMissing => (Exchange.cancel target okIfMissing x).2
  | .disturb d => x.disturb d

def serveAll (x : Exchange) (requests : List Request) : Exchange := requests.foldl serve x

def Reachable (x : Exchange) : Prop :=
  ∃ (lag : Nat) (requests : List Request), x = ({ lag } : Exchange).serveAll requests

-- The numbers in the exchange ids go up along the book, and are among those issued so far.
def Numbered (x : Exchange) : Prop :=
  ∃ numbers : List Nat, numbers.Pairwise (· < ·) ∧ (∀ k ∈ numbers, 1 ≤ k ∧ k ≤ x.issued) ∧
    x.resting.map (·.order.exchangeId) = numbers.map fun k => some (orderId k)

variable {x y : Exchange}

theorem Numbered.unique (numbered : x.Numbered) :
    (x.resting.map (·.order.exchangeId)).Nodup := by
  obtain ⟨numbers, ascending, -, same⟩ := numbered
  rw [same]
  refine List.Nodup.map ?_ (ascending.imp Nat.ne_of_lt)
  exact fun _ _ eq => orderId_injective (Option.some.inj eq)

theorem Numbered.exchangeId (numbered : x.Numbered) {r : Resting} (here : r ∈ x.resting) :
    ∃ id, r.order.exchangeId = some id := by
  obtain ⟨numbers, -, -, same⟩ := numbered
  have own : r.order.exchangeId ∈ x.resting.map (·.order.exchangeId) :=
    List.mem_map.mpr ⟨r, here, rfl⟩
  rw [same] at own
  obtain ⟨k, -, eq⟩ := List.mem_map.mp own
  exact ⟨_, eq.symm⟩

theorem Numbered.fewer (numbered : x.Numbered)
    (part : (y.resting.map (·.order.exchangeId)).Sublist (x.resting.map (·.order.exchangeId)))
    (issued : y.issued = x.issued) : y.Numbered := by
  obtain ⟨numbers, ascending, bounds, same⟩ := numbered
  rw [same] at part
  obtain ⟨left, kept, eq⟩ := List.sublist_map_iff.mp part
  exact ⟨left, ascending.sublist kept, fun k here => issued ▸ bounds k (kept.subset here), eq⟩

theorem Numbered.sublist (numbered : x.Numbered) (part : y.resting.Sublist x.resting)
    (issued : y.issued = x.issued) : y.Numbered :=
  numbered.fewer (part.map _) issued

theorem Numbered.age (numbered : x.Numbered) (aged : y.resting = x.resting.map Resting.age)
    (issued : y.issued = x.issued) : y.Numbered := by
  refine numbered.fewer ?_ issued
  simp [aged, Function.comp_def]

theorem Numbered.rest (numbered : x.Numbered) (o : Order) : (x.rest o).Numbered := by
  obtain ⟨numbers, ascending, bounds, same⟩ := numbered
  refine ⟨numbers ++ [x.issued + 1], ?_, ?_, ?_⟩
  · refine List.pairwise_append.mpr
      ⟨ascending, List.pairwise_singleton _ _, fun k here l last => ?_⟩
    rw [List.mem_singleton.mp last]
    exact Nat.lt_succ_of_le (bounds k here).2
  · intro k here
    change 1 ≤ k ∧ k ≤ x.issued + 1
    rcases List.mem_append.mp here with old | new
    · exact ⟨(bounds k old).1, Nat.le_succ_of_le (bounds k old).2⟩
    · rw [List.mem_singleton.mp new]
      exact ⟨Nat.succ_pos _, Nat.le_refl _⟩
  · simp [Exchange.rest, same]

theorem Numbered.apply (numbered : x.Numbered) (op : Operation) : (x.apply op).Numbered := by
  cases op with
  | cancel target _ => exact numbered.sublist List.eraseP_sublist rfl
  | place o => exact numbered.rest o
  | crank | settle | redeem => exact numbered

theorem Numbered.foldl_apply (numbered : x.Numbered) (ops : List Operation) :
    (ops.foldl Exchange.apply x).Numbered := by
  induction ops generalizing x with
  | nil => exact numbered
  | cons op rest ih => exact ih (numbered.apply op)

theorem Numbered.serve (numbered : x.Numbered) (request : Request) :
    (x.serve request).Numbered := by
  cases request with
  | fetch =>
    simp only [Exchange.serve, Exchange.fetch]
    split
    · exact numbered
    · exact numbered.age rfl rfl
  | submit b =>
    simp only [Exchange.serve]
    rcases submit_cases b x with ⟨e, y, refused, -, issued, resting⟩ | ⟨n, applied⟩
    · rw [refused]
      exact numbered.sublist (resting ▸ List.Sublist.refl _) issued
    · rw [applied]
      exact numbered.foldl_apply b.toList
  | cancel target okIfMissing =>
    simp only [Exchange.serve, Exchange.cancel]
    split
    · exact numbered.sublist List.eraseP_sublist rfl
    · split <;> exact numbered
  | disturb d => exact numbered.sublist (x.resting_disturb_sublist d) (x.issued_disturb d)

theorem Numbered.serveAll (numbered : x.Numbered) (requests : List Request) :
    (x.serveAll requests).Numbered := by
  induction requests generalizing x with
  | nil => exact numbered
  | cons request rest ih => exact ih (numbered.serve request)

theorem Reachable.numbered (reachable : x.Reachable) : x.Numbered := by
  obtain ⟨lag, requests, rfl⟩ := reachable
  have new : ({ lag } : Exchange).Numbered := ⟨[], .nil, by simp, rfl⟩
  exact new.serveAll requests

end Exchange
end MarketMaking
