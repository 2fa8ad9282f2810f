import MarketMaking.Proofs.Bookkeeping
import MarketMaking.Proofs.Placements

/-! When a listing shows an order that was placed. It waits for exactly as many listings as the
exchange lags behind, whatever else happens in between, and is shown from then on until it is
cancelled or filled (`listings_exact`). A fetch that fails is as good as none. -/

namespace MarketMaking
namespace Exchange
variable {x : Exchange} {lag : Nat}

-- The orders still on the book that have waited for their listings, in the order in which they were
-- placed. The listing that is to show them comes after those that they have waited for.
def shown (lag : Nat) (book : List Order) (history : List Placement) : List Order :=
  (history.filter fun p => p.order ∈ book ∧ lag < p.fetches + 1).map (·.order)

theorem mem_shown {o : Order} {book : List Order} {history : List Placement} :
    o ∈ shown lag book history ↔ ∃ p ∈ history, p.order = o ∧ o ∈ book ∧ lag < p.fetches + 1 := by
  simp only [shown, List.mem_map, List.mem_filter, decide_eq_true_eq]
  constructor
  · rintro ⟨p, ⟨placed, rests, waited⟩, rfl⟩
    exact ⟨p, placed, rfl, rests, waited⟩
  · rintro ⟨p, placed, rfl, rests, waited⟩
    exact ⟨p, ⟨placed, rests, waited⟩, rfl⟩

theorem Told.count_shown {history : List Placement} (told : Told lag x history) {p : Placement}
    (placed : p ∈ history) (rests : p.order ∈ x.orders) :
    (shown lag x.orders history).count p.order = if lag < p.fetches + 1 then 1 else 0 := by
  have unique : (shown lag x.orders history).Nodup :=
    told.unique.sublist (List.filter_sublist.map _)
  have listed : p.order ∈ shown lag x.orders history ↔ lag < p.fetches + 1 := by
    rw [mem_shown]
    constructor
    · rintro ⟨q, other, same, -, waited⟩
      rwa [← List.inj_on_of_nodup_map told.unique other placed same]
    · exact fun waited => ⟨p, placed, rfl, rests, waited⟩
  rw [unique.count]
  exact if_congr listed rfl rfl

theorem Told.visible {history : List Placement} (told : Told lag x history) :
    x.visible = shown lag x.orders history := by
  obtain ⟨left, kept, resting⟩ := told.book
  have orders : x.orders = left.map (·.order) := by simp [Exchange.orders, resting]
  have still : left = history.filter fun p => decide (p.order ∈ x.orders) := by
    rw [orders]
    exact eq_filter_of_sublist kept told.unique
  have waited : x.visible = (left.filter fun p => lag - p.fetches == 0).map (·.order) := by
    simp [Exchange.visible, resting, List.filter_map, Function.comp_def]
  rw [waited, still, List.filter_filter, shown]
  refine congrArg (List.map _) (List.filter_congr fun p _ => ?_)
  rw [Bool.and_comm, Bool.decide_and]
  refine congrArg (_ && ·) ?_
  rw [Bool.eq_iff_iff, beq_iff_eq, decide_eq_true_iff]
  omega

theorem fetch_ok {listing : List Order} (answered : (Exchange.fetch x).1 = .ok listing) :
    listing = x.visible := by
  unfold Exchange.fetch at answered
  dsimp only at answered
  split at answered
  · cases answered
  · cases answered
    rfl

theorem fetch_error {e : RemoteError} (failed : (Exchange.fetch x).1 = .error e) :
    x.Unchanged (Exchange.fetch x).2 := by
  unfold Exchange.fetch at failed ⊢
  dsimp only at failed ⊢
  split at failed
  · rw [if_pos ‹_›]
    exact ⟨rfl, rfl, rfl⟩
  · cases failed

inductive Request.Targets (o : Order) : Request → Prop where
  | cancel {target : Order} {okIfMissing : Bool} : target.designates o = true →
    Targets o (.cancel target okIfMissing)
  | batch {target : Order} {okIfMissing : Bool} {b : Batch} :
    .cancel target okIfMissing ∈ b.toList → target.designates o = true → Targets o (.submit b)
  | fill {id : ClientId} : o.clientId = some id → Targets o (.disturb (.fill id))

structure Moment.Removes (m : Moment) (o : Order) : Prop where
  rests : o ∈ m.before.orders
  gone : o ∉ m.after.orders
  targets : m.request.Targets o

variable {o : Order}

theorem mem_orders_of_eraseP {p : Resting → Bool} (here : o ∈ x.orders)
    (gone : o ∉ (x.resting.eraseP p).map (·.order)) :
    ∃ r ∈ x.resting, p r = true ∧ r.order = o := by
  obtain ⟨r, rests, rfl⟩ := List.mem_map.mp here
  by_contra spared
  have other : ¬ p r = true := fun hit => spared ⟨r, rests, hit, rfl⟩
  exact gone (List.mem_map_of_mem ((List.mem_eraseP_of_neg other).mpr rests))

theorem designates_of_removed {target : Order} (here : o ∈ x.orders)
    (gone : o ∉ (x.remove target).orders) : target.designates o = true := by
  obtain ⟨r, -, hit, rfl⟩ := mem_orders_of_eraseP here gone
  exact hit

theorem cancel_of_gone {ops : List Operation} (here : o ∈ x.orders)
    (gone : o ∉ (ops.foldl apply x).orders) :
    ∃ target okIfMissing, .cancel target okIfMissing ∈ ops ∧ target.designates o = true := by
  induction ops generalizing x with
  | nil => exact absurd here gone
  | cons op later ih =>
    by_cases still : o ∈ (x.apply op).orders
    · obtain ⟨target, okIfMissing, listed, hit⟩ := ih still gone
      exact ⟨target, okIfMissing, List.mem_cons_of_mem op listed, hit⟩
    · cases op with
      | cancel target okIfMissing =>
        exact ⟨target, okIfMissing, List.mem_cons_self, designates_of_removed here still⟩
      | place p =>
        have kept : o ∈ (x.rest p).orders := by
          simpa [Exchange.orders, Exchange.rest] using .inl (by simpa [Exchange.orders] using here)
        exact absurd kept still
      | crank | settle | redeem => exact absurd here still

theorem orders_fetched (x : Exchange) : (x.serve .fetch).orders = x.orders := by
  simp only [Exchange.serve, Exchange.fetch]
  split <;> simp [Exchange.orders, Function.comp_def]

theorem targets_of_gone {request : Request} (here : o ∈ x.orders)
    (gone : o ∉ (x.serve request).orders) : request.Targets o := by
  cases request with
  | fetch => exact absurd here (x.orders_fetched ▸ gone)
  | submit b =>
    simp only [Exchange.serve] at gone
    rcases submit_cases b x with ⟨e, y, refused, -, -, resting⟩ | ⟨n, accepted⟩
    · rw [refused, Exchange.orders, resting] at gone
      exact absurd here gone
    · rw [accepted] at gone
      obtain ⟨target, okIfMissing, listed, hit⟩ := cancel_of_gone here gone
      exact .batch listed hit
  | cancel target okIfMissing =>
    simp only [Exchange.serve, Exchange.cancel] at gone
    split at gone
    · exact .cancel (designates_of_removed here gone)
    · split at gone <;> exact absurd here gone
  | disturb d =>
    cases d with
    | fill id =>
      simp only [Exchange.serve, Exchange.disturb, Exchange.fill] at gone
      split at gone
      · exact absurd here gone
      · obtain ⟨r, -, hit, rfl⟩ := mem_orders_of_eraseP here gone
        exact .fill (by simpa using hit)
    | failSubmissions n | rejectSubmissions n | failFetches n => exact absurd here gone

theorem removed_of_gone {requests : List Request} (here : o ∈ x.orders)
    (gone : o ∉ (x.serveAll requests).orders) : ∃ m ∈ x.moments requests, m.Removes o := by
  induction requests generalizing x with
  | nil => exact absurd here gone
  | cons request later ih =>
    by_cases still : o ∈ (x.serve request).orders
    · obtain ⟨m, after, removes⟩ := ih still gone
      exact ⟨m, List.mem_cons_of_mem _ after, removes⟩
    · exact ⟨⟨x, request⟩, List.mem_cons_self, here, still, targets_of_gone here still⟩

-- After any run on a new exchange, a listing shows an order that still rests, once, just if more
-- than `lag` listings were given since it was placed, this one included; the orders stand in it as
-- they were placed. What an earlier listing showed is shown again unless it was cancelled or filled
-- since. A fetch that fails leaves the book as it is.
theorem listings_exact (lag : Nat) (requests : List Request) :
    let start : Exchange := { lag }
    let x := start.serveAll requests
    let history := placements (start.moments requests)
    match (Exchange.fetch x).1 with
    | .error _ => x.Unchanged (Exchange.fetch x).2
    | .ok listing =>
      listing = shown lag x.orders history ∧
      (∀ p ∈ history, p.order ∈ x.orders →
        listing.count p.order = if lag < p.fetches + 1 then 1 else 0) ∧
      ∀ early later listed o, requests = early ++ .fetch :: later →
        (Exchange.fetch (start.serveAll early)).1 = .ok listed → o ∈ listed →
        o ∈ listing ∨ ∃ m ∈ (start.serveAll (early ++ [.fetch])).moments later, m.Removes o := by
  intro start x history
  have told : Told lag x history := told lag requests
  cases answer : (Exchange.fetch x).1 with
  | error e => exact fetch_error answer
  | ok listing =>
    have listed := (fetch_ok answer).trans told.visible
    refine ⟨listed, fun p placed rests => listed ▸ told.count_shown placed rests, ?_⟩
    intro early later seen o split earlier here
    rw [fetch_ok earlier, (Exchange.told lag early).visible] at here
    obtain ⟨p, placed, own, rested, waited⟩ := mem_shown.mp here
    by_cases rests : o ∈ x.orders
    · left
      have still : p.later ((start.serveAll early).moments (.fetch :: later)) ∈ history := by
        simp only [history, split, moments_append, placements_append]
        exact List.mem_append_left _ (List.mem_map_of_mem placed)
      rw [listed, mem_shown]
      exact ⟨_, still, own, rests, by simp only [Placement.later]; omega⟩
    · right
      have run : x = (start.serveAll (early ++ [.fetch])).serveAll later := by
        simp [x, split, serveAll]
      have after : o ∈ (start.serveAll (early ++ [.fetch])).orders := by
        rw [serveAll_append]
        exact (orders_fetched _).symm ▸ rested
      exact removed_of_gone after (run ▸ rests)

end Exchange
end MarketMaking
