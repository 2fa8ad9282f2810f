import MarketMaking.Proofs.Turn

/-! Pulses in calm surroundings, where nothing is filled, nothing is made to fail and no time limit
strikes. Every request then gets through at once, so a pulse is completed if it can be planned and
there are ids to draw (`Sound.tryPulse_calm`). -/

namespace MarketMaking
open Process

structure Surroundings.Calm (w : Surroundings τ) : Prop where
  request : ∀ t, (w.request t).1 = {}
  pause : ∀ span t, (w.pause span t).1 = {}
  now : ∀ t, ∃ now, w.now t = .ok now

structure Exchange.Healthy (x : Exchange) : Prop where
  fetches : x.failingFetches = 0
  submissions : x.failingSubmissions = 0
  rejections : x.rejectedSubmissions = 0

def Placeable (orders : List Order) : Prop :=
  ∀ o ∈ orders, .zero < o.price ∧ .zero < o.quantity

variable {n : Nat} {m m' : Maker} {f g : Floor τ} {w : Surroundings τ} {desired : List Order}
  {incentives : Decimal} {plan : Plan}

namespace Surroundings.Calm

theorem noFills (calm : w.Calm) : w.NoFills := by
  refine ⟨fun t id => ?_, fun span t id => ?_⟩
  · rw [calm.request]; exact List.not_mem_nil
  · rw [calm.pause]; exact List.not_mem_nil

theorem request_from (calm : w.Calm) (f : Floor τ) :
    (Floor.wait w.request).from f = (some (), { f with rest := (w.request f.rest).2 }) := by
  simp [Floor.wait, Floor.disturb, calm.request]

end Surroundings.Calm

namespace Exchange
variable {x : Exchange}

theorem fetch_healthy (healthy : x.Healthy) :
    ∃ y, Exchange.fetch x = (.ok x.visible, y) ∧ y.Healthy := by
  have works : ¬ 0 < x.failingFetches := by rw [healthy.fetches]; exact Nat.lt_irrefl 0
  exact ⟨_, if_neg works, healthy.fetches, healthy.submissions, healthy.rejections⟩

theorem Healthy.foldl_apply (healthy : x.Healthy) (ops : List Operation) :
    (ops.foldl apply x).Healthy := by
  induction ops generalizing x with
  | nil => exact healthy
  | cons op rest ih =>
    refine ih ?_
    cases op <;> exact ⟨healthy.fetches, healthy.submissions, healthy.rejections⟩

theorem submit_healthy {b : Batch} (healthy : x.Healthy)
    (sane : ∀ op ∈ b.toList, x.fault op = none) :
    ∃ receipt y, Exchange.submit b x = (.ok receipt, y) ∧ y.Healthy := by
  have clear : b.toList.findSome? x.fault = none := List.findSome?_eq_none_iff.mpr sane
  have checked := submit_working healthy.submissions healthy.rejections b
  rw [clear] at checked
  have after := healthy.foldl_apply b.toList
  exact ⟨_, _, checked, after.fetches, after.submissions, after.rejections⟩

end Exchange

theorem Maker.fetch_calm (m : Maker) (calm : w.Calm) (healthy : f.exchange.Healthy) :
    ∃ g, (m.fetch w.venue).from f = (some (.ok f.exchange.visible), g) ∧ g.exchange.Healthy := by
  obtain ⟨y, listed, still⟩ := Exchange.fetch_healthy healthy
  have answered : w.venue.fetch.from f =
      (some (.ok f.exchange.visible), ⟨y, f.exchange.visible, (w.request f.rest).2⟩) := by
    refine (from_bind_of_some (calm.request_from f)).trans ?_
    simp only [from_bind, Floor.ask, Floor.note, from_mk, from_pure, listed]
  exact ⟨_, m.fetchPolicy.run_of_ok answered, still⟩

theorem Maker.submit_calm (m : Maker) (calm : w.Calm) (healthy : f.exchange.Healthy) {b : Batch}
    (sane : ∀ op ∈ b.toList, f.exchange.fault op = none) :
    ∃ receipt g, (m.submit w.venue b).from f = (some (.ok receipt), g) ∧ g.exchange.Healthy := by
  obtain ⟨receipt, y, applied, still⟩ := Exchange.submit_healthy healthy sane
  have answered : (w.venue.submit b).from f =
      (some (.ok receipt), { f with exchange := y, rest := (w.request f.rest).2 }) := by
    refine (from_bind_of_some (calm.request_from f)).trans ?_
    simp only [Floor.ask, from_mk, applied]
  exact ⟨receipt, _, m.submitPolicy.runTransient_of_ok answered, still⟩

-- Cancels that do not mind a missing target are never at fault.
theorem Maker.fault_instructions {targets orders : List Order} {ids : List ClientId}
    (placeable : Placeable orders) (x : Exchange) :
    ∀ op ∈ m.instructions incentives targets (tagged ids orders), x.fault op = none := by
  intro op here
  simp only [instructions, List.mem_append, List.mem_map] at here
  rcases here with (⟨t, -, rfl⟩ | ⟨o, placed, rfl⟩) | upkept
  · rfl
  · obtain ⟨p, id, q, -, wanted, rfl⟩ := mem_tagged placed
    obtain ⟨price, quantity⟩ := placeable q (List.mem_of_getElem? wanted)
    have notFree : ¬ (q.withClientId id).price ≤ .zero :=
      fun low => Decimal.not_lt.mpr low price
    have notEmpty : ¬ (q.withClientId id).quantity ≤ .zero :=
      fun low => Decimal.not_lt.mpr low quantity
    simp only [Exchange.fault, notFree, notEmpty, if_false]
  · simp only [upkeep, List.mem_append] at upkept
    rcases upkept with (crank | settle) | redeem
    · split at crank
      · rw [List.mem_singleton.mp crank]; rfl
      · cases crank
    · split at settle
      · rw [List.mem_singleton.mp settle]; rfl
      · cases settle
    · split at redeem
      · rw [List.mem_singleton.mp redeem]; rfl
      · cases redeem

theorem Sound.tryPulse_calm (sound : Sound n 1 m f) (calm : w.Calm)
    (healthy : f.exchange.Healthy) (fits : Fits n desired) (placeable : Placeable desired)
    (planned : m.reconciler.plan (m.tracker.existing f.exchange.visible).1 desired = .ok plan)
    (enough : plan.toPlace.length ≤ m.draws.length) (incentives : Decimal) :
    let tried := m.tryPulse w.venue (.ok (.live desired)) incentives f
    (∃ receipt, tried.1 = .ok (.completed receipt)) ∧ tried.2.2.exchange.Healthy := by
  intro tried
  obtain ⟨g, fetched, aged⟩ := m.fetch_calm calm healthy
  obtain ⟨h, before, lists, -⟩ := sound.fetched w fetched
  have prepared := (sound.drifts before).prepare_eq lists fits.few incentives
  have places : Placeable plan.toPlace := fun o here =>
    placeable o ((Reconciler.plan_sublists planned).2.subset here)
  have sane : ∀ op ∈ (m.assemble incentives plan.toCancel
      (Maker.tagged m.draws plan.toPlace)).toList, g.exchange.fault op = none := by
    rw [Maker.toList_assemble]
    exact Maker.fault_instructions places g.exchange
  obtain ⟨receipt, after, submitted, still⟩ :=
    ((m.observe f.exchange.visible).issue plan.toPlace).submit_calm calm aged sane
  simp only [planned, enough, if_true] at prepared
  simp only [tried, Maker.tryPulse, fetched, prepared, submitted]
  split
  · exact ⟨⟨none, rfl⟩, aged⟩
  · exact ⟨⟨some receipt, rfl⟩, still⟩

end MarketMaking
