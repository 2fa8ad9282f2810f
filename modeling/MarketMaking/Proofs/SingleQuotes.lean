import Mathlib.Data.List.Perm.Subperm
import MarketMaking.Proofs.Assignment
import MarketMaking.Proofs.Bookkeeping
import MarketMaking.Proofs.TwoSided

/-! One order a side. A maker that quotes at most one buy and one sell, undisturbed, keeps at most
one of each on the book, as long as its tracker holds on to every order that the next listing will
miss. -/

namespace MarketMaking
open Process Reconciliation

variable {m m' : Maker} {f f' g h k : Floor τ} {desired existing listing live orders : List Order}
  {plan : Plan} {w : Surroundings τ}

theorem length_sides_le {sides : List Side} (unique : sides.Nodup) : sides.length ≤ 2 := by
  have all : sides ⊆ [.buy, .sell] := fun side _ => by cases side <;> simp
  exact (List.subperm_of_subset unique all).length_le

theorem length_orders_le (sides : (orders.map (·.side)).Nodup) : orders.length ≤ 2 := by
  simpa using length_sides_le sides

theorem Reconciler.side_ne_of_kept {r : Reconciler} (sides : (desired.map (·.side)).Nodup)
    (planned : r.plan existing desired = .ok plan) (here : o ∈ existing)
    (spared : o.clientId ∉ plan.toCancel.map (·.clientId)) (placed : d ∈ plan.toPlace) :
    o.side ≠ d.side := by
  cases r with
  | replaceAll =>
    cases planned
    exact absurd (List.mem_map_of_mem here) spared
  | tolerance ratio =>
    obtain ⟨kept, keeps⟩ := plan_keeps planned
    intro same
    obtain ⟨i, atI⟩ := List.getElem?_of_mem here
    obtain ⟨c, standing, rfl⟩ := keeps.covered atI spared
    obtain ⟨e, d', atE, atD, close⟩ := keeps.pairs.close c standing
    cases atE.symm.trans atI
    rw [keeps.places] at placed
    obtain ⟨⟨d, j⟩, left, rfl⟩ := List.mem_map.mp placed
    obtain ⟨atJ, free⟩ := mem_vacant.mp left
    have sideC : (desired.map (·.side))[c.desired]? = some o.side := by
      simp [atD, side_of_equivalent close]
    have sideJ : (desired.map (·.side))[j]? = some o.side := by
      simpa [atJ] using same.symm
    exact free c standing (position_unique sides sideC sideJ)

-- What holds between undisturbed pulses: whatever is hidden is tracked, and whatever is tracked is
-- on the book.
structure Single (m : Maker) (f : Floor τ) : Prop where
  known : Known m f.exchange
  sides : (f.exchange.resting.map (·.order.side)).Nodup
  outlives : f.exchange.lag < m.tracker.config.maxUnconfirmed.toNat
  room : min (f.exchange.lag + 1) 3 ≤ m.tracker.capacity
  fits : m.tracker.length ≤ m.tracker.capacity
  backed : ∀ e ∈ m.tracker.entries, ∃ r ∈ f.exchange.resting, r.order.asSent = e.order
  covered : ∀ r ∈ f.exchange.resting, r.hidden ≠ 0 → ∃ e ∈ m.tracker.entries,
    e.order = r.order.asSent ∧ e.missed + r.hidden ≤ f.exchange.lag

namespace Single

theorem empty (entries : m.tracker.entries = []) (resting : f.exchange.resting = [])
    (draws : m.draws.Nodup) (outlives : f.exchange.lag < m.tracker.config.maxUnconfirmed.toNat)
    (room : min (f.exchange.lag + 1) 3 ≤ m.tracker.capacity) : Single m f := by
  refine ⟨.empty entries resting draws, ?_, outlives, room, ?_, ?_, ?_⟩ <;>
    simp [Tracker.length, entries, resting]

theorem drifts (single : Single m f) (drifts : f.Drifts .still g) : Single m g := by
  have resting : f.exchange.resting = g.exchange.resting := drifts.resting
  exact ⟨single.known.sublist (resting ▸ List.Sublist.refl _) drifts.issued,
    resting ▸ single.sides, drifts.lag ▸ single.outlives, drifts.lag ▸ single.room, single.fits,
    resting ▸ single.backed, resting ▸ drifts.lag ▸ single.covered⟩

theorem entry_survives (single : Single m h) (here : r ∈ h.exchange.resting)
    (hidden : r.hidden ≠ 0) :
    ∃ e ∈ (m.observe h.exchange.visible).tracker.entries, e.order = r.order.asSent ∧
      e.missed + (r.hidden - 1) ≤ h.exchange.lag := by
  obtain ⟨e, tracked, same, sum⟩ := single.covered r here hidden
  have outlives := single.outlives
  refine ⟨_, single.known.entry_survives here hidden tracked same (by omega), same, ?_⟩
  simp only
  omega

theorem observe (single : Single m h) (lists : h.Lists listing g) :
    Single (m.observe listing) g := by
  have known := single.known.observe lists.resting lists.issued listing
  have fewer := (m.tracker.ids_existing_sublist listing).length_le
  simp only [Tracker.ids, List.length_map] at fewer
  refine ⟨known, ?_, lists.lag ▸ single.outlives, lists.lag ▸ single.room,
    Nat.le_trans fewer single.fits, ?_, ?_⟩
  · simpa [lists.resting, Function.comp_def] using single.sides
  · intro e left
    obtain ⟨before, tracked, -, -, rfl⟩ := Tracker.mem_existing.mp left
    obtain ⟨r, here, same⟩ := single.backed before tracked
    exact ⟨r.age, lists.resting ▸ List.mem_map_of_mem here, same⟩
  · obtain rfl := lists.visible
    rw [lists.resting, lists.lag]
    intro r aged hidden
    obtain ⟨s, here, rfl⟩ := List.mem_map.mp aged
    refine single.entry_survives here fun none => hidden ?_
    simp [none]

theorem published (single : Single m f) (log : EventLog) : Single { m with log } f :=
  ⟨single.known.fewer (List.Sublist.refl _) rfl, single.sides, single.outlives, single.room,
    single.fits, single.backed, single.covered⟩

theorem aged (single : Single m h) (lists : h.Lists listing g) :
    ∀ r ∈ g.exchange.resting, r.hidden + 1 ≤ g.exchange.lag ∨ r.hidden = 0 := by
  rw [lists.resting, lists.lag]
  intro r older
  obtain ⟨s, here, rfl⟩ := List.mem_map.mp older
  by_cases hidden : s.hidden = 0
  · exact .inr (by simp [hidden])
  · obtain ⟨e, -, -, sum⟩ := single.covered s here hidden
    exact .inl (by simp only [Resting.hidden_age]; omega)

theorem merged (single : Single m h) (lists : h.Lists listing g) :
    Merged (m.tracker.existing listing).1 (m.observe listing) g :=
  single.known.merged lists fun _ here hidden =>
    (single.entry_survives here hidden).imp fun _ left => ⟨left.1, left.2.1⟩

theorem believed (single : Single m h) (lists : h.Lists listing g) :
    ∀ o ∈ (m.tracker.existing listing).1, ∃ r ∈ g.exchange.orders, r.asSent = o.asSent := by
  have after := single.observe lists
  obtain rfl := lists.visible
  intro o here
  rcases single.known.mem_existing.mp here with ⟨r, resting, -, rfl⟩ | ⟨e, left, rfl⟩
  · exact ⟨r.order, List.mem_map.mpr ⟨r.age, lists.resting ▸ List.mem_map_of_mem resting, rfl⟩, rfl⟩
  · obtain ⟨r, resting, same⟩ := after.backed e left
    refine ⟨r.order, List.mem_map_of_mem resting, same.trans ?_⟩
    exact (Order.asSent_of_exchangeId (after.known.entry e left).2).symm

theorem length_entries_le (single : Single m f) : m.tracker.length ≤ 2 := by
  have clientIds : (m.tracker.orders.map (·.clientId)).Nodup := by
    rw [Tracker.clientIds_orders fun e here => (single.known.entry e here).1]
    exact single.known.ids.map fun _ _ => Option.some.inj
  have backed : ∀ o ∈ m.tracker.orders, ∃ r ∈ f.exchange.orders, r.asSent = o.asSent := by
    intro o here
    obtain ⟨e, tracked, rfl⟩ := List.mem_map.mp here
    obtain ⟨r, resting, same⟩ := single.backed e tracked
    refine ⟨r.order, List.mem_map_of_mem resting, same.trans ?_⟩
    exact (Order.asSent_of_exchangeId (single.known.entry e tracked).2).symm
  have sides : (f.exchange.orders.map (·.side)).Nodup := by
    simpa [Exchange.orders, Function.comp_def] using single.sides
  simpa [Tracker.orders, Tracker.length] using
    length_orders_le (nodup_sides_of_backed clientIds sides backed)

end Single

-- What a pulse makes of maker and book that went through undisturbed: `existing` is the view that
-- was merged, `m` the maker after that, and `f` the floor when the batch arrived.
structure Placed (m : Maker) (f : Floor τ) (existing desired : List Order) (plan : Plan)
    (m' : Maker) (f' : Floor τ) : Prop where
  merged : Merged existing m f
  believed : ∀ o ∈ existing, ∃ r ∈ f.exchange.orders, r.asSent = o.asSent
  planned : m.reconciler.plan existing desired = .ok plan
  sides : (desired.map (·.side)).Nodup
  plain : ∀ o ∈ desired, o.exchangeId = none
  maker : m' = (plan.toCancel.filterMap (·.clientId)).foldl Maker.untrack (m.squeeze plan.toPlace)
  book : ((Maker.tagged m.draws plan.toPlace).foldl Exchange.rest
    (plan.toCancel.foldl Exchange.remove f.exchange)).Unchanged f'.exchange

namespace Placed

theorem aims (placed : Placed m f existing desired plan m' f') :
    ∀ t ∈ plan.toCancel, t.Aims f.exchange.resting := fun t here =>
  placed.merged.aims t ((Reconciler.plan_sublists placed.planned).1.subset here)

theorem resting (placed : Placed m f existing desired plan m' f') (single : Single m f) :
    f'.exchange.resting =
      f.exchange.resting.filter
          (fun r => decide (r.order.clientId ∉ plan.toCancel.map (·.clientId))) ++
        Exchange.newly f.exchange.lag f.exchange.issued (Maker.tagged m.draws plan.toPlace) :=
  Exchange.resting_replaced single.known.keyed.clientIds placed.aims placed.book

theorem lag (placed : Placed m f existing desired plan m' f') :
    f'.exchange.lag = f.exchange.lag := by
  rw [placed.book.1, Exchange.lag_foldl_rest, Exchange.lag_foldl_remove]

theorem mem_entries (placed : Placed m f existing desired plan m' f') :
    e ∈ m'.tracker.entries ↔ e ∈ (m.squeeze plan.toPlace).tracker.entries ∧
      some e.id ∉ plan.toCancel.map (·.clientId) := by
  rw [placed.maker, Maker.foldl_untrack, List.mem_filter]
  simp

theorem few (placed : Placed m f existing desired plan m' f') : plan.toPlace.length ≤ 2 :=
  length_orders_le (placed.sides.sublist ((Reconciler.plan_sublists placed.planned).2.map _))

theorem side_ne (placed : Placed m f existing desired plan m' f') (here : r ∈ f.exchange.resting)
    (spared : r.order.clientId ∉ plan.toCancel.map (·.clientId)) :
    ∀ d ∈ plan.toPlace, r.order.side ≠ d.side := by
  intro d wanted
  obtain ⟨o, known, same⟩ := placed.merged.shown r here
  rw [← r.order.side_asSent, ← same, o.side_asSent]
  refine Reconciler.side_ne_of_kept placed.sides placed.planned known ?_ wanted
  rwa [Order.clientId_of_asSent same]

theorem one_beside (placed : Placed m f existing desired plan m' f')
    (here : r ∈ f.exchange.resting)
    (spared : r.order.clientId ∉ plan.toCancel.map (·.clientId)) : plan.toPlace.length ≤ 1 := by
  have places := placed.sides.sublist ((Reconciler.plan_sublists placed.planned).2.map _)
  have both : (r.order.side :: plan.toPlace.map (·.side)).Nodup := by
    refine List.nodup_cons.mpr ⟨fun taken => ?_, places⟩
    obtain ⟨d, wanted, same⟩ := List.mem_map.mp taken
    exact placed.side_ne here spared d wanted same.symm
  simpa using length_sides_le both

theorem entry_stays (placed : Placed m f existing desired plan m' f') (single : Single m f)
    (here : r ∈ f.exchange.resting)
    (spared : r.order.clientId ∉ plan.toCancel.map (·.clientId)) (late : 2 ≤ f.exchange.lag)
    (tracked : e ∈ m.tracker.entries) (same : e.order = r.order.asSent) :
    e ∈ m'.tracker.entries := by
  have beside := placed.one_beside here spared
  have entries := single.length_entries_le
  have room := single.room
  have own := single.known.clientId_of_entry tracked same
  refine placed.mem_entries.mpr ⟨?_, own ▸ spared⟩
  rw [Maker.squeeze_eq_issue (by omega)]
  exact List.mem_append_left _ tracked

theorem new_entry (placed : Placed m f existing desired plan m' f') (single : Single m f)
    (late : 1 ≤ f.exchange.lag) (new : e ∈ Tracker.sent m.draws plan.toPlace) :
    e ∈ m'.tracker.entries := by
  have few := placed.few
  have sent := Tracker.length_sent_le m.draws plan.toPlace
  have room := single.room
  refine placed.mem_entries.mpr ⟨Tracker.mem_squeeze_of_new (by omega) new, fun cancelled => ?_⟩
  obtain ⟨o, here, own⟩ := List.mem_map.mp cancelled
  obtain ⟨id, owned, notDrawn⟩ :=
    placed.merged.clientId o ((Reconciler.plan_sublists placed.planned).1.subset here)
  cases own.symm.trans owned
  exact notDrawn (Tracker.mem_sent new).1

theorem removed_sublist (placed : Placed m f existing desired plan m' f') (single : Single m f) :
    (plan.toCancel.foldl Exchange.remove f.exchange).resting.Sublist f.exchange.resting := by
  rw [Exchange.resting_foldl_remove single.known.keyed.clientIds placed.aims]
  exact List.filter_sublist

theorem known (placed : Placed m f existing desired plan m' f') (single : Single m f) :
    Known m' f'.exchange := by
  have part := (Reconciler.plan_sublists placed.planned).2
  have gone := placed.removed_sublist single
  have issued : Known (m.squeeze plan.toPlace) f.exchange :=
    (single.known.issue fun o here => placed.plain o (part.subset here)).fewer
      (m.tracker.squeeze_sublist _) rfl
  have cleared := (issued.forget (plan.toCancel.filterMap (·.clientId))).sublist gone (by simp)
  rw [← placed.maker] at cleared
  have draws : m'.draws = m.draws.drop plan.toPlace.length := by
    rw [placed.maker, Maker.foldl_untrack]
    rfl
  have tagged : ∀ o ∈ Maker.tagged m.draws plan.toPlace,
      ∃ id ∈ m.draws, o.clientId = some id ∧ id ∉ m'.draws := fun o here =>
    draws ▸ Maker.drawn_of_mem_tagged single.known.draws here
  have rested := cleared.placed (fun o here => (tagged o here).imp fun _ own => own.2)
    (Maker.nodup_tagged single.known.draws plan.toPlace) fun o here r rests own => by
      obtain ⟨id, drawn, owned, -⟩ := tagged o here
      exact single.known.unused id drawn r (gone.subset rests) (own.trans owned)
  exact rested.sublist (placed.book.2.2 ▸ List.Sublist.refl _) placed.book.2.1

theorem sides_nodup (placed : Placed m f existing desired plan m' f') (single : Single m f) :
    (f'.exchange.resting.map (·.order.side)).Nodup := by
  have part := (Reconciler.plan_sublists placed.planned).2
  have new : ((Exchange.newly f.exchange.lag f.exchange.issued
      (Maker.tagged m.draws plan.toPlace)).map (·.order.side)).Sublist
        (plan.toPlace.map (·.side)) := by
    have sent := congrArg (List.map Order.side) (Exchange.map_asSent_newly f.exchange.lag
      f.exchange.issued (Maker.tagged m.draws plan.toPlace))
    simp only [List.map_map, Function.comp_def, Order.side_asSent] at sent
    exact sent ▸ Maker.sides_tagged m.draws plan.toPlace
  rw [placed.resting single, List.map_append, List.nodup_append]
  refine ⟨single.sides.sublist (List.filter_sublist.map _),
    (placed.sides.sublist (part.map _)).sublist new, ?_⟩
  intro a kept b added same
  obtain ⟨r, here, rfl⟩ := List.mem_map.mp kept
  obtain ⟨here, spared⟩ := List.mem_filter.mp here
  obtain ⟨d, wanted, side⟩ := List.mem_map.mp (new.subset added)
  exact placed.side_ne here (by simpa using spared) d wanted (same.trans side.symm)

theorem backed (placed : Placed m f existing desired plan m' f') (single : Single m f) :
    ∀ e ∈ m'.tracker.entries, ∃ r ∈ f'.exchange.resting, r.order.asSent = e.order := by
  intro e left
  obtain ⟨inside, spared⟩ := placed.mem_entries.mp left
  rw [placed.resting single]
  rcases List.mem_append.mp ((m.tracker.squeeze_sublist _).subset inside) with old | new
  · obtain ⟨r, here, same⟩ := single.backed e old
    have own := single.known.clientId_of_entry old same.symm
    have kept : r.order.clientId ∉ plan.toCancel.map (·.clientId) := own ▸ spared
    exact ⟨r, List.mem_append_left _ (List.mem_filter.mpr ⟨here, decide_eq_true kept⟩), same⟩
  · have sent : e.order ∈ Maker.tagged m.draws plan.toPlace :=
      Maker.tagged_eq _ _ ▸ List.mem_map_of_mem new
    obtain ⟨r, rests, same⟩ :=
      Exchange.exists_newly_of_mem sent f.exchange.lag f.exchange.issued
    obtain ⟨-, o, wanted, own⟩ := Tracker.mem_sent new
    have plain : e.order.exchangeId = none := by
      rw [own]
      exact placed.plain o ((Reconciler.plan_sublists placed.planned).2.subset wanted)
    exact ⟨r, List.mem_append_right _ rests, same.trans (Order.asSent_of_exchangeId plain)⟩

theorem covered (placed : Placed m f existing desired plan m' f') (single : Single m f)
    (aged : ∀ r ∈ f.exchange.resting, r.hidden + 1 ≤ f.exchange.lag ∨ r.hidden = 0) :
    ∀ r ∈ f'.exchange.resting, r.hidden ≠ 0 → ∃ e ∈ m'.tracker.entries,
      e.order = r.order.asSent ∧ e.missed + r.hidden ≤ f'.exchange.lag := by
  rw [placed.resting single, placed.lag]
  intro r here hidden
  rcases List.mem_append.mp here with kept | new
  · obtain ⟨here, spared⟩ := List.mem_filter.mp kept
    obtain ⟨e, tracked, same, sum⟩ := single.covered r here hidden
    have late : 2 ≤ f.exchange.lag := by
      have := aged r here
      omega
    exact ⟨e, placed.entry_stays single here (by simpa using spared) late tracked same, same, sum⟩
  · have fresh := Exchange.hidden_of_mem_newly new
    obtain ⟨o, tagged, same⟩ := Exchange.sent_of_mem_newly new
    obtain ⟨e, sent, rfl, unmissed, -, -⟩ := Maker.sent_of_mem_tagged tagged
    obtain ⟨-, q, wanted, own⟩ := Tracker.mem_sent sent
    have plain : e.order.exchangeId = none := by
      rw [own]
      exact placed.plain q ((Reconciler.plan_sublists placed.planned).2.subset wanted)
    refine ⟨e, placed.new_entry single (by omega) sent, ?_, by omega⟩
    exact (Order.asSent_of_exchangeId plain).symm.trans same

theorem single (placed : Placed m f existing desired plan m' f') (single : Single m f)
    (aged : ∀ r ∈ f.exchange.resting, r.hidden + 1 ≤ f.exchange.lag ∨ r.hidden = 0) :
    Single m' f' := by
  have config : m'.tracker.config = m.tracker.config := by
    rw [placed.maker, Maker.foldl_untrack]
    rfl
  refine ⟨placed.known single, placed.sides_nodup single, ?_, ?_, ?_, placed.backed single,
    placed.covered single aged⟩
  · rw [placed.lag, config]
    exact single.outlives
  · rw [placed.lag, Tracker.capacity, config]
    exact single.room
  · have most := m.tracker.length_squeeze_le (Tracker.sent m.draws plan.toPlace)
    rw [Tracker.capacity, config, placed.maker, Maker.foldl_untrack]
    exact Nat.le_trans (List.length_filter_le _ _) most

end Placed

structure Leaves (halted : Prop) (m : Maker) (f : Floor τ) : Prop where
  sides : (f.exchange.resting.map (·.order.side)).Nodup
  next : halted ∨ Single m f ∧ f.exchange.Healthy

namespace Single

theorem submitted (single : Single m h) (calm : w.Calm) (healthy : g.exchange.Healthy)
    (lists : h.Lists listing g) (quoted : (Quote.live desired).TwoSided)
    (placeable : Placeable desired)
    (planned : m.reconciler.plan (m.tracker.existing listing).1 desired = .ok plan)
    (incentives : Decimal) :
    let batch := m.assemble incentives plan.toCancel (Maker.tagged m.draws plan.toPlace)
    let sent := (m.observe listing).squeeze plan.toPlace
    ∃ receipt after, (sent.submit w.venue batch).from g = (some (.ok receipt), after) ∧
      after.exchange.Healthy ∧
      Single ((plan.toCancel.filterMap (·.clientId)).foldl Maker.untrack sent) after := by
  intro batch sent
  have places : Placeable plan.toPlace := fun o here =>
    placeable o ((Reconciler.plan_sublists planned).2.subset here)
  have sane : ∀ op ∈ batch.toList, g.exchange.fault op = none := by
    rw [Maker.toList_assemble]
    exact Maker.fault_instructions places g.exchange
  obtain ⟨receipt, after, through, still⟩ := sent.submit_calm calm healthy sane
  have ends := sent.submit_ends calm.noFills.fades batch g
  rw [through] at ends
  obtain ⟨k, meanwhile, applies⟩ := ends
  obtain ⟨count, exchange⟩ := applies.exchange
  rw [Maker.toList_assemble, Maker.foldl_apply_instructions] at exchange
  refine ⟨receipt, after, through, still, ?_⟩
  have placed : Placed (m.observe listing) k (m.tracker.existing listing).1 desired plan
      ((plan.toCancel.filterMap (·.clientId)).foldl Maker.untrack sent) after := {
    merged := (single.merged lists).drifts meanwhile
    believed := meanwhile.orders ▸ single.believed lists
    planned
    sides := quoted.sides.nodup (by decide)
    plain := quoted.plain
    maker := rfl
    book := exchange ▸ ⟨rfl, rfl, rfl⟩ }
  have aged := single.aged lists
  rw [← meanwhile.lag, show g.exchange.resting = k.exchange.resting from meanwhile.resting] at aged
  exact placed.single ((single.observe lists).drifts meanwhile) aged

theorem tryLive (single : Single m f) (calm : w.Calm) (healthy : f.exchange.Healthy)
    (quoted : (Quote.live desired).TwoSided) (placeable : Placeable desired)
    (incentives : Decimal) :
    let tried := m.tryPulse w.venue (.ok (.live desired)) incentives f
    Leaves (∃ halt, tried.1 = .error (.halted halt)) tried.2.1 tried.2.2 := by
  obtain ⟨g, fetched, well⟩ := m.fetch_calm calm healthy
  have ends := m.fetch_ends calm.noFills.fades f
  rw [fetched] at ends
  obtain ⟨h, before, lists⟩ := ends
  have drifted := single.drifts before
  have observed := drifted.observe lists
  have prepared : m.prepare desired incentives f.exchange.visible = _ :=
    Maker.prepare_eq single.known.draws observed.known.untracked observed.fits incentives
  simp only [Maker.tryPulse, fetched, prepared]
  cases planned : m.reconciler.plan (m.tracker.existing f.exchange.visible).1 desired with
  | error o => exact ⟨observed.sides, .inl ⟨_, rfl⟩⟩
  | ok plan =>
    by_cases enough : plan.toPlace.length ≤ m.draws.length
    · simp only [enough, if_true]
      split
      · rename_i empty
        obtain ⟨-, noPlaces⟩ := Maker.assemble_isEmpty incentives enough empty
        rw [noPlaces, Maker.squeeze_nil observed.fits]
        exact ⟨observed.sides, .inr ⟨observed, well⟩⟩
      · obtain ⟨receipt, after, through, still, next⟩ :=
          drifted.submitted calm well lists quoted placeable planned incentives
        simp only [through]
        exact ⟨next.sides, .inr ⟨next, still⟩⟩
    · simp only [enough, if_false]
      exact ⟨observed.sides, .inl ⟨_, rfl⟩⟩

theorem pulse (single : Single m f) (calm : w.Calm) (healthy : f.exchange.Healthy)
    {quote : Except ProducerError Quote}
    (quoted : ∀ q, quote = .ok q → q.TwoSided ∧ Placeable q.orders) (incentives : Decimal) :
    let pulsed := m.pulse w.venue quote incentives f
    Leaves (∃ halt, pulsed.1 = .error halt) pulsed.2.1 pulsed.2.2 := by
  intro pulsed
  obtain ⟨⟨log, maker⟩, floor⟩ := m.pulse_published w.venue quote incentives f
  have tried : Leaves (∃ halt, (m.tryPulse w.venue quote incentives f).1 = .error (.halted halt))
      (m.tryPulse w.venue quote incentives f).2.1 (m.tryPulse w.venue quote incentives f).2.2 := by
    rcases quote with e | ⟨desired⟩ | _
    · exact ⟨single.sides, .inr ⟨single, healthy⟩⟩
    · obtain ⟨twoSided, placeable⟩ := quoted _ rfl
      exact single.tryLive calm healthy twoSided placeable incentives
    · exact ⟨single.sides, .inr ⟨single, healthy⟩⟩
  rw [maker, floor]
  refine ⟨tried.sides, tried.next.imp ?_ fun next => ⟨next.1.published log, next.2⟩⟩
  rintro ⟨halt, stopped⟩
  exact ⟨halt, Maker.pulse_of_halted stopped⟩

end Single
end MarketMaking
