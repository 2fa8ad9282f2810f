import MarketMaking.Proofs.Cycle

/-! Whose ids are whose. No two orders on the book share an id, no two entries do, and an id that is
still to be drawn belongs to neither (`Known`). Every stage of a pulse keeps the ids apart. -/

namespace MarketMaking
open Process

structure Known (m : Maker) (x : Exchange) : Prop where
  draws : m.draws.Nodup
  untracked : ∀ id ∈ m.draws, id ∉ m.tracker.ids
  unused : ∀ id ∈ m.draws, ∀ r ∈ x.resting, r.order.clientId ≠ some id
  ids : m.tracker.ids.Nodup
  entry : ∀ e ∈ m.tracker.entries, e.order.clientId = some e.id ∧ e.order.exchangeId = none
  keyed : x.Keyed

-- The orders believed to be live once a listing is merged: every resting order and every entry is
-- among them, each under its client id, and a cancel of any of them means just the order with its
-- client id.
structure Merged (existing : List Order) (m : Maker) (f : Floor τ) : Prop where
  clientIds : (existing.map (·.clientId)).Nodup
  clientId : ∀ o ∈ existing, ∃ id, o.clientId = some id ∧ id ∉ m.draws
  aims : ∀ o ∈ existing, o.Aims f.exchange.resting
  shown : ∀ r ∈ f.exchange.resting, ∃ o ∈ existing, o.asSent = r.order.asSent
  entries : ∀ e ∈ m.tracker.entries, e.order ∈ existing

namespace Known
variable {m m' : Maker} {x y : Exchange} {h g : Floor τ} {listing orders : List Order}

theorem empty (entries : m.tracker.entries = []) (resting : x.resting = [])
    (draws : m.draws.Nodup) : Known m x := by
  refine ⟨draws, ?_, ?_, ?_, ?_, ?_, ?_, ?_, ?_⟩ <;> simp [Tracker.ids, entries, resting]

theorem sublist (known : Known m x) (part : y.resting.Sublist x.resting)
    (issued : y.issued = x.issued) : Known m y :=
  ⟨known.draws, known.untracked, fun id drawn r here => known.unused id drawn r (part.subset here),
    known.ids, known.entry, known.keyed.sublist part issued⟩

theorem fewer (known : Known m x) (part : m'.tracker.entries.Sublist m.tracker.entries)
    (draws : m'.draws = m.draws) : Known m' x :=
  ⟨draws ▸ known.draws,
    fun id drawn tracked => known.untracked id (draws ▸ drawn) ((part.map _).subset tracked),
    draws ▸ known.unused, known.ids.sublist (part.map _),
    fun e left => known.entry e (part.subset left), known.keyed⟩

theorem forget (known : Known m x) (ids : List ClientId) : Known (ids.foldl Maker.untrack m) x := by
  rw [Maker.foldl_untrack]
  exact known.fewer List.filter_sublist rfl

theorem observe (known : Known m x) (aged : y.resting = x.resting.map Resting.age)
    (issued : y.issued = x.issued) (listing : List Order) : Known (m.observe listing) y := by
  have older := Tracker.ids_existing_sublist m.tracker listing
  refine ⟨known.draws, ?_, ?_, known.ids.sublist older, ?_, known.keyed.age aged issued⟩
  · exact fun id drawn tracked => known.untracked id drawn (older.subset tracked)
  · rw [aged]
    intro id drawn r aged
    obtain ⟨s, here, rfl⟩ := List.mem_map.mp aged
    exact known.unused id drawn s here
  · intro e left
    obtain ⟨before, tracked, -, -, rfl⟩ := Tracker.mem_existing.mp left
    exact known.entry before tracked

theorem issue (known : Known m x) (plain : ∀ o ∈ orders, o.exchangeId = none) :
    Known (m.issue orders) x := by
  have split := List.take_append_drop orders.length m.draws
  have distinct := split ▸ known.draws
  have late : ∀ id ∈ m.draws.drop orders.length, id ∈ m.draws :=
    fun id drawn => List.mem_of_mem_drop drawn
  have ids : (m.issue orders).tracker.ids = m.tracker.ids ++ m.draws.take orders.length := by
    simp [Maker.issue, Tracker.ids, Tracker.ids_sent]
  refine ⟨known.draws.sublist (List.drop_sublist _ _), ?_, ?_, ?_, ?_, known.keyed⟩
  · rw [ids]
    intro id drawn tracked
    rcases List.mem_append.mp tracked with old | new
    · exact known.untracked id (late id drawn) old
    · exact (List.nodup_append.mp distinct).2.2 id new id drawn rfl
  · exact fun id drawn => known.unused id (late id drawn)
  · rw [ids, List.nodup_append]
    refine ⟨known.ids, known.draws.sublist (List.take_sublist _ _), ?_⟩
    rintro id old _ new rfl
    exact known.untracked id (List.mem_of_mem_take new) old
  · intro e tracked
    rcases List.mem_append.mp tracked with old | new
    · exact known.entry e old
    · obtain ⟨-, o, here, same⟩ := Tracker.mem_sent new
      rw [same]
      exact ⟨rfl, plain o here⟩

theorem placed (known : Known m x)
    (tagged : ∀ o ∈ orders, ∃ id, o.clientId = some id ∧ id ∉ m.draws)
    (distinct : (orders.map (·.clientId)).Nodup)
    (unused : ∀ o ∈ orders, ∀ r ∈ x.resting, r.order.clientId ≠ o.clientId) :
    Known m (orders.foldl Exchange.rest x) := by
  have keyed := Exchange.keyed_foldl_rest known.keyed
    (fun o here => (tagged o here).imp fun _ own => own.1) distinct unused
  refine ⟨known.draws, known.untracked, ?_, known.ids, known.entry, keyed⟩
  intro id drawn r here own
  rw [Exchange.resting_foldl_rest] at here
  rcases List.mem_append.mp here with old | late
  · exact known.unused id drawn r old own
  · obtain ⟨o, wanted, same⟩ := Exchange.sent_of_mem_newly late
    obtain ⟨other, owned, free⟩ := tagged o wanted
    cases (Order.clientId_of_asSent same).symm.trans owned |>.symm.trans own
    exact free drawn

theorem clientId_of_entry {r : Resting} (known : Known m x) (tracked : e ∈ m.tracker.entries)
    (same : e.order = r.order.asSent) : r.order.clientId = some e.id := by
  rw [← (known.entry e tracked).1, same, Order.clientId_asSent]

theorem listed_unique (known : Known m x) (listed : o ∈ x.visible) (here : r ∈ x.resting)
    (same : o.clientId = r.order.clientId) : r.hidden = 0 ∧ r.order = o := by
  obtain ⟨s, resting, shown, rfl⟩ := Exchange.mem_visible.mp listed
  cases known.keyed.eq_of_clientId resting here same
  exact ⟨shown, rfl⟩

theorem entry_survives (known : Known m x) (here : r ∈ x.resting) (hidden : r.hidden ≠ 0)
    (tracked : e ∈ m.tracker.entries) (same : e.order = r.order.asSent)
    (young : e.missed + 1 ≤ m.tracker.config.maxUnconfirmed.toNat) :
    { e with missed := e.missed + 1 } ∈ (m.observe x.visible).tracker.entries := by
  have missed : Tracker.lists x.visible e.id = false := by
    rw [Bool.eq_false_iff, ne_eq, Tracker.lists_eq_true]
    rintro ⟨o, listed, own⟩
    have ids := own.trans (known.clientId_of_entry tracked same).symm
    exact hidden (known.listed_unique listed here ids).1
  exact Tracker.mem_existing.mpr ⟨e, tracked, missed, young, rfl⟩

theorem existing_eq (known : Known m x) :
    (m.tracker.existing x.visible).1 = x.visible ++ (m.observe x.visible).tracker.orders := by
  have part : (x.resting.filter (·.hidden == 0)).Sublist x.resting := List.filter_sublist
  refine Tracker.existing_orders ?_ ?_ ?_ ?_
  · simpa [Exchange.visible, Function.comp_def] using known.keyed.clientIds.sublist (part.map _)
  · simpa [Exchange.visible, Function.comp_def] using known.keyed.exchangeIds.sublist (part.map _)
  · intro o listed
    obtain ⟨r, here, -, rfl⟩ := Exchange.mem_visible.mp listed
    exact known.keyed.clientId r here
  · intro o listed
    obtain ⟨r, here, -, rfl⟩ := Exchange.mem_visible.mp listed
    obtain ⟨k, -, own⟩ := known.keyed.exchangeId r here
    exact ⟨_, own⟩

theorem mem_existing (known : Known m x) :
    o ∈ (m.tracker.existing x.visible).1 ↔
      (∃ r ∈ x.resting, r.hidden = 0 ∧ r.order = o) ∨
        ∃ e ∈ (m.observe x.visible).tracker.entries, e.order = o := by
  rw [known.existing_eq, List.mem_append, Exchange.mem_visible]
  simp [Tracker.orders]

theorem nodup_existing (known : Known m x) :
    ((m.tracker.existing x.visible).1.map (·.clientId)).Nodup := by
  have after := known.observe (y := { x with resting := x.resting.map Resting.age }) rfl rfl
    x.visible
  have byId : (m.observe x.visible).tracker.orders.map (·.clientId) =
      (m.observe x.visible).tracker.ids.map some := by
    simp only [Tracker.orders, Tracker.ids, List.map_map]
    exact List.map_congr_left fun e left => (after.entry e left).1
  rw [known.existing_eq, List.map_append, List.nodup_append]
  refine ⟨?_, ?_, ?_⟩
  · have part : (x.resting.filter (·.hidden == 0)).Sublist x.resting := List.filter_sublist
    simpa [Exchange.visible, Function.comp_def] using known.keyed.clientIds.sublist (part.map _)
  · rw [byId]
    exact after.ids.map fun _ _ => Option.some.inj
  · rw [byId]
    intro a listed b tracked same
    obtain ⟨o, seen, rfl⟩ := List.mem_map.mp listed
    obtain ⟨id, own, rfl⟩ := List.mem_map.mp tracked
    obtain ⟨e, left, rfl⟩ := List.mem_map.mp own
    obtain ⟨before, -, missed, -, rfl⟩ := Tracker.mem_existing.mp left
    rw [Tracker.lists_eq_true.mpr ⟨o, seen, same⟩] at missed
    cases missed

theorem merged (known : Known m h.exchange) (lists : h.Lists listing g)
    (survives : ∀ r ∈ h.exchange.resting, r.hidden ≠ 0 →
      ∃ e ∈ (m.observe h.exchange.visible).tracker.entries, e.order = r.order.asSent) :
    Merged (m.tracker.existing listing).1 (m.observe listing) g := by
  have after := known.observe lists.resting lists.issued listing
  obtain rfl := lists.visible
  refine ⟨known.nodup_existing, ?_, ?_, ?_, ?_⟩
  · intro o believed
    rcases known.mem_existing.mp believed with ⟨r, here, -, rfl⟩ | ⟨e, left, rfl⟩
    · obtain ⟨id, own⟩ := known.keyed.clientId r here
      exact ⟨id, own, fun drawn => known.unused id drawn r here own⟩
    · refine ⟨e.id, (after.entry e left).1, fun drawn => ?_⟩
      exact after.untracked e.id drawn (List.mem_map_of_mem left)
  · intro o believed r aged
    obtain ⟨s, here, rfl⟩ := List.mem_map.mp (lists.resting ▸ aged)
    rcases known.mem_existing.mp believed with ⟨r, listed, -, rfl⟩ | ⟨e, left, rfl⟩
    · obtain ⟨k, -, own⟩ := known.keyed.exchangeId r listed
      simp only [Order.designates, own, Resting.order_age]
      rw [Bool.eq_iff_iff, beq_iff_eq, beq_iff_eq, ← own]
      constructor
      · intro same; rw [known.keyed.eq_of_exchangeId here listed same]
      · intro same; rw [known.keyed.eq_of_clientId here listed same]
    · simp [Order.designates, after.entry e left]
  · intro r aged
    obtain ⟨s, here, rfl⟩ := List.mem_map.mp (lists.resting ▸ aged)
    by_cases hidden : s.hidden = 0
    · exact ⟨s.order, known.mem_existing.mpr (.inl ⟨s, here, hidden, rfl⟩), rfl⟩
    · obtain ⟨e, left, same⟩ := survives s here hidden
      exact ⟨e.order, known.mem_existing.mpr (.inr ⟨e, left, rfl⟩), by rw [same]; rfl⟩
  · exact fun e left => known.mem_existing.mpr (.inr ⟨e, left, rfl⟩)

end Known
end MarketMaking
