import MarketMaking.Proofs.Known
import MarketMaking.Proofs.Matching

/-! No resting order is lost sight of: the listings that missed an order and those that will still
miss it never exceed the lag. `Sound` is that invariant; every stage of a pulse and of a sweep keeps
it. -/

namespace MarketMaking
open Process

-- What holds between the steps of a maker that alone trades on a floor, with quotes of at most `n`
-- orders. `since` counts the quotes sent since the last listing.
structure Sound (n since : Nat) (m : Maker) (f : Floor τ) : Prop where
  lag_le : f.exchange.lag ≤ m.tracker.config.maxUnconfirmed.toNat
  room : n * (m.tracker.config.maxUnconfirmed.toNat + 1) ≤ m.tracker.config.maxTracked.toNat
  draws : m.draws.Nodup
  untracked : ∀ id ∈ m.draws, id ∉ m.tracker.ids
  unused : ∀ id ∈ m.draws, ∀ r ∈ f.exchange.resting, r.order.clientId ≠ some id
  ids : m.tracker.ids.Nodup
  entry : ∀ e ∈ m.tracker.entries, e.order.clientId = some e.id ∧ e.order.exchangeId = none
  young : ∀ e ∈ m.tracker.entries, e.missed ≤ m.tracker.config.maxUnconfirmed.toNat
  crowd : m.tracker.Crowd n since
  keyed : f.exchange.Keyed
  covered : ∀ r ∈ f.exchange.resting,
    (∃ e ∈ m.tracker.entries, e.order = r.order.asSent ∧
      e.missed + r.hidden ≤ f.exchange.lag) ∨ (r.hidden = 0 ∧ r.order ∈ f.listed)

structure Fits (n : Nat) (orders : List Order) : Prop where
  few : orders.length ≤ n
  plain : ∀ o ∈ orders, o.exchangeId = none

theorem Fits.sublist {chosen all : List Order} (fits : Fits n all) (part : chosen.Sublist all) :
    Fits n chosen :=
  ⟨Nat.le_trans part.length_le fits.few, fun o here => fits.plain o (part.subset here)⟩

variable {n since : Nat} {m m' : Maker} {f f' g h k : Floor τ}
  {existing desired listing : List Order} {w : Surroundings τ}
  {fade : Fade}

theorem Sound.known (sound : Sound n since m f) : Known m f.exchange :=
  ⟨sound.draws, sound.untracked, sound.unused, sound.ids, sound.entry, sound.keyed⟩

theorem Sound.drifts (sound : Sound n since m f) (drifts : f.Drifts fade g) :
    Sound n since m g := by
  have part := fade.thins drifts.resting
  have known := sound.known.sublist part drifts.issued
  refine ⟨drifts.lag ▸ sound.lag_le, sound.room, known.draws, known.untracked, known.unused,
    known.ids, known.entry, sound.young, sound.crowd, known.keyed, ?_⟩
  intro r here
  rw [drifts.lag, drifts.listed]
  exact sound.covered r (part.subset here)

theorem Merged.drifts (merged : Merged existing m f) (drifts : f.Drifts fade g) :
    Merged existing m g := by
  have part := fade.thins drifts.resting
  refine ⟨merged.clientIds, merged.clientId, ?_, ?_, merged.entries⟩
  · exact fun o here => (merged.aims o here).sublist part
  · exact fun r here => merged.shown r (part.subset here)

theorem Sound.published (sound : Sound n since m f) (log : EventLog) :
    Sound n since { m with log } f :=
  ⟨sound.lag_le, sound.room, sound.draws, sound.untracked, sound.unused, sound.ids, sound.entry,
    sound.young, sound.crowd, sound.keyed, sound.covered⟩

namespace Sound

theorem entry_survives (sound : Sound n since m h) (here : r ∈ h.exchange.resting)
    (hidden : r.hidden ≠ 0) :
    ∃ e ∈ (m.observe h.exchange.visible).tracker.entries, e.order = r.order.asSent ∧
      e.missed + (r.hidden - 1) ≤ h.exchange.lag := by
  rcases sound.covered r here with ⟨e, tracked, same, sum⟩ | ⟨shown, -⟩
  · have lag := sound.lag_le
    refine ⟨_, sound.known.entry_survives here hidden tracked same (by omega), same, ?_⟩
    simp only
    omega
  · exact absurd shown hidden

theorem observe (sound : Sound n 1 m h) (lists : h.Lists listing g) :
    Sound n 0 (m.observe listing) g := by
  have known := sound.known.observe lists.resting lists.issued listing
  refine ⟨lists.lag ▸ sound.lag_le, sound.room, known.draws, known.untracked, known.unused,
    known.ids, known.entry, ?_, Tracker.crowd_existing sound.crowd _, known.keyed, ?_⟩
  · intro e left
    obtain ⟨before, -, -, young, rfl⟩ := Tracker.mem_existing.mp left
    exact young
  · rw [lists.resting, lists.lag, lists.listed]
    obtain rfl := lists.visible
    intro r aged
    obtain ⟨s, here, rfl⟩ := List.mem_map.mp aged
    by_cases hidden : s.hidden = 0
    · exact .inr ⟨by simp [hidden], Exchange.mem_visible.mpr ⟨s, here, hidden, rfl⟩⟩
    · exact .inl (sound.entry_survives here hidden)

theorem merged (sound : Sound n 1 m h) (lists : h.Lists listing g) :
    Merged (m.tracker.existing listing).1 (m.observe listing) g :=
  sound.known.merged lists fun _ here hidden =>
    (sound.entry_survives here hidden).imp fun _ left => ⟨left.1, left.2.1⟩

theorem fetched (sound : Sound n 1 m f) (w : Surroundings τ)
    (fetched : (m.fetch w.venue).from f = (some (.ok listing), g)) :
    ∃ h, f.Drifts .thinning h ∧ h.Lists listing g ∧
      Merged (m.tracker.existing listing).1 (m.observe listing) g := by
  have ends := m.fetch_ends w.fades_thinning f
  rw [fetched] at ends
  obtain ⟨h, before, lists⟩ := ends
  exact ⟨h, before, lists, (sound.drifts before).merged lists⟩

-- Two listings apart, at most `n` entries arrive.
theorem issue (sound : Sound n 0 m f) {orders : List Order}
    (fits : Fits n orders) : Sound n 1 (m.issue orders) f := by
  have known := sound.known.issue fits.plain
  refine ⟨sound.lag_le, sound.room, known.draws, known.untracked, known.unused, known.ids,
    known.entry, ?_, ?_, known.keyed, ?_⟩
  · intro e tracked
    rcases List.mem_append.mp tracked with old | new
    · exact sound.young e old
    · obtain ⟨-, o, -, same⟩ := Tracker.mem_sent new
      rw [same]
      exact Nat.zero_le _
  · intro k
    have old : _ ≤ n * k := sound.crowd k
    have new := Nat.le_trans (Tracker.length_sent_le m.draws orders) fits.few
    have counted := List.countP_le_length (p := (·.missed ≤ k)) (l := Tracker.sent m.draws orders)
    simp only [Maker.issue, List.countP_append, Nat.mul_add, Nat.mul_one]
    omega
  · intro r here
    rcases sound.covered r here with ⟨e, tracked, law⟩ | listed
    · exact .inl ⟨e, List.mem_append_left _ tracked, law⟩
    · exact .inr listed

theorem cancelled (sound : Sound n since m f) {targets : List Order}
    (aims : ∀ t ∈ targets, t.Aims f.exchange.resting) :
    Sound n since ((targets.filterMap (·.clientId)).foldl Maker.untrack m)
      { f with exchange := targets.foldl Exchange.remove f.exchange } := by
  have resting := Exchange.resting_foldl_remove sound.keyed.clientIds aims
  have part : (targets.foldl Exchange.remove f.exchange).resting.Sublist f.exchange.resting :=
    resting ▸ List.filter_sublist
  have known := (sound.known.sublist part (by simp)).forget (targets.filterMap (·.clientId))
  rw [Maker.foldl_untrack] at known ⊢
  refine ⟨by simpa using sound.lag_le, sound.room, known.draws, known.untracked, known.unused,
    known.ids, known.entry, ?_, ?_, known.keyed, ?_⟩
  · exact fun e left => sound.young e (List.mem_of_mem_filter left)
  · exact fun k => Nat.le_trans (List.filter_sublist.countP_le) (sound.crowd k)
  · simp only [resting, Exchange.lag_foldl_remove]
    intro r here
    obtain ⟨here, spared⟩ := List.mem_filter.mp here
    rcases sound.covered r here with ⟨e, tracked, same, sum⟩ | listed
    · refine .inl ⟨e, List.mem_filter.mpr ⟨tracked, ?_⟩, same, sum⟩
      have own := sound.known.clientId_of_entry tracked same
      simpa [own, List.mem_filterMap, List.mem_map] using spared
    · exact .inr listed

theorem placed (sound : Sound n since m f) {orders : List Order}
    (tracked : ∀ o ∈ orders, ∃ e ∈ m.tracker.entries, e.order = o ∧ e.missed = 0)
    (distinct : (orders.map (·.clientId)).Nodup)
    (unused : ∀ o ∈ orders, ∀ r ∈ f.exchange.resting, r.order.clientId ≠ o.clientId) :
    Sound n since m { f with exchange := orders.foldl Exchange.rest f.exchange } := by
  have tagged : ∀ o ∈ orders, ∃ id, o.clientId = some id ∧ id ∉ m.draws := by
    intro o wanted
    obtain ⟨e, here, rfl, -⟩ := tracked o wanted
    exact ⟨e.id, (sound.entry e here).1,
      fun drawn => sound.untracked e.id drawn (List.mem_map_of_mem here)⟩
  have known := sound.known.placed tagged distinct unused
  refine ⟨by simpa using sound.lag_le, sound.room, known.draws, known.untracked, known.unused,
    known.ids, known.entry, sound.young, sound.crowd, known.keyed, ?_⟩
  simp only [Exchange.resting_foldl_rest, Exchange.lag_foldl_rest]
  intro r here
  rcases List.mem_append.mp here with old | late
  · exact sound.covered r old
  · obtain ⟨o, wanted, same⟩ := Exchange.sent_of_mem_newly late
    obtain ⟨e, here, rfl, fresh⟩ := tracked o wanted
    have sent := (Order.asSent_of_exchangeId (sound.entry e here).2).symm.trans same
    have hidden := Exchange.hidden_of_mem_newly late
    exact .inl ⟨e, here, sent, by omega⟩

theorem prepare_eq (sound : Sound n 1 m h) (lists : h.Lists listing g)
    (few : desired.length ≤ n) (incentives : Decimal) :
    m.prepare desired incentives listing =
      match m.reconciler.plan (m.tracker.existing listing).1 desired with
      | .error o => (.error (.halted (.overflow o)), m.observe listing)
      | .ok plan =>
        (if plan.toPlace.length ≤ m.draws.length then
            .ok ⟨m.assemble incentives plan.toCancel (Maker.tagged m.draws plan.toPlace),
              plan.toCancel.filterMap (·.clientId)⟩
          else .error (.halted .outOfDraws),
          (m.observe listing).issue plan.toPlace) := by
  have after := sound.observe lists
  have entries := Tracker.length_le_of_crowd after.crowd after.young
  have room := after.room
  have capacity : m.tracker.config.maxTracked.toNat ≤ m.tracker.capacity := Nat.le_max_left _ _
  simp only [Maker.observe, Tracker.config_existing, Nat.mul_add, Nat.mul_one] at entries room
  have fits : (m.observe listing).tracker.length ≤ m.tracker.capacity := by
    simp only [Maker.observe, Tracker.length]
    omega
  rw [Maker.prepare_eq sound.draws after.untracked fits]
  cases planned : m.reconciler.plan (m.tracker.existing listing).1 desired with
  | error o => rfl
  | ok plan =>
    have places := (Reconciler.plan_sublists planned).2.length_le
    have all : (m.observe listing).tracker.length + plan.toPlace.length ≤
        (m.observe listing).tracker.capacity := by
      simp only [Maker.observe, Tracker.length, Tracker.capacity, Tracker.config_existing] at *
      omega
    simp only [Maker.squeeze_eq_issue all]

theorem grown (sound : Sound n 0 m f) : Sound n 1 m f :=
  { sound with
    crowd := fun k => Nat.le_trans (sound.crowd k) (Nat.mul_le_mul_left n (Nat.le_succ k)) }

theorem prepared (sound : Sound n 1 m h) (lists : h.Lists listing g)
    (fits : Fits n desired) (incentives : Decimal) :
    Sound n 1 (m.prepare desired incentives listing).2 g := by
  have after := sound.observe lists
  rw [sound.prepare_eq lists fits.few]
  cases planned : m.reconciler.plan (m.tracker.existing listing).1 desired with
  | error o => exact after.grown
  | ok plan =>
    have places := (Reconciler.plan_sublists planned).2
    exact after.issue (fits.sublist places)

end Sound

end MarketMaking
