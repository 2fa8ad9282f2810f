import Mathlib
import MarketMaking.Proofs.Desk
import MarketMaking.Proofs.Numbering

/-! What a sweep leaves of the orders it was shown, whoever placed them. In the merged listing an
order that repeats the client id of one before it is taken for that one, and may stay. -/

namespace MarketMaking
open Process

variable {w : Surroundings τ} {m : Maker} {f : Floor τ} {listing : List Order} {o : Order}

def Repeats (listing : List Order) (o : Order) : Prop :=
  ∃ before after, listing = before ++ o :: after ∧
    ∃ p ∈ before, ∃ id, p.clientId = some id ∧ o.clientId = some id

namespace Tracker

def Unseen (o : Order) (clientIds : List ClientId) (exchangeIds : List String) : Prop :=
  (∀ id ∈ clientIds, o.clientId ≠ some id) ∧ ∀ id ∈ exchangeIds, o.exchangeId ≠ some id

theorem mem_byExchangeId {clientIds : List ClientId} {exchangeIds : List String}
    (unseen : ∀ id ∈ exchangeIds, o.exchangeId ≠ some id) (after : List Order) :
    o ∈ distinct.byExchangeId exchangeIds clientIds o after := by
  unfold distinct.byExchangeId
  cases named : o.exchangeId with
  | none => exact List.mem_cons_self
  | some name =>
    have new : name ∉ exchangeIds := fun seen => unseen name seen named
    simp [new]

theorem mem_distinct {clientIds : List ClientId} {exchangeIds : List String}
    {before after : List Order} (unseen : Unseen o clientIds exchangeIds)
    (client : ∀ p ∈ before, ∀ id, p.clientId = some id → o.clientId ≠ some id)
    (exchange : ∀ p ∈ before, ∀ id, p.exchangeId = some id → o.exchangeId ≠ some id) :
    o ∈ distinct clientIds exchangeIds (before ++ o :: after) := by
  induction before generalizing clientIds exchangeIds with
  | nil =>
    rw [List.nil_append, distinct]
    cases own : o.clientId with
    | none => exact mem_byExchangeId unseen.2 after
    | some id =>
      have new : id ∉ clientIds := fun seen => unseen.1 id seen own
      simpa [new] using mem_byExchangeId unseen.2 after
  | cons p rest ih =>
    have later : ∀ clientIds exchangeIds, Unseen o clientIds exchangeIds →
        o ∈ distinct clientIds exchangeIds (rest ++ o :: after) := fun _ _ unseen =>
      ih unseen (fun q here => client q (List.mem_cons_of_mem p here))
        fun q here => exchange q (List.mem_cons_of_mem p here)
    -- whether the order before it is kept or not, only ids of that order are new
    have passed : ∀ clientIds, Unseen o clientIds exchangeIds →
        o ∈ distinct.byExchangeId exchangeIds clientIds p (rest ++ o :: after) := by
      intro clientIds unseen
      unfold distinct.byExchangeId
      cases named : p.exchangeId with
      | none => exact List.mem_cons_of_mem p (later _ _ unseen)
      | some name =>
        have wider : Unseen o clientIds (name :: exchangeIds) :=
          ⟨unseen.1, List.forall_mem_cons.mpr ⟨exchange p List.mem_cons_self name named, unseen.2⟩⟩
        simp only
        split
        · exact later _ _ unseen
        · exact List.mem_cons_of_mem p (later _ _ wider)
    rw [List.cons_append, distinct]
    cases own : p.clientId with
    | none => exact passed _ unseen
    | some id =>
      have wider : Unseen o (id :: clientIds) exchangeIds :=
        ⟨List.forall_mem_cons.mpr ⟨client p List.mem_cons_self id own, unseen.1⟩, unseen.2⟩
      simp only
      split
      · exact later _ _ unseen
      · exact passed _ wider

end Tracker

theorem Exchange.exchangeId_remove {x : Exchange} {target : Order} {name : String}
    (unique : (x.resting.map (·.order.exchangeId)).Nodup) (named : target.exchangeId = some name) :
    ∀ r ∈ (x.remove target).resting, r.order.exchangeId ≠ some name := by
  have aims : (target.designates ·.order) = fun r : Resting => r.order.exchangeId == some name := by
    simp [Order.designates, named]
  simp only [remove, aims]
  revert unique
  generalize x.resting = book
  intro unique
  induction book with
  | nil => simp
  | cons r rest ih =>
    obtain ⟨absent, unique⟩ := List.nodup_cons.mp unique
    by_cases hit : r.order.exchangeId = some name
    · rw [List.eraseP_cons_of_pos (by simpa using hit)]
      intro s here same
      exact absent (List.mem_map.mpr ⟨s, here, same.trans hit.symm⟩)
    · rw [List.eraseP_cons_of_neg (by simpa using hit)]
      exact List.forall_mem_cons.mpr ⟨hit, ih unique⟩

theorem Maker.cancelEach_clears (w : Surroundings τ) {targets : List Order}
    (unique : (f.exchange.resting.map (·.order.exchangeId)).Nodup)
    (through : (m.cancelEach w.venue f targets).1 = .ok ()) :
    let g := (m.cancelEach w.venue f targets).2.2
    g.exchange.resting.Sublist f.exchange.resting ∧
      ∀ t ∈ targets, ∀ name, t.exchangeId = some name →
        ∀ r ∈ g.exchange.resting, r.order.exchangeId ≠ some name := by
  induction targets generalizing m f with
  | nil => exact ⟨List.Sublist.refl _, by simp⟩
  | cons t rest ih =>
    have ends := m.cancel_ends w.fades_thinning t f
    unfold Maker.cancelEach at through ⊢
    revert ends through
    rcases (m.cancel w.venue t).from f with ⟨_ | e | _, g⟩
    · intro _ stopped
      cases stopped
    · exact False.elim
    · rintro ⟨h, before, removed, -⟩ through
      have part : g.exchange.resting.Sublist h.exchange.resting :=
        removed ▸ List.eraseP_sublist
      have whole := part.trans before.resting
      have still : (h.exchange.resting.map (·.order.exchangeId)).Nodup :=
        unique.sublist (before.resting.map _)
      obtain ⟨left, cleared⟩ := ih (unique.sublist (whole.map _)) through
      refine ⟨left.trans whole, List.forall_mem_cons.mpr ⟨fun name named r here => ?_, cleared⟩⟩
      refine Exchange.exchangeId_remove still named r ?_
      rw [← removed]
      exact left.subset here

def Maker.SweepsListed (w : Surroundings τ) (m : Maker) (f : Floor τ)
    (spared : List Order → Order → Prop) : Prop :=
  ∃ listing g, (m.fetch w.venue).from f = (some (.ok listing), g) ∧
    ∀ r ∈ (m.cancelAll w.venue f).2.2.exchange.resting, r.order ∈ listing → spared listing r.order

theorem Exchange.visible_unique {x : Exchange}
    (unique : (x.resting.map (·.order.exchangeId)).Nodup) :
    (x.visible.map (·.exchangeId)).Nodup := by
  rw [visible, List.map_map]
  exact unique.sublist (List.filter_sublist.map _)

theorem Tracker.mem_existing_of_listed {t : Tracker}
    (unique : (listing.map (·.exchangeId)).Nodup) (listed : o ∈ listing)
    (first : ¬ Repeats listing o) : o ∈ (t.existing listing).1 := by
  obtain ⟨before, after, rfl⟩ := List.append_of_mem listed
  refine List.mem_append_left _ (mem_distinct ⟨by simp, by simp⟩ ?_ ?_)
  · intro p here id own same
    exact first ⟨before, after, rfl, p, here, id, own, same⟩
  · intro p here name own same
    rw [List.map_append, List.nodup_append] at unique
    exact unique.2.2 _ (List.mem_map_of_mem here) _ List.mem_cons_self (own.trans same.symm)

-- On a book that anyone may have traded on, and with whatever is held to be in flight: once a sweep
-- got through, an order that its fetch listed rests only if it repeats a client id.
theorem swept_or_repeated (w : Surroundings τ) (m : Maker) (f : Floor τ)
    (reached : f.exchange.Reachable) (through : (m.cancelAll w.venue f).1 = .ok count) :
    m.SweepsListed w f Repeats := by
  have numbered := reached.numbered
  have fetched := m.fetch_ends w.fades_thinning f
  unfold Maker.SweepsListed
  unfold Maker.cancelAll at through ⊢
  revert fetched through
  rcases (m.fetch w.venue).from f with ⟨_ | e | listing, g⟩
  · intro stopped
    cases stopped
  · intro stopped
    cases stopped
  · rintro through ⟨h, before, lists⟩
    refine ⟨listing, g, rfl, ?_⟩
    have shown := numbered.sublist before.resting before.issued
    have aged := shown.age lists.resting lists.issued
    have unique := lists.visible ▸ Exchange.visible_unique shown.unique
    have each : ((m.observe listing).cancelEach w.venue g (m.tracker.existing listing).1).1 =
        .ok () → _ := (m.observe listing).cancelEach_clears w aged.unique
    simp only [Maker.observe] at each
    simp only at through ⊢
    revert through each
    rcases Maker.cancelEach _ w.venue g (m.tracker.existing listing).1 with ⟨_ | _, n, k⟩
    · intro stopped
      cases stopped
    · intro _ each r here listed
      obtain ⟨left, cleared⟩ := each rfl
      by_contra first
      obtain ⟨name, named⟩ := aged.exchangeId (left.subset here)
      have target : r.order ∈ (m.tracker.existing listing).1 :=
        Tracker.mem_existing_of_listed unique listed first
      exact cleared r.order target name named r here named

def leftovers : Floor (List Spell) where
  exchange := ({} : Exchange).serveAll [.submit (.ofList [
    .place ⟨.buy, .ofWord 90 0, .one, .limit, none, some ⟨7⟩⟩,
    .place ⟨.sell, .ofWord 110 0, .one, .limit, none, some ⟨7⟩⟩])]
  rest := []

theorem leftovers_reachable : leftovers.exchange.Reachable := ⟨0, _, rfl⟩

-- Both orders are listed and one cancel goes out: the sweep is content while the other still rests.
theorem repeated_order_survives_sweep :
    let m := (Desk.small []).maker
    leftovers.exchange.Reachable ∧ (m.cancelAll Surroundings.scripted.venue leftovers).1 = .ok 1 ∧
      ¬ m.SweepsListed .scripted leftovers fun _ _ => False := by
  intro m
  have count : (m.cancelAll Surroundings.scripted.venue leftovers).1 = .ok 1 := by cbv
  have listed : ((m.fetch Surroundings.scripted.venue).from leftovers).1 =
      some (.ok leftovers.exchange.orders) := by cbv
  have left : (m.cancelAll Surroundings.scripted.venue leftovers).2.2.exchange.resting =
      leftovers.exchange.resting.drop 1 := by cbv
  refine ⟨leftovers_reachable, count, ?_⟩
  rintro ⟨listing, g, fetched, clear⟩
  rw [fetched] at listed
  cases listed
  have one : (leftovers.exchange.resting.drop 1).length = 1 := by cbv
  obtain ⟨r, last⟩ := List.exists_mem_of_length_pos (one ▸ Nat.one_pos)
  exact clear r (left ▸ last) (List.mem_map_of_mem (List.mem_of_mem_drop last))

theorem leftover_repeats :
    let m := (Desk.small []).maker
    leftovers.exchange.Reachable ∧ (m.cancelAll Surroundings.scripted.venue leftovers).1 = .ok 1 ∧
      m.SweepsListed .scripted leftovers Repeats := by
  intro m
  have count : (m.cancelAll Surroundings.scripted.venue leftovers).1 = .ok 1 := by cbv
  exact ⟨leftovers_reachable, count,
    swept_or_repeated .scripted m leftovers leftovers_reachable count⟩

end MarketMaking
