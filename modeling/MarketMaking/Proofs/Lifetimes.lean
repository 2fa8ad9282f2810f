import Mathlib.Data.List.Induction
import Mathlib.Data.List.Nodup
import MarketMaking.Proofs.Bookkeeping

/-! How long an order stays in flight, read off the calls that follow its tracking (`follow_eq`). So
the entries of a tracker, and all that it reports, are known from its history
(`existing_lifetimes`). -/

namespace MarketMaking
namespace Tracker
variable {t : Tracker} {config : TrackerConfig} {history : List Order} {id : ClientId}

structure Step where
  before : Tracker
  call : TrackerCall

namespace Step

def isListing (s : Step) : Bool :=
  match s.call with
  | .existing _ => true
  | _ => false

-- Whether a call takes away the order under this id: it brings a listing that shows it, it forgets
-- it, or it evicts it. The oldest order is evicted where another one is tracked in a full tracker.
def takes (s : Step) (id : ClientId) : Bool :=
  match s.call with
  | .existing remote => lists remote id
  | .untrack forgotten => forgotten == id
  | .track o =>
    (s.before.track o).isOk && decide (s.before.capacity ≤ s.before.length) &&
      s.before.ids.head? == some id
  | .nextId _ => false

def leave (s : Step) (e : Tracked) : Option Tracked :=
  if s.takes e.id then none
  else if s.isListing then
    if s.before.config.maxUnconfirmed.toNat < e.missed + 1 then none
    else some { e with missed := e.missed + 1 }
  else some e

theorem filterMap_leave {s : Step} (blind : s.isListing = false) (entries : List Tracked) :
    entries.filterMap s.leave = entries.filter fun e => !s.takes e.id := by
  rw [← List.filterMap_eq_filter]
  refine List.filterMap_congr fun e _ => ?_
  by_cases gone : s.takes e.id <;> simp [leave, blind, Option.guard, gone]

end Step

structure Tracking where
  id : ClientId
  order : Order
  since : List Step := []

def Tracking.entry (x : Tracking) : Tracked := ⟨x.id, x.order, 0⟩

def entered (t : Tracker) (call : TrackerCall) (since : List Step) : List Tracking :=
  match call with
  | .track o => if (t.track o).isOk then o.clientId.toList.map (⟨·, o, since⟩) else []
  | _ => []

theorem evict_eq (unique : t.ids.Nodup) (fits : t.length ≤ t.capacity) :
    t.evict = t.entries.filter fun e =>
      !(decide (t.capacity ≤ t.length) && t.ids.head? == some e.id) := by
  by_cases full : t.capacity ≤ t.length
  · have one : t.length + 1 - t.capacity = 1 := by omega
    simp only [evict, one, full, decide_true, Bool.true_and]
    unfold ids at unique ⊢
    cases held : t.entries with
    | nil => rfl
    | cons oldest younger =>
      rw [held, List.map_cons] at unique
      have others : ∀ e ∈ younger, (!oldest.id == e.id) = true := by
        intro e here
        have apart : oldest.id ≠ e.id := by
          intro same
          exact (List.nodup_cons.mp unique).1 (List.mem_map.mpr ⟨e, here, same.symm⟩)
        simpa using apart
      simpa using (List.filter_eq_self.mpr others).symm
  · have none : t.length + 1 - t.capacity = 0 := by omega
    simp [evict, none, full]

theorem entries_perform (kept : WellKept config history t) (call : TrackerCall) :
    (t.perform call).2.entries =
      t.entries.filterMap (Step.leave ⟨t, call⟩) ++ (t.entered call []).map Tracking.entry := by
  cases call with
  | track o =>
    rw [Step.filterMap_leave rfl]
    simp only [Step.takes, entered, perform]
    rcases t.track_cases o with ⟨e, refused⟩ | ⟨id, own, free, tracked⟩
    · simp [refused, Except.isOk, Except.toBool]
    · have left := evict_eq kept.ids kept.fits
      simp [tracked, own, Except.isOk, Except.toBool, push, thinned, left, Tracking.entry]
  | existing remote =>
    simp only [perform, existing, entered, List.map_nil, List.append_nil]
    rfl
  | untrack id =>
    rw [Step.filterMap_leave rfl]
    simp [perform, untrack, entered, Step.takes, bne, Bool.beq_comm]
  | nextId draws =>
    rw [Step.filterMap_leave rfl]
    simp [perform, entered, Step.takes]

theorem converse_append (t : Tracker) (calls : List TrackerCall) (last : TrackerCall) :
    (converse perform t (calls ++ [last])).2 = ((converse perform t calls).2.perform last).2 := by
  induction calls generalizing t with
  | nil => rfl
  | cons call rest ih => exact ih (t.perform call).2

def steps (t : Tracker) : List TrackerCall → List Step
  | [] => []
  | call :: rest => ⟨t, call⟩ :: steps (t.perform call).2 rest

def follow : List Step → Tracked → Option Tracked
  | [], e => some e
  | s :: rest, e => (s.leave e).bind (follow rest)

def trackings (t : Tracker) : List TrackerCall → List Tracking
  | [] => []
  | call :: rest =>
    let after := (t.perform call).2
    t.entered call (after.steps rest) ++ trackings after rest

theorem follow_entered (t : Tracker) (call : TrackerCall) (since : List Step) :
    ((t.entered call []).map Tracking.entry).filterMap (follow since) =
      (t.entered call since).filterMap fun x => follow x.since x.entry := by
  unfold entered
  split
  · split
    · rw [List.map_map, List.filterMap_map, List.filterMap_map]
      rfl
    · rfl
  · rfl

theorem entries_converse (kept : WellKept config history t) (calls : List TrackerCall) :
    (converse perform t calls).2.entries =
      t.entries.filterMap (follow (t.steps calls)) ++
        (t.trackings calls).filterMap fun x => follow x.since x.entry := by
  induction calls generalizing t history with
  | nil => simp [converse, steps, trackings, follow]
  | cons call rest ih =>
    have later := ih (kept.perform call)
    simp only [converse, steps, trackings, List.filterMap_append]
    rw [later, entries_perform kept call, List.filterMap_append, List.filterMap_filterMap,
      follow_entered, List.append_assoc]
    rfl

structure Stands (config : TrackerConfig) (id : ClientId) (since : List Step) : Prop where
  young : since.countP Step.isListing ≤ config.maxUnconfirmed.toNat
  spared : ∀ s ∈ since, s.takes id = false

instance (config : TrackerConfig) (id : ClientId) (since : List Step) :
    Decidable (Stands config id since) :=
  decidable_of_iff
    (since.countP Step.isListing ≤ config.maxUnconfirmed.toNat ∧ ∀ s ∈ since, s.takes id = false)
    ⟨fun both => ⟨both.1, both.2⟩, fun stands => ⟨stands.young, stands.spared⟩⟩

theorem stands_append {since : List Step} {s : Step} :
    Stands config id (since ++ [s]) ↔
      since.countP Step.isListing + s.isListing.toNat ≤ config.maxUnconfirmed.toNat ∧
        (∀ s ∈ since, s.takes id = false) ∧ s.takes id = false := by
  have count : (since ++ [s]).countP Step.isListing =
      since.countP Step.isListing + s.isListing.toNat := by
    cases one : s.isListing <;> simp [one]
  constructor
  · intro ⟨young, spared⟩
    exact ⟨count ▸ young, fun s here => spared s (List.mem_append_left _ here),
      spared s (List.mem_append_right _ List.mem_cons_self)⟩
  · intro ⟨young, spared, last⟩
    exact ⟨count ▸ young, List.forall_mem_append.mpr ⟨spared, List.forall_mem_singleton.mpr last⟩⟩

theorem follow_append (since : List Step) (s : Step) (e : Tracked) :
    follow (since ++ [s]) e = (follow since e).bind s.leave := by
  induction since generalizing e with
  | nil => simp [follow]
  | cons first rest ih =>
    cases left : first.leave e with
    | none => simp [follow, left]
    | some e => simp [follow, left, ih]

-- By induction on the calls, from the last one back: what was held before it has been missed by all
-- listings there were.
theorem follow_eq (order : Order) (since : List Step)
    (setup : ∀ s ∈ since, s.before.config = config) :
    follow since ⟨id, order, 0⟩ =
      if Stands config id since then some ⟨id, order, since.countP Step.isListing⟩ else none := by
  induction since using List.reverseRecOn with
  | nil =>
    have stands : Stands config id [] := ⟨Nat.zero_le _, by simp⟩
    rw [if_pos stands]
    rfl
  | append_singleton since s ih =>
    have same : s.before.config = config := setup s (by simp)
    rw [follow_append, ih fun s here => setup s (List.mem_append_left _ here)]
    by_cases stands : Stands config id since
    · have young := stands.young
      have longer : Stands config id (since ++ [s]) ↔ s.takes id = false ∧
          since.countP Step.isListing + s.isListing.toNat ≤ config.maxUnconfirmed.toNat := by
        rw [stands_append, and_iff_right stands.spared, and_comm]
      rw [if_pos stands, Option.bind_some]
      simp only [Step.leave, longer, same, List.countP_append]
      cases s.takes id with
      | true => simp
      | false =>
        cases listing : s.isListing with
        | false => simp [listing, young]
        | true =>
          by_cases spent : config.maxUnconfirmed.toNat < since.countP Step.isListing + 1
          · simp [spent, Nat.not_le_of_lt spent]
          · simp [listing, spent, Nat.le_of_not_lt spent]
    · have neither : ¬ Stands config id (since ++ [s]) := by
        intro longer
        obtain ⟨young, spared, -⟩ := stands_append.mp longer
        exact stands ⟨by omega, spared⟩
      rw [if_neg stands, if_neg neither, Option.bind_none]

theorem config_steps (kept : WellKept config history t) (calls : List TrackerCall) :
    ∀ s ∈ t.steps calls, s.before.config = config := by
  induction calls generalizing t history with
  | nil => simp [steps]
  | cons call rest ih => exact List.forall_mem_cons.mpr ⟨kept.setup, ih (kept.perform call)⟩

theorem config_since (kept : WellKept config history t) (calls : List TrackerCall) :
    ∀ x ∈ t.trackings calls, ∀ s ∈ x.since, s.before.config = config := by
  induction calls generalizing t history with
  | nil => simp [trackings]
  | cons call rest ih =>
    have next := kept.perform call
    refine List.forall_mem_append.mpr ⟨?_, ih next⟩
    intro x here
    unfold entered at here
    split at here
    · split at here
      · obtain ⟨id, -, rfl⟩ := List.mem_map.mp here
        exact config_steps next rest
      · simp at here
    · simp at here

theorem entries_eq (config : TrackerConfig) (calls : List TrackerCall) :
    (converse perform { config } calls).2.entries =
      ((trackings { config } calls).filter fun x => Stands config x.id x.since).map fun x =>
        ⟨x.id, x.order, x.since.countP Step.isListing⟩ := by
  have kept := WellKept.new config
  rw [entries_converse kept, ← List.filterMap_eq_map, ← List.filterMap_eq_filter,
    List.filterMap_filterMap]
  refine List.filterMap_congr fun x here => ?_
  rw [Tracking.entry, follow_eq x.order x.since (config_since kept calls x here)]
  by_cases stands : Stands config x.id x.since <;> simp [stands, Option.guard]

-- Whether an order of a listing repeats the client id of one before it, or the exchange id of one
-- that was kept before it.
def Redundant (earlier kept : List Order) (o : Order) : Prop :=
  (∃ id, o.clientId = some id ∧ ∃ p ∈ earlier, p.clientId = some id) ∨
    ∃ id, o.exchangeId = some id ∧ ∃ p ∈ kept, p.exchangeId = some id

inductive Merges : List Order → List Order → Prop where
  | nil : Merges [] []
  | keep {o : Order} :
    Merges listing kept → ¬ Redundant listing kept o → Merges (listing ++ [o]) (kept ++ [o])
  | drop {o : Order} :
    Merges listing kept → Redundant listing kept o → Merges (listing ++ [o]) kept

theorem distinct_cons (clientIds : List ClientId) (exchangeIds : List String) (o : Order)
    (rest : List Order) :
    distinct clientIds exchangeIds (o :: rest) =
      if o.clientId.any clientIds.contains then distinct clientIds exchangeIds rest
      else if o.exchangeId.any exchangeIds.contains then
        distinct (o.clientId.toList ++ clientIds) exchangeIds rest
      else
        o :: distinct (o.clientId.toList ++ clientIds) (o.exchangeId.toList ++ exchangeIds)
          rest := by
  simp only [distinct, distinct.byExchangeId]
  cases o.clientId <;> cases o.exchangeId <;> simp

-- By induction on what is yet to come of the listing: the ids met so far are the client ids of what
-- came before it and the exchange ids of what was kept of that.
theorem merges_append {listing kept rest : List Order} {clientIds : List ClientId}
    {exchangeIds : List String} (before : Merges listing kept)
    (clients : ∀ id, id ∈ clientIds ↔ ∃ p ∈ listing, p.clientId = some id)
    (exchanges : ∀ id, id ∈ exchangeIds ↔ ∃ p ∈ kept, p.exchangeId = some id) :
    Merges (listing ++ rest) (kept ++ distinct clientIds exchangeIds rest) := by
  induction rest generalizing listing kept clientIds exchangeIds with
  | nil => simpa [distinct] using before
  | cons o rest ih =>
    rw [distinct_cons, List.append_cons listing o rest]
    have knownClient : o.clientId.any clientIds.contains = true ↔
        ∃ id, o.clientId = some id ∧ ∃ p ∈ listing, p.clientId = some id := by
      simp [Option.any_eq_true, clients]
    have knownExchange : o.exchangeId.any exchangeIds.contains = true ↔
        ∃ id, o.exchangeId = some id ∧ ∃ p ∈ kept, p.exchangeId = some id := by
      simp [Option.any_eq_true, exchanges]
    have more : ∀ id, id ∈ o.clientId.toList ++ clientIds ↔
        ∃ p ∈ listing ++ [o], p.clientId = some id := by
      intro id
      simp [clients, or_and_right, exists_or, or_comm]
    by_cases sameClient : o.clientId.any clientIds.contains
    · rw [if_pos sameClient]
      refine ih (before.drop (.inl (knownClient.mp sameClient))) ?_ exchanges
      intro id
      rw [← more, List.mem_append]
      refine ⟨.inr, fun here => here.elim (fun own => ?_) (·)⟩
      rw [Option.mem_toList.mp own] at sameClient
      simpa using sameClient
    · rw [if_neg sameClient]
      by_cases sameExchange : o.exchangeId.any exchangeIds.contains
      · rw [if_pos sameExchange]
        exact ih (before.drop (.inr (knownExchange.mp sameExchange))) more exchanges
      · rw [if_neg sameExchange, List.append_cons kept]
        refine ih (before.keep ?_) more ?_
        · rintro (client | exchange)
          · exact sameClient (knownClient.mpr client)
          · exact sameExchange (knownExchange.mpr exchange)
        · intro id
          simp [exchanges, or_and_right, exists_or, or_comm]

namespace Merges
variable {listing kept : List Order}

theorem subset (merges : Merges listing kept) : kept ⊆ listing := by
  induction merges with
  | nil => exact List.Subset.refl []
  | keep _ _ ih =>
    exact List.append_subset.mpr
      ⟨List.Subset.trans ih (List.subset_append_left _ _), List.subset_append_right _ _⟩
  | drop _ _ ih => exact List.Subset.trans ih (List.subset_append_left _ _)

theorem uniqueClients (merges : Merges listing kept) : (kept.filterMap (·.clientId)).Nodup := by
  induction merges with
  | nil => exact List.nodup_nil
  | drop _ _ ih => exact ih
  | @keep listing kept o merges new ih =>
    rw [List.filterMap_append, List.nodup_append]
    refine ⟨ih, ?_, ?_⟩
    · cases own : o.clientId <;> simp [own]
    · intro id old other here same
      subst same
      obtain ⟨p, before, earlier⟩ := List.mem_filterMap.mp old
      have own : o.clientId = some id := by simpa using here
      exact new (.inl ⟨id, own, p, merges.subset before, earlier⟩)

end Merges

theorem uniqueClients_existing (kept : WellKept config history t) {remote listed : List Order}
    (merges : Merges remote listed) :
    ((listed ++ (t.existing remote).2.orders).filterMap (·.clientId)).Nodup := by
  have after : WellKept config _ (t.existing remote).2 := kept.perform (.existing remote)
  have inFlight : (t.existing remote).2.orders.filterMap (·.clientId) =
      (t.existing remote).2.ids := by
    have own := congrArg (List.filterMap fun o => o) (clientIds_orders after.own)
    simpa [List.filterMap_map, Function.comp_def] using own
  rw [List.filterMap_append, inFlight, List.nodup_append]
  refine ⟨merges.uniqueClients, after.ids, ?_⟩
  rintro id shown _ held rfl
  obtain ⟨o, here, own⟩ := List.mem_filterMap.mp shown
  obtain ⟨e, left, rfl⟩ := List.mem_map.mp held
  obtain ⟨before, -, missed, -, rfl⟩ := mem_existing.mp left
  have listed := lists_eq_true.mpr ⟨o, merges.subset here, own⟩
  exact absurd listed (by simp [missed])

theorem existing_lifetimes (config : TrackerConfig) (calls : List TrackerCall)
    (remote : List Order) :
    let t := (converse perform { config } calls).2
    let standing := (trackings { config } (calls ++ [.existing remote])).filter fun x =>
      Stands config x.id x.since
    ∃ listed, Merges remote listed ∧
      (t.existing remote).1 = listed ++ standing.map (·.order) ∧
      ((t.existing remote).1.filterMap (·.clientId)).Nodup := by
  intro t standing
  have kept := (WellKept.new config).converse calls
  have merges : Merges remote (distinct [] [] remote) :=
    merges_append .nil (by simp) (by simp)
  have inFlight : (t.existing remote).2.orders = standing.map (·.order) := by
    have orders := congrArg (List.map (·.order)) (entries_eq config (calls ++ [.existing remote]))
    rw [converse_append, List.map_map] at orders
    exact orders
  have report : (t.existing remote).1 = distinct [] [] remote ++ (t.existing remote).2.orders := rfl
  refine ⟨_, merges, inFlight ▸ report, ?_⟩
  rw [report]
  exact uniqueClients_existing kept merges

end Tracker
end MarketMaking
