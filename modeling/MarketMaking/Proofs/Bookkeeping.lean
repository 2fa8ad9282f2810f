import Mathlib.Data.List.Nodup
import MarketMaking.Proofs.InFlight

/-! What the orders in flight amount to, call after call: unique ids, each order under its own, none
missed too often, no more than there is room for, in the order in which they were tracked. -/

namespace MarketMaking

inductive TrackerCall where
  | track (o : Order)
  | existing (remote : List Order)
  | untrack (id : ClientId)
  | nextId (draws : List ClientId)

inductive TrackerReply where
  | tracked (outcome : Except TrackingError Unit)
  | believed (orders : List Order)
  | forgotten (o : Option Order)
  | drawn (id : Option (ClientId × List ClientId))

def converse (perform : τ → TrackerCall → TrackerReply × τ) (t : τ) :
    List TrackerCall → List (TrackerCall × TrackerReply) × τ
  | [] => ([], t)
  | call :: rest =>
    let (reply, t) := perform t call
    let (talk, t) := converse perform t rest
    ((call, reply) :: talk, t)

def trackedOrders (talk : List (TrackerCall × TrackerReply)) : List Order :=
  talk.filterMap fun
    | (.track o, .tracked (.ok _)) => some o
    | _ => none

-- The last order tracked under each client id, in the order of the calls.
def latest : List Order → List Order
  | [] => []
  | o :: later =>
    if later.any (·.clientId == o.clientId) then latest later else o :: latest later

theorem latest_append (history : List Order) (o : Order) :
    latest (history ++ [o]) = (latest history).filter (·.clientId != o.clientId) ++ [o] := by
  induction history with
  | nil => simp [latest]
  | cons p later ih =>
    simp only [List.cons_append, latest, List.any_append, List.any_cons, List.any_nil, ih]
    by_cases again : later.any (·.clientId == p.clientId)
    · simp [again]
    · by_cases same : p.clientId = o.clientId
      · rw [if_neg again]
        simp [same]
      · simp [again, same, Ne.symm same]

theorem eq_filter_of_sublist [DecidableEq κ] {part all : List α} {key : α → κ}
    (sub : part.Sublist all) (unique : (all.map key).Nodup) :
    part = all.filter fun a => decide (key a ∈ part.map key) := by
  induction sub with
  | slnil => rfl
  | @cons part all a sub ih =>
    obtain ⟨absent, unique⟩ := List.nodup_cons.mp unique
    have missing : key a ∉ part.map key := fun here => absent ((sub.map key).subset here)
    rw [List.filter_cons_of_neg (by simpa using missing)]
    exact ih unique
  | @cons_cons part all a sub ih =>
    obtain ⟨absent, unique⟩ := List.nodup_cons.mp unique
    rw [List.filter_cons_of_pos (by simp)]
    refine congrArg (a :: ·) ((ih unique).trans (List.filter_congr fun b here => ?_))
    have other : key b ≠ key a := fun same => absent (same ▸ List.mem_map_of_mem here)
    simp [other]

namespace Tracker

def perform (t : Tracker) : TrackerCall → TrackerReply × Tracker
  | .track o =>
    match t.track o with
    | .error e => (.tracked (.error e), t)
    | .ok t => (.tracked (.ok ()), t)
  | .existing remote => (.believed (t.existing remote).1, (t.existing remote).2)
  | .untrack id => (.forgotten (t.untrack id).1, (t.untrack id).2)
  | .nextId draws => (.drawn (t.nextId draws), t)

variable {t t' : Tracker} {o : Order} {id : ClientId} {config : TrackerConfig}
  {history : List Order}

def push (t : Tracker) (id : ClientId) (o : Order) : Tracker :=
  { t with entries := t.entries ++ [⟨id, o, 0⟩] }

@[simp] theorem orders_push : (t.push id o).orders = t.orders ++ [o] := by simp [push, orders]
@[simp] theorem ids_push : (t.push id o).ids = t.ids ++ [id] := by simp [push, ids]
@[simp] theorem length_push : (t.push id o).length = t.length + 1 := by simp [push, length]

theorem mem_push {e : Tracked} :
    e ∈ (t.push id o).entries ↔ e ∈ t.entries ∨ e = ⟨id, o, 0⟩ := by simp [push]

def thinned (t : Tracker) : Tracker := { t with entries := t.evict }

theorem track_cases (t : Tracker) (o : Order) :
    (∃ e, t.track o = .error e) ∨ ∃ id, o.clientId = some id ∧ id ∉ t.ids ∧
      t.track o = .ok (t.thinned.push id o) := by
  unfold track
  cases own : o.clientId with
  | none => exact .inl ⟨_, rfl⟩
  | some id =>
    by_cases held : t.contains id
    · exact .inl ⟨_, if_pos held⟩
    · exact .inr ⟨id, rfl, contains_eq_false.mp (by simpa using held), if_neg held⟩

theorem evict_sublist (t : Tracker) : t.evict.Sublist t.entries := List.drop_sublist _ _

theorem length_evict_lt (t : Tracker) : t.evict.length < t.capacity := by
  have room : 1 ≤ t.capacity := Nat.le_max_right _ _
  simp only [evict, List.length_drop, length]
  omega

structure WellKept (config : TrackerConfig) (history : List Order) (t : Tracker) : Prop where
  setup : t.config = config
  ids : t.ids.Nodup
  own : ∀ e ∈ t.entries, e.order.clientId = some e.id
  missed : ∀ e ∈ t.entries, e.missed ≤ config.maxUnconfirmed.toNat
  fits : t.length ≤ t.capacity
  inOrder : t.orders = (latest history).filter fun o => o.clientId.any t.contains

theorem clientIds_orders (own : ∀ e ∈ t.entries, e.order.clientId = some e.id) :
    t.orders.map (·.clientId) = t.ids.map some := by
  simp only [orders, ids, List.map_map]
  exact List.map_congr_left own

namespace WellKept

theorem new (config : TrackerConfig) : WellKept config [] { config } :=
  ⟨rfl, List.nodup_nil, by simp, by simp, Nat.zero_le _, rfl⟩

theorem uniqueOrders (kept : WellKept config history t) :
    (t.orders.map (·.clientId)).Nodup := by
  rw [clientIds_orders kept.own]
  exact kept.ids.map fun _ _ => Option.some.inj

-- Forgetting some of the orders leaves the others in their places.
theorem fewer (kept : WellKept config history t) (same : t'.config = t.config)
    (part : t'.orders.Sublist t.orders)
    (own : ∀ e ∈ t'.entries, e.order.clientId = some e.id)
    (missed : ∀ e ∈ t'.entries, e.missed ≤ config.maxUnconfirmed.toNat) :
    WellKept config history t' := by
  have ids : (t'.ids.map some).Sublist (t.ids.map some) := by
    rw [← clientIds_orders own, ← clientIds_orders kept.own]
    exact part.map _
  have fewer : t'.length ≤ t.length := by
    simpa [orders, length] using part.length_le
  have contains : ∀ id, t'.contains id = true → t.contains id = true := by
    intro id here
    have member : some id ∈ t'.ids.map some := by simpa [Tracker.contains, Tracker.ids] using here
    simpa [Tracker.contains, Tracker.ids] using ids.subset member
  refine ⟨same.trans kept.setup, .of_map _ (ids.nodup (kept.ids.map fun _ _ => Option.some.inj)),
    own, missed, ?_, ?_⟩
  · have fits := kept.fits
    simp only [capacity, same] at fits ⊢
    omega
  · have listed : ∀ o : Order, o.clientId ∈ t'.orders.map (·.clientId) ↔
        o.clientId.any t'.contains = true := by
      intro o
      rw [clientIds_orders own]
      cases o.clientId <;> simp [Tracker.contains, Tracker.ids]
    rw [eq_filter_of_sublist part kept.uniqueOrders, kept.inOrder, List.filter_filter]
    refine List.filter_congr fun o _ => ?_
    simp only [listed]
    cases own : o.clientId with
    | none => rfl
    | some id =>
      have known := contains id
      cases here : t'.contains id <;> simp_all

theorem push (kept : WellKept config history t) (room : t.length < t.capacity)
    (own : o.clientId = some id) (free : id ∉ t.ids) :
    WellKept config (history ++ [o]) (t.push id o) := by
  refine ⟨kept.setup, ?_, ?_, ?_, by rw [length_push]; exact room, ?_⟩
  · rw [ids_push, List.nodup_append]
    refine ⟨kept.ids, List.nodup_singleton id, ?_⟩
    rintro held old _ new rfl
    exact free (List.mem_singleton.mp new ▸ old)
  · intro e here
    rcases mem_push.mp here with old | rfl
    · exact kept.own e old
    · exact own
  · intro e here
    rcases mem_push.mp here with old | rfl
    · exact kept.missed e old
    · exact Nat.zero_le _
  · have others : ∀ p : Order, (p.clientId.any (t.push id o).contains && p.clientId != o.clientId) =
        p.clientId.any t.contains := by
      intro p
      have absent := contains_eq_false.mpr free
      rcases named : p.clientId with _ | other
      · rfl
      · by_cases same : id = other
        · subst same
          simp [own, absent]
        · have apart : (some other != some id) = true :=
            bne_iff_ne.mpr fun eq => same (Option.some.inj eq).symm
          simp [own, same, apart, Tracker.contains, Tracker.push]
    have last : o.clientId.any (t.push id o).contains = true := by
      simp [own, Tracker.contains, Tracker.push]
    rw [latest_append, List.filter_append, List.filter_filter,
      List.filter_congr fun p _ => others p, ← kept.inOrder]
    simp [last]

theorem perform (kept : WellKept config history t) (call : TrackerCall) :
    WellKept config (history ++ trackedOrders [(call, (t.perform call).1)]) (t.perform call).2 := by
  cases call with
  | track o =>
    rcases t.track_cases o with ⟨e, refused⟩ | ⟨id, own, free, tracked⟩
    · simpa [Tracker.perform, refused, trackedOrders] using kept
    · have thinned : WellKept config history { t with entries := t.evict } :=
        kept.fewer rfl (t.evict_sublist.map _)
          (fun e here => kept.own e (t.evict_sublist.subset here))
          fun e here => kept.missed e (t.evict_sublist.subset here)
      have pushed := thinned.push t.length_evict_lt own fun held =>
        free ((t.evict_sublist.map _).subset held)
      simp only [Tracker.perform, tracked]
      exact pushed
  | existing remote =>
    have left : ∀ e ∈ (t.existing remote).2.entries,
        e.order.clientId = some e.id ∧ e.missed ≤ config.maxUnconfirmed.toNat := by
      intro e here
      obtain ⟨before, tracked, -, young, rfl⟩ := mem_existing.mp here
      exact ⟨kept.own before tracked, kept.setup ▸ young⟩
    have seen := kept.fewer (config_existing t remote) (orders_existing_sublist t remote)
      (fun e here => (left e here).1) fun e here => (left e here).2
    simpa [Tracker.perform, trackedOrders] using seen
  | untrack id =>
    have left : ((t.untrack id).2.entries).Sublist t.entries := List.filter_sublist
    have same : (t.untrack id).2.config = t.config := rfl
    have forgotten := kept.fewer same (left.map _) (fun e here => kept.own e (left.subset here))
      fun e here => kept.missed e (left.subset here)
    simpa [Tracker.perform, trackedOrders] using forgotten
  | nextId draws => simpa [Tracker.perform, trackedOrders] using kept

theorem converse (kept : WellKept config history t) (calls : List TrackerCall) :
    WellKept config (history ++ trackedOrders (MarketMaking.converse Tracker.perform t calls).1)
      (MarketMaking.converse Tracker.perform t calls).2 := by
  induction calls generalizing t history with
  | nil => simpa [MarketMaking.converse, trackedOrders] using kept
  | cons call rest ih =>
    have next := ih (kept.perform call)
    have split : ∀ reply talk, trackedOrders ((call, reply) :: talk) =
        trackedOrders [(call, reply)] ++ trackedOrders talk := by
      intro reply talk
      exact List.filterMap_append (l := [(call, reply)])
    rw [List.append_assoc, ← split] at next
    exact next

end WellKept
end Tracker
end MarketMaking
