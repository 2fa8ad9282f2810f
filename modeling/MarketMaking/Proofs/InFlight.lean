import Mathlib.Data.List.Nodup
import MarketMaking.Tracker

/-! Orders in flight under ids of their own. Entries arrive at most so many between two listings, so
no more than that many are of one age (`crowd_existing`): that is what room has to be made for. -/

namespace MarketMaking

namespace Tracker
variable {t : Tracker} {remote : List Order} {e : Tracked} {id : ClientId}

theorem contains_eq_false : t.contains id = false ↔ id ∉ t.ids := by
  simp [contains, ids]

theorem distinct_eq_self {clientIds : List ClientId} {exchangeIds : List String}
    {orders : List Order} (byClient : (orders.map (·.clientId)).Nodup)
    (byExchange : (orders.map (·.exchangeId)).Nodup)
    (client : ∀ o ∈ orders, ∃ id, o.clientId = some id ∧ id ∉ clientIds)
    (exchange : ∀ o ∈ orders, ∃ id, o.exchangeId = some id ∧ id ∉ exchangeIds) :
    distinct clientIds exchangeIds orders = orders := by
  induction orders generalizing clientIds exchangeIds with
  | nil => simp [distinct]
  | cons o rest ih =>
    obtain ⟨id, owned, newId⟩ := client o List.mem_cons_self
    obtain ⟨name, named, newName⟩ := exchange o List.mem_cons_self
    obtain ⟨absent, byClient⟩ := List.nodup_cons.mp byClient
    obtain ⟨missing, byExchange⟩ := List.nodup_cons.mp byExchange
    have later : distinct (id :: clientIds) (name :: exchangeIds) rest = rest := by
      refine ih byClient byExchange ?_ ?_
      · intro p here
        obtain ⟨other, own, new⟩ := client p (List.mem_cons_of_mem o here)
        refine ⟨other, own, fun seen => ?_⟩
        rcases List.mem_cons.mp seen with rfl | before
        · exact absent (List.mem_map.mpr ⟨p, here, own.trans owned.symm⟩)
        · exact new before
      · intro p here
        obtain ⟨other, own, new⟩ := exchange p (List.mem_cons_of_mem o here)
        refine ⟨other, own, fun seen => ?_⟩
        rcases List.mem_cons.mp seen with rfl | before
        · exact missing (List.mem_map.mpr ⟨p, here, own.trans named.symm⟩)
        · exact new before
    simp [distinct, distinct.byExchangeId, owned, named, newId, newName, later]

theorem existing_orders (byClient : (remote.map (·.clientId)).Nodup)
    (byExchange : (remote.map (·.exchangeId)).Nodup)
    (client : ∀ o ∈ remote, ∃ id, o.clientId = some id)
    (exchange : ∀ o ∈ remote, ∃ id, o.exchangeId = some id) :
    (t.existing remote).1 = remote ++ (t.existing remote).2.orders := by
  have whole : distinct [] [] remote = remote := by
    refine distinct_eq_self byClient byExchange (fun o here => ?_) fun o here => ?_
    · obtain ⟨id, own⟩ := client o here; exact ⟨id, own, List.not_mem_nil⟩
    · obtain ⟨id, own⟩ := exchange o here; exact ⟨id, own, List.not_mem_nil⟩
  simp only [existing, whole]

@[simp] theorem config_existing (t : Tracker) (remote : List Order) :
    (t.existing remote).2.config = t.config := rfl

theorem lists_eq_true : lists remote id = true ↔ ∃ o ∈ remote, o.clientId = some id := by
  simp [lists]

theorem mem_existing : e ∈ (t.existing remote).2.entries ↔
    ∃ before ∈ t.entries, lists remote before.id = false ∧
      before.missed + 1 ≤ t.config.maxUnconfirmed.toNat ∧
      e = { before with missed := before.missed + 1 } := by
  simp only [existing, List.mem_filterMap]
  refine exists_congr fun before => and_congr_right fun _ => ?_
  unfold observe
  cases seen : lists remote before.id with
  | true => simp
  | false =>
    by_cases spent : t.config.maxUnconfirmed.toNat < before.missed + 1
    · simp [spent, Nat.not_le_of_lt spent]
    · simp [spent, Nat.le_of_not_lt spent, eq_comm]

theorem map_existing_sublist {key : Tracked → α}
    (ageless : ∀ e missed, key { e with missed } = key e) (t : Tracker) (remote : List Order) :
    ((t.existing remote).2.entries.map key).Sublist (t.entries.map key) := by
  have one : ∀ before after : Tracked, t.observe remote before = some after →
      key after = key before := by
    intro before after left
    unfold observe at left
    split at left
    · cases left
    · split at left
      · cases left
      · cases left; exact ageless before _
  simp only [existing]
  induction t.entries with
  | nil => exact .slnil
  | cons before rest ih =>
    cases left : t.observe remote before with
    | none => simpa [List.filterMap_cons, left] using ih.cons (key before)
    | some after =>
      simpa [List.filterMap_cons, left, one before after left] using ih.cons_cons (key before)

theorem ids_existing_sublist (t : Tracker) (remote : List Order) :
    (t.existing remote).2.ids.Sublist t.ids :=
  map_existing_sublist (fun _ _ => rfl) t remote

theorem orders_existing_sublist (t : Tracker) (remote : List Order) :
    (t.existing remote).2.orders.Sublist t.orders :=
  map_existing_sublist (fun _ _ => rfl) t remote

-- At most `n` entries arrive between two listings, and `since` counts the arrivals after the last.
def Crowd (n since : Nat) (t : Tracker) : Prop :=
  ∀ k, t.entries.countP (·.missed ≤ k) ≤ n * (k + since)

theorem countP_existing_zero (t : Tracker) (remote : List Order) :
    (t.existing remote).2.entries.countP (·.missed ≤ 0) = 0 := by
  rw [List.countP_eq_zero]
  intro e left
  obtain ⟨before, -, -, -, rfl⟩ := mem_existing.mp left
  simp

theorem countP_existing_succ (t : Tracker) (remote : List Order) (k : Nat) :
    (t.existing remote).2.entries.countP (·.missed ≤ k + 1) ≤
      t.entries.countP (·.missed ≤ k) := by
  simp only [existing]
  induction t.entries with
  | nil => exact Nat.le_refl 0
  | cons before rest ih =>
    rw [List.countP_cons, List.filterMap_cons]
    unfold observe at ih ⊢
    split
    · omega
    · rename_i after left
      split at left
      · cases left
      · split at left
        · cases left
        · cases left
          rw [List.countP_cons]
          simp only [Nat.add_le_add_iff_right]
          omega

theorem crowd_existing {n : Nat} (crowd : t.Crowd n 1) (remote : List Order) :
    (t.existing remote).2.Crowd n 0 := by
  intro k
  cases k with
  | zero => rw [countP_existing_zero]; exact Nat.zero_le _
  | succ k => exact Nat.le_trans (countP_existing_succ t remote k) (crowd k)

theorem length_le_of_crowd {n since oldest : Nat} (crowd : t.Crowd n since)
    (young : ∀ e ∈ t.entries, e.missed ≤ oldest) :
    t.entries.length ≤ n * (oldest + since) := by
  have all : t.entries.countP (·.missed ≤ oldest) = t.entries.length := by
    rw [List.countP_eq_length]
    simpa using young
  exact all ▸ crowd oldest

theorem nextId_cons (free : id ∉ t.ids) (draws : List ClientId) :
    t.nextId (id :: draws) = some (id, draws) := by
  simp [nextId, contains_eq_false.mpr free]

def squeeze (t : Tracker) (new : List Tracked) : Tracker :=
  { t with entries := (t.entries ++ new).drop (t.length + new.length - t.capacity) }

theorem capacity_pos (t : Tracker) : 0 < t.capacity := Nat.le_max_right _ _

theorem track_eq {o : Order} (own : o.clientId = some id) (free : id ∉ t.ids) :
    t.track o = .ok (t.squeeze [⟨id, o, 0⟩]) := by
  have positive := t.capacity_pos
  have inside : t.length + 1 - t.capacity ≤ t.entries.length := by
    simp only [length]
    omega
  simp [track, own, contains_eq_false.mpr free, evict, squeeze,
    List.drop_append_of_le_length inside]

theorem squeeze_sublist (t : Tracker) (new : List Tracked) :
    (t.squeeze new).entries.Sublist (t.entries ++ new) := List.drop_sublist _ _

theorem ids_squeeze_sublist (t : Tracker) (new : List Tracked) :
    (t.squeeze new).ids.Sublist (t.ids ++ new.map (·.id)) := by
  rw [ids, ids, ← List.map_append]
  exact (t.squeeze_sublist new).map _

theorem mem_squeeze_of_new {new : List Tracked} (few : new.length ≤ t.capacity) (here : e ∈ new) :
    e ∈ (t.squeeze new).entries := by
  have inside : t.length + new.length - t.capacity ≤ t.entries.length := by
    simp only [length]
    omega
  simp only [squeeze, List.drop_append_of_le_length inside]
  exact List.mem_append_right _ here

theorem length_squeeze_le (t : Tracker) (new : List Tracked) :
    (t.squeeze new).length ≤ t.capacity := by
  simp only [squeeze, length, List.length_drop, List.length_append]
  omega

theorem squeeze_of_room {new : List Tracked} (room : t.length + new.length ≤ t.capacity) :
    t.squeeze new = { t with entries := t.entries ++ new } := by
  simp [squeeze, Nat.sub_eq_zero_of_le room]

theorem squeeze_nil (fits : t.length ≤ t.capacity) : t.squeeze [] = t := by
  rw [squeeze_of_room (by simpa using fits), List.append_nil]

theorem squeeze_squeeze (t : Tracker) (one two : List Tracked) :
    (t.squeeze one).squeeze two = t.squeeze (one ++ two) := by
  have inside : t.length + one.length - t.capacity ≤ (t.entries ++ one).length := by
    simp only [length, List.length_append]
    omega
  have sum : t.length + one.length - t.capacity +
      ((t.squeeze one).length + two.length - t.capacity) =
        t.length + (one ++ two).length - t.capacity := by
    simp only [squeeze, length, List.length_drop, List.length_append]
    omega
  have entries : (t.squeeze one).entries ++ two =
      (t.entries ++ (one ++ two)).drop (t.length + one.length - t.capacity) := by
    rw [← List.append_assoc, List.drop_append_of_le_length inside]
    rfl
  calc (t.squeeze one).squeeze two
      = { t with
          entries := ((t.squeeze one).entries ++ two).drop
            ((t.squeeze one).length + two.length - t.capacity) } := rfl
    _ = t.squeeze (one ++ two) := by
      rw [entries, List.drop_drop, sum]
      rfl

def sent (ids : List ClientId) (orders : List Order) : List Tracked :=
  List.zipWith (fun id o => ⟨id, o.withClientId id, 0⟩) ids orders

theorem ids_sent (ids : List ClientId) (orders : List Order) :
    (sent ids orders).map (·.id) = ids.take orders.length := by
  induction orders generalizing ids with
  | nil => simp [sent]
  | cons o rest ih =>
    cases ids with
    | nil => rfl
    | cons id others => exact congrArg (id :: ·) (ih others)

theorem length_sent_le (ids : List ClientId) (orders : List Order) :
    (sent ids orders).length ≤ orders.length := by
  rw [sent, List.length_zipWith]
  exact Nat.min_le_right _ _

theorem mem_sent {ids : List ClientId} {orders : List Order} (new : e ∈ sent ids orders) :
    e.id ∈ ids ∧ ∃ o ∈ orders, e = ⟨e.id, o.withClientId e.id, 0⟩ := by
  induction orders generalizing ids with
  | nil => simp [sent] at new
  | cons o rest ih =>
    cases ids with
    | nil => cases new
    | cons id others =>
      rcases List.mem_cons.mp new with rfl | later
      · exact ⟨List.mem_cons_self, o, List.mem_cons_self, rfl⟩
      · obtain ⟨drawn, p, here, same⟩ := ih later
        exact ⟨List.mem_cons_of_mem id drawn, p, List.mem_cons_of_mem o here, same⟩

end Tracker
end MarketMaking
