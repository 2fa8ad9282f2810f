import Mathlib.Data.List.Nodup
import MarketMaking.Exchange

/-! The book of the paper exchange when no two orders on it share an id. Then an instruction means
at most one order: cancels take exactly their targets off the book (`resting_foldl_remove`), and
orders that are put on it get ids of their own (`keyed_foldl_rest`). -/

namespace MarketMaking

namespace Order

def asSent (o : Order) : Order := { o with exchangeId := none }

@[simp] theorem clientId_asSent (o : Order) : o.asSent.clientId = o.clientId := rfl
@[simp] theorem side_asSent (o : Order) : o.asSent.side = o.side := rfl
@[simp] theorem price_asSent (o : Order) : o.asSent.price = o.price := rfl
@[simp] theorem quantity_asSent (o : Order) : o.asSent.quantity = o.quantity := rfl
@[simp] theorem asSent_asSent (o : Order) : o.asSent.asSent = o.asSent := rfl
@[simp] theorem asSent_withExchangeId (o : Order) (id : String) :
    (o.withExchangeId id).asSent = o.asSent := rfl
@[simp] theorem clientId_withExchangeId (o : Order) (id : String) :
    (o.withExchangeId id).clientId = o.clientId := rfl
@[simp] theorem exchangeId_withExchangeId (o : Order) (id : String) :
    (o.withExchangeId id).exchangeId = some id := rfl

theorem asSent_of_exchangeId {o : Order} (unlisted : o.exchangeId = none) : o.asSent = o := by
  cases o; simp_all [asSent]

theorem clientId_of_asSent {o p : Order} (same : o.asSent = p.asSent) :
    o.clientId = p.clientId := by
  rw [← o.clientId_asSent, same, clientId_asSent]

def Aims (target : Order) (resting : List Resting) : Prop :=
  ∀ r ∈ resting, target.designates r.order = (r.order.clientId == target.clientId)

theorem Aims.sublist (aims : Aims target resting) (part : rest.Sublist resting) :
    Aims target rest := fun r here => aims r (part.subset here)

end Order

def Resting.age (r : Resting) : Resting := { r with hidden := r.hidden - 1 }

@[simp] theorem Resting.order_age (r : Resting) : r.age.order = r.order := rfl
@[simp] theorem Resting.hidden_age (r : Resting) : r.age.hidden = r.hidden - 1 := rfl

namespace Exchange
variable {x y : Exchange} {r s : Resting} {o target : Order} {id : ClientId}

theorem orderId_injective (same : orderId i = orderId j) : i = j := by
  have digits : Nat.toDigits 10 i = Nat.toDigits 10 j := by
    have chars := congrArg String.toList same
    simpa [orderId] using chars
  rw [← Nat.ofDigitChars_ten_toDigits (n := i), digits, Nat.ofDigitChars_ten_toDigits]

theorem mem_visible :
    o ∈ x.visible ↔ ∃ r ∈ x.resting, r.hidden = 0 ∧ r.order = o := by
  simp [visible, and_assoc]

theorem eraseP_eq_filter {rs : List Resting} (unique : (rs.map (·.order.clientId)).Nodup)
    (aims : target.Aims rs) :
    rs.eraseP (target.designates ·.order) = rs.filter (·.order.clientId != target.clientId) := by
  induction rs with
  | nil => rfl
  | cons r rest ih =>
    obtain ⟨absent, unique⟩ := List.nodup_cons.mp unique
    have own := aims r List.mem_cons_self
    by_cases hit : r.order.clientId = target.clientId
    · have clear : ∀ s ∈ rest, (s.order.clientId != target.clientId) = true := by
        intro s here
        refine bne_iff_ne.mpr fun same => absent ?_
        exact List.mem_map.mpr ⟨s, here, same.trans hit.symm⟩
      simp [own, hit, List.filter_eq_self.mpr clear]
    · have later : target.Aims rest := aims.sublist (List.sublist_cons_self r rest)
      simp [own, hit, ih unique later]

theorem resting_remove (unique : (x.resting.map (·.order.clientId)).Nodup)
    (aims : target.Aims x.resting) :
    (x.remove target).resting = x.resting.filter (·.order.clientId != target.clientId) :=
  eraseP_eq_filter unique aims

@[simp] theorem lag_foldl_remove (x : Exchange) (targets : List Order) :
    (targets.foldl remove x).lag = x.lag := by
  induction targets generalizing x with
  | nil => rfl
  | cons t rest ih => exact ih (x.remove t)

@[simp] theorem issued_foldl_remove (x : Exchange) (targets : List Order) :
    (targets.foldl remove x).issued = x.issued := by
  induction targets generalizing x with
  | nil => rfl
  | cons t rest ih => exact ih (x.remove t)

theorem resting_foldl_remove {targets : List Order}
    (unique : (x.resting.map (·.order.clientId)).Nodup)
    (aims : ∀ t ∈ targets, t.Aims x.resting) :
    (targets.foldl remove x).resting =
      x.resting.filter fun r => decide (r.order.clientId ∉ targets.map (·.clientId)) := by
  induction targets generalizing x with
  | nil => simp
  | cons t rest ih =>
    have now := resting_remove unique (aims t List.mem_cons_self)
    have part : (x.remove t).resting.Sublist x.resting := now ▸ List.filter_sublist
    rw [List.foldl_cons, ih (unique.sublist (part.map _))
      fun u here => (aims u (List.mem_cons_of_mem t here)).sublist part, now, List.filter_filter]
    refine List.filter_congr fun r _ => ?_
    by_cases hit : r.order.clientId = t.clientId <;> simp [hit]

theorem remove_of_not_holds (absent : x.holds target = false) : x.remove target = x := by
  have none : ∀ r ∈ x.resting, ¬ target.designates r.order = true := by
    simpa [holds] using absent
  unfold remove
  rw [List.eraseP_of_forall_not none]

theorem cancel_true (target : Order) (x : Exchange) :
    Exchange.cancel target true x = (.ok (), x.remove target) := by
  cases present : x.holds target with
  | true => simp only [Exchange.cancel, present, if_true]
  | false => simp [Exchange.cancel, present, remove_of_not_holds present]

def newly (lag : Nat) : (issued : Nat) → List Order → List Resting
  | _, [] => []
  | issued, o :: rest =>
    ⟨o.withExchangeId (orderId (issued + 1)), lag⟩ :: newly lag (issued + 1) rest

theorem map_asSent_newly (lag issued : Nat) (orders : List Order) :
    (newly lag issued orders).map (·.order.asSent) = orders.map (·.asSent) := by
  induction orders generalizing issued with
  | nil => rfl
  | cons o rest ih => simp [newly, ih]

theorem sent_of_mem_newly {lag issued : Nat} {orders : List Order}
    (new : r ∈ newly lag issued orders) : ∃ o ∈ orders, o.asSent = r.order.asSent := by
  have sent := List.mem_map_of_mem (f := (·.order.asSent)) new
  rwa [map_asSent_newly, List.mem_map] at sent

theorem exists_newly_of_mem {orders : List Order} (sent : o ∈ orders) (lag issued : Nat) :
    ∃ r ∈ newly lag issued orders, r.order.asSent = o.asSent := by
  have placed := List.mem_map_of_mem (f := Order.asSent) sent
  rwa [← map_asSent_newly lag issued, List.mem_map] at placed

theorem hidden_of_mem_newly {hidden issued : Nat} {orders : List Order}
    (new : r ∈ newly hidden issued orders) : r.hidden = hidden := by
  induction orders generalizing issued with
  | nil => cases new
  | cons o rest ih =>
    rcases List.mem_cons.mp new with rfl | later
    · rfl
    · exact ih later

@[simp] theorem lag_foldl_rest (x : Exchange) (orders : List Order) :
    (orders.foldl rest x).lag = x.lag := by
  induction orders generalizing x with
  | nil => rfl
  | cons o rest ih => exact ih (x.rest o)

theorem resting_foldl_rest (x : Exchange) (orders : List Order) :
    (orders.foldl rest x).resting = x.resting ++ newly x.lag x.issued orders := by
  induction orders generalizing x with
  | nil => simp [newly]
  | cons o others ih => simp [ih, newly, rest]

theorem foldl_apply_submissions (ops : List Operation) (x : Exchange) (n : Nat) :
    ops.foldl apply { x with submissions := n } = { ops.foldl apply x with submissions := n } := by
  induction ops generalizing x with
  | nil => rfl
  | cons op rest ih =>
    cases op with
    | cancel t _ => exact ih (x.remove t)
    | place o => exact ih (x.rest o)
    | crank | settle | redeem => exact ih x

-- A batch that is refused leaves the book and the count of ids alone.
def Unchanged (x y : Exchange) : Prop :=
  y.lag = x.lag ∧ y.issued = x.issued ∧ y.resting = x.resting

theorem resting_replaced {targets orders : List Order}
    (unique : (x.resting.map (·.order.clientId)).Nodup) (aims : ∀ t ∈ targets, t.Aims x.resting)
    (book : (orders.foldl rest (targets.foldl remove x)).Unchanged y) :
    y.resting =
      x.resting.filter (fun r => decide (r.order.clientId ∉ targets.map (·.clientId))) ++
        newly x.lag x.issued orders := by
  rw [book.2.2, resting_foldl_rest, lag_foldl_remove, issued_foldl_remove,
    resting_foldl_remove unique aims]

theorem submit_working (working : x.failingSubmissions = 0) (accepting : x.rejectedSubmissions = 0)
    (b : Batch) :
    Exchange.submit b x =
      match b.toList.findSome? x.fault with
      | some e => (.error e, { x with submissions := x.submissions + 1 })
      | none => (.ok (b.toList.foldl count ⟨signature (x.submissions + 1), 0, 0, 0, 0⟩),
          { b.toList.foldl apply x with submissions := x.submissions + 1 }) := by
  have same : fault { x with submissions := x.submissions + 1 } = x.fault := by
    funext op
    cases op <;> rfl
  have unfailing : ¬ 0 < x.failingSubmissions := by omega
  have unrejecting : ¬ 0 < x.rejectedSubmissions := by omega
  have checked : Exchange.submit b x = _ := (if_neg unfailing).trans (if_neg unrejecting)
  simp only [same, Batch.flatten_groups, foldl_apply_submissions] at checked
  refine checked.trans ?_
  cases b.toList.findSome? x.fault <;> rfl

theorem submit_cases (b : Batch) (x : Exchange) :
    (∃ e y, Exchange.submit b x = (.error e, y) ∧ x.Unchanged y) ∨
      ∃ n, Exchange.submit b x =
        (.ok (b.toList.foldl count ⟨signature n, 0, 0, 0, 0⟩),
          { b.toList.foldl apply x with submissions := n }) := by
  by_cases failing : 0 < x.failingSubmissions
  · exact .inl ⟨_, _, if_pos failing, rfl, rfl, rfl⟩
  by_cases rejected : 0 < x.rejectedSubmissions
  · exact .inl ⟨_, _, (if_neg failing).trans (if_pos rejected), rfl, rfl, rfl⟩
  have checked := submit_working (x := x) (by omega) (by omega) b
  cases faulty : b.toList.findSome? x.fault with
  | some e =>
    simp only [faulty] at checked
    exact .inl ⟨_, _, checked, rfl, rfl, rfl⟩
  | none =>
    simp only [faulty] at checked
    exact .inr ⟨_, checked⟩

-- Every order on the book bears a client id, and no two share an id of either kind. The exchange
-- ids are among those issued so far.
structure Keyed (x : Exchange) : Prop where
  clientIds : (x.resting.map (·.order.clientId)).Nodup
  exchangeIds : (x.resting.map (·.order.exchangeId)).Nodup
  clientId : ∀ r ∈ x.resting, ∃ id, r.order.clientId = some id
  exchangeId : ∀ r ∈ x.resting, ∃ k, k ≤ x.issued ∧ r.order.exchangeId = some (orderId k)

theorem Keyed.sublist (keyed : x.Keyed) (part : y.resting.Sublist x.resting)
    (issued : y.issued = x.issued) : y.Keyed where
  clientIds := keyed.clientIds.sublist (part.map _)
  exchangeIds := keyed.exchangeIds.sublist (part.map _)
  clientId r here := keyed.clientId r (part.subset here)
  exchangeId r here := issued ▸ keyed.exchangeId r (part.subset here)

theorem Keyed.age (keyed : x.Keyed) (aged : y.resting = x.resting.map Resting.age)
    (issued : y.issued = x.issued) : y.Keyed := by
  refine ⟨?_, ?_, ?_, ?_⟩
  · simpa [aged, Function.comp_def] using keyed.clientIds
  · simpa [aged, Function.comp_def] using keyed.exchangeIds
  · simpa [aged] using keyed.clientId
  · simpa [aged, issued] using keyed.exchangeId

theorem Keyed.eq_of_clientId (keyed : x.Keyed) (one : r ∈ x.resting) (other : s ∈ x.resting)
    (same : r.order.clientId = s.order.clientId) : r = s :=
  List.inj_on_of_nodup_map keyed.clientIds one other same

theorem Keyed.eq_of_exchangeId (keyed : x.Keyed) (one : r ∈ x.resting) (other : s ∈ x.resting)
    (same : r.order.exchangeId = s.order.exchangeId) : r = s :=
  List.inj_on_of_nodup_map keyed.exchangeIds one other same

theorem Keyed.rest (keyed : x.Keyed) (tagged : o.clientId = some id)
    (unused : ∀ r ∈ x.resting, r.order.clientId ≠ some id) : (x.rest o).Keyed := by
  -- an id that was issued before has a smaller number
  have fresh : ∀ r ∈ x.resting, r.order.exchangeId ≠ some (orderId (x.issued + 1)) := by
    intro r here same
    obtain ⟨k, le, own⟩ := keyed.exchangeId r here
    have := orderId_injective (Option.some.inj (own.symm.trans same))
    omega
  refine ⟨?_, ?_, ?_, ?_⟩
  · simp only [Exchange.rest, List.map_append, List.nodup_append]
    refine ⟨keyed.clientIds, by simp, ?_⟩
    simpa [tagged] using unused
  · simp only [Exchange.rest, List.map_append, List.nodup_append]
    refine ⟨keyed.exchangeIds, by simp, ?_⟩
    simpa using fresh
  · intro r here
    rcases List.mem_append.mp here with old | new
    · exact keyed.clientId r old
    · rw [List.mem_singleton.mp new]; exact ⟨id, tagged⟩
  · intro r here
    rcases List.mem_append.mp here with old | new
    · obtain ⟨k, le, own⟩ := keyed.exchangeId r old
      exact ⟨k, Nat.le_succ_of_le le, own⟩
    · rw [List.mem_singleton.mp new]; exact ⟨_, Nat.le_refl _, rfl⟩

theorem keyed_foldl_rest {orders : List Order} (keyed : x.Keyed)
    (tagged : ∀ o ∈ orders, ∃ id, o.clientId = some id)
    (distinct : (orders.map (·.clientId)).Nodup)
    (unused : ∀ o ∈ orders, ∀ r ∈ x.resting, r.order.clientId ≠ o.clientId) :
    (orders.foldl Exchange.rest x).Keyed := by
  induction orders generalizing x with
  | nil => exact keyed
  | cons o others ih =>
    obtain ⟨id, own⟩ := tagged o List.mem_cons_self
    obtain ⟨absent, distinct⟩ := List.nodup_cons.mp distinct
    have first : (x.rest o).Keyed :=
      keyed.rest own fun r here => own ▸ unused o List.mem_cons_self r here
    refine ih first (fun p later => tagged p (List.mem_cons_of_mem o later)) distinct ?_
    intro p later r here
    rcases List.mem_append.mp here with old | new
    · exact unused p (List.mem_cons_of_mem o later) r old
    · rw [List.mem_singleton.mp new]
      intro same
      exact absent (List.mem_map.mpr ⟨p, later, same.symm⟩)

end Exchange
end MarketMaking
