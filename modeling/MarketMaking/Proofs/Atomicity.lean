import MarketMaking.Proofs.Book

/-! A batch is applied as a whole or not at all (`submit_atomic`). What refuses it is judged by the
book as it stands before the batch; what it does is told by its groups. -/

namespace MarketMaking

inductive Group where
  | cancels
  | places
  | cranks
  | settlements
  deriving DecidableEq

namespace Operation

def group : Operation → Group
  | .cancel _ _ => .cancels
  | .place _ => .places
  | .crank => .cranks
  | .settle | .redeem => .settlements

def target : Operation → Option Order
  | .cancel target _ => some target
  | _ => none

def placed : Operation → Option Order
  | .place o => some o
  | _ => none

theorem placed_of_group {op : Operation} (cancel : op.group = .cancels) : op.placed = none := by
  cases op <;> first | rfl | cases cancel

theorem target_of_group {op : Operation} (other : op.group ≠ .cancels) : op.target = none := by
  cases op <;> first | rfl | exact absurd rfl other

end Operation

def Receipt.counted (r : Receipt) : Group → UInt64
  | .cancels => r.cancelled
  | .places => r.placed
  | .cranks => r.cranked
  | .settlements => r.settled

namespace Batch

def group (b : Batch) : Group → List Operation
  | .cancels => b.cancels
  | .places => b.places
  | .cranks => b.cranks
  | .settlements => b.settlements

theorem group_add (b : Batch) (op : Operation) (g : Group) :
    (b.add op).group g = b.group g ++ [op].filter (·.group = g) := by
  cases op <;> cases g <;> simp [add, group, Operation.group]

theorem group_ofList (ops : List Operation) (g : Group) :
    (ofList ops).group g = ops.filter (·.group = g) := by
  have added : ∀ b : Batch, (ops.foldl add b).group g = b.group g ++ ops.filter (·.group = g) := by
    induction ops with
    | nil => simp
    | cons op rest ih =>
      intro b
      rw [List.foldl_cons, ih, group_add, List.append_assoc, ← List.filter_append]
      rfl
  have none : empty.group g = [] := by cases g <;> rfl
  rw [ofList, added, none, List.nil_append]

theorem group_of_mem {ops : List Operation} {g : Group} {op : Operation}
    (here : op ∈ (ofList ops).group g) : op.group = g := by
  rw [group_ofList] at here
  simpa using (List.mem_filter.mp here).2

theorem filter_toList (ops : List Operation) (g : Group) :
    (ofList ops).toList.filter (·.group = g) = (ofList ops).group g := by
  have own : ((ofList ops).group g).filter (·.group = g) = (ofList ops).group g :=
    List.filter_eq_self.mpr fun op here => by simpa using group_of_mem here
  have others : ∀ g', g' ≠ g → ((ofList ops).group g').filter (·.group = g) = [] := by
    intro g' apart
    refine List.filter_eq_nil_iff.mpr fun op here => ?_
    rw [group_of_mem here]
    simpa using apart
  have all : (ofList ops).toList = (ofList ops).group .cancels ++ (ofList ops).group .places ++
      (ofList ops).group .cranks ++ (ofList ops).group .settlements := rfl
  rw [all]
  simp only [List.filter_append]
  cases g <;> simp [own, others]

theorem countP_toList (ops : List Operation) (g : Group) :
    (ofList ops).toList.countP (·.group = g) = ((ofList ops).group g).length := by
  rw [List.countP_eq_length_filter, filter_toList]

end Batch

namespace Exchange
variable {x : Exchange} {e : RemoteError}

inductive Faulty (x : Exchange) : Operation → RemoteError → Prop where
  | missing {target : Order} : (∀ r ∈ x.resting, target.designates r.order = false) →
    Faulty x (.cancel target false) (.orderNotFound target.describe)
  | price {o : Order} : o.price ≤ .zero →
    Faulty x (.place o) (.rejected ("non-positive price " ++ o.price.toText))
  | quantity {o : Order} : ¬ o.price ≤ .zero → o.quantity ≤ .zero →
    Faulty x (.place o) (.rejected ("non-positive quantity " ++ o.quantity.toText))

-- An injected failure refuses every batch, else an injected rejection does, else the first of its
-- operations that is faulty.
inductive Refuses (x : Exchange) (b : Batch) : RemoteError → Prop where
  | failing : 0 < x.failingSubmissions → Refuses x b (.transient "injected submission failure")
  | rejecting : x.failingSubmissions = 0 → 0 < x.rejectedSubmissions →
    Refuses x b (.rejected "injected rejection")
  | faulty {e : RemoteError} : x.failingSubmissions = 0 → x.rejectedSubmissions = 0 →
    b.toList = before ++ op :: after → Faulty x op e → (∀ p ∈ before, ∀ e, ¬ Faulty x p e) →
    Refuses x b e

theorem holds_eq_false {target : Order} :
    x.holds target = false ↔ ∀ r ∈ x.resting, target.designates r.order = false := by
  simp [holds]

theorem fault_iff (op : Operation) : x.fault op = some e ↔ Faulty x op e := by
  constructor
  · intro found
    cases op with
    | cancel target okIfMissing =>
      simp only [fault, Bool.or_eq_true] at found
      split at found
      · cases found
      · rename_i required
        obtain ⟨strict, absent⟩ := not_or.mp required
        cases found
        rw [Bool.eq_false_iff.mpr strict]
        exact .missing (holds_eq_false.mp (Bool.eq_false_iff.mpr absent))
    | place o =>
      simp only [fault] at found
      split at found
      · cases found; exact .price ‹_›
      · split at found
        · cases found; exact .quantity ‹_› ‹_›
        · cases found
    | crank | settle | redeem => cases found
  · intro faulty
    cases faulty with
    | missing absent => simp [fault, holds_eq_false.mpr absent]
    | price low => simp [fault, low]
    | quantity high low => simp [fault, high, low]

theorem fault_eq_none (op : Operation) : x.fault op = none ↔ ∀ e, ¬ Faulty x op e := by
  rw [Option.eq_none_iff_forall_ne_some]
  exact forall_congr' fun e => not_congr (fault_iff op)

theorem findSome?_fault (ops : List Operation) :
    ops.findSome? x.fault = some e ↔ ∃ before op after, ops = before ++ op :: after ∧
      Faulty x op e ∧ ∀ p ∈ before, ∀ e, ¬ Faulty x p e := by
  simp only [List.findSome?_eq_some_iff, fault_iff, fault_eq_none]

theorem submit_checked (working : x.failingSubmissions = 0) (accepting : x.rejectedSubmissions = 0)
    (b : Batch) :
    (Exchange.submit b x).1 = .error e ↔ b.toList.findSome? x.fault = some e := by
  rw [submit_working working accepting]
  cases b.toList.findSome? x.fault <;> simp

theorem submit_error (x : Exchange) (b : Batch) (e : RemoteError) :
    (Exchange.submit b x).1 = .error e ↔ x.Refuses b e := by
  by_cases failing : 0 < x.failingSubmissions
  · have refused : (Exchange.submit b x).1 = .error (.transient "injected submission failure") := by
      simp [Exchange.submit, failing]
    rw [refused]
    constructor
    · rintro ⟨⟩
      exact .failing failing
    · intro refuses
      cases refuses with
      | failing => rfl
      | rejecting none | faulty none => omega
  have working : x.failingSubmissions = 0 := by omega
  by_cases rejecting : 0 < x.rejectedSubmissions
  · have refused : (Exchange.submit b x).1 = .error (.rejected "injected rejection") := by
      simp [Exchange.submit, failing, rejecting]
    rw [refused]
    constructor
    · rintro ⟨⟩
      exact .rejecting working rejecting
    · intro refuses
      cases refuses with
      | failing some => omega
      | rejecting => rfl
      | faulty _ none => omega
  have accepting : x.rejectedSubmissions = 0 := by omega
  rw [submit_checked working accepting, findSome?_fault]
  constructor
  · rintro ⟨before, op, after, split, faulty, sound⟩
    exact .faulty working accepting split faulty sound
  · intro refuses
    cases refuses with
    | failing some => omega
    | rejecting _ some => omega
    | faulty _ _ split faulty sound => exact ⟨_, _, _, split, faulty, sound⟩

inductive Cancels : List Resting → List Order → List Resting → Prop where
  | done : Cancels book [] book
  | hit : (∀ r ∈ before, target.designates r.order = false) → target.designates r.order = true →
    Cancels (before ++ after) later left → Cancels (before ++ r :: after) (target :: later) left
  | miss : (∀ r ∈ book, target.designates r.order = false) →
    Cancels book later left → Cancels book (target :: later) left

theorem cancels_foldl_remove (x : Exchange) (targets : List Order) :
    Cancels x.resting targets (targets.foldl remove x).resting := by
  induction targets generalizing x with
  | nil => exact .done
  | cons target later ih =>
    have rest := ih (x.remove target)
    cases present : x.holds target with
    | false =>
      rw [remove_of_not_holds present] at rest
      rw [List.foldl_cons, remove_of_not_holds present]
      exact .miss (holds_eq_false.mp present) rest
    | true =>
      obtain ⟨r, here, designated⟩ := List.any_eq_true.mp present
      obtain ⟨first, before, after, others, hit, split, left⟩ :=
        List.exists_of_eraseP (p := fun r => target.designates r.order) here designated
      have removed : (x.remove target).resting = before ++ after := left
      rw [removed] at rest
      rw [List.foldl_cons, split]
      exact .hit (by simpa using others) hit rest

theorem newly_eq_mapIdx (lag issued : Nat) (orders : List Order) :
    newly lag issued orders =
      orders.mapIdx fun i o => ⟨o.withExchangeId (orderId (issued + i + 1)), lag⟩ := by
  induction orders generalizing issued with
  | nil => rfl
  | cons o rest ih =>
    rw [newly, ih, List.mapIdx_cons]
    simp only [Nat.add_zero, Nat.add_right_comm issued, Nat.add_assoc]

theorem issued_foldl_rest (x : Exchange) (orders : List Order) :
    (orders.foldl rest x).issued = x.issued + orders.length := by
  induction orders generalizing x with
  | nil => rfl
  | cons o others ih =>
    rw [List.foldl_cons, ih, List.length_cons]
    simp only [rest]
    omega

theorem foldl_apply_of_unplaced {ops : List Operation} (unplaced : ∀ op ∈ ops, op.placed = none)
    (x : Exchange) :
    ops.foldl apply x = (ops.filterMap Operation.target).foldl remove x := by
  induction ops generalizing x with
  | nil => rfl
  | cons op later ih =>
    obtain ⟨first, others⟩ := List.forall_mem_cons.mp unplaced
    cases op with
    | cancel target _ => exact ih others (x.remove target)
    | place o => cases first
    | crank | settle | redeem => exact ih others x

theorem foldl_apply_of_untargeted {ops : List Operation}
    (untargeted : ∀ op ∈ ops, op.target = none) (x : Exchange) :
    ops.foldl apply x = (ops.filterMap Operation.placed).foldl rest x := by
  induction ops generalizing x with
  | nil => rfl
  | cons op later ih =>
    obtain ⟨first, others⟩ := List.forall_mem_cons.mp untargeted
    cases op with
    | cancel target _ => cases first
    | place o => exact ih others (x.rest o)
    | crank | settle | redeem => exact ih others x

-- Cancels before places: what a list of operations does, told by what it takes off the book and by
-- what it puts there.
theorem foldl_apply_append {first others : List Operation}
    (unplaced : ∀ op ∈ first, op.placed = none) (untargeted : ∀ op ∈ others, op.target = none)
    (x : Exchange) :
    (first ++ others).foldl apply x =
      ((first ++ others).filterMap Operation.placed).foldl rest
        (((first ++ others).filterMap Operation.target).foldl remove x) := by
  have orders : first.filterMap Operation.placed = [] := List.filterMap_eq_nil_iff.mpr unplaced
  have targets : others.filterMap Operation.target = [] := List.filterMap_eq_nil_iff.mpr untargeted
  rw [List.foldl_append, foldl_apply_of_unplaced unplaced, foldl_apply_of_untargeted untargeted,
    List.filterMap_append, List.filterMap_append, orders, targets, List.nil_append,
    List.append_nil]

theorem foldl_apply_ofList (ops : List Operation) (x : Exchange) :
    let b := Batch.ofList ops
    b.toList.foldl apply x =
      (b.toList.filterMap Operation.placed).foldl rest
        ((b.toList.filterMap Operation.target).foldl remove x) := by
  intro b
  have unplaced : ∀ op ∈ b.cancels, op.placed = none := fun op here =>
    Operation.placed_of_group (Batch.group_of_mem (g := .cancels) here)
  have untargeted : ∀ op ∈ b.places ++ b.cranks ++ b.settlements, op.target = none := by
    intro op here
    refine Operation.target_of_group fun cancel => ?_
    simp only [List.mem_append] at here
    rcases here with (place | crank) | settlement
    · cases cancel.symm.trans (Batch.group_of_mem (g := .places) place)
    · cases cancel.symm.trans (Batch.group_of_mem (g := .cranks) crank)
    · cases cancel.symm.trans (Batch.group_of_mem (g := .settlements) settlement)
  have split : b.toList = b.cancels ++ (b.places ++ b.cranks ++ b.settlements) := by
    simp [Batch.toList]
  rw [split]
  exact foldl_apply_append unplaced untargeted x

structure Applies (x : Exchange) (b : Batch) (y : Exchange) : Prop where
  book : ∃ left, Cancels x.resting (b.toList.filterMap Operation.target) left ∧
    y.resting = left ++ (b.toList.filterMap Operation.placed).mapIdx fun i o =>
      ⟨o.withExchangeId (orderId (x.issued + i + 1)), x.lag⟩
  issued : y.issued = x.issued + (b.toList.filterMap Operation.placed).length
  lag : y.lag = x.lag

theorem counted_count (r : Receipt) (op : Operation) (g : Group) :
    (count r op).counted g = if op.group = g then r.counted g + 1 else r.counted g := by
  cases op <;> cases g <;> rfl

theorem counted_foldl (ops : List Operation) (r : Receipt) (g : Group) :
    (ops.foldl count r).counted g = r.counted g + UInt64.ofNat (ops.countP (·.group = g)) := by
  induction ops generalizing r with
  | nil => simp
  | cons op rest ih =>
    rw [List.foldl_cons, ih, counted_count, List.countP_cons]
    by_cases own : op.group = g
    · simp [own, UInt64.add_assoc, UInt64.add_comm 1]
    · simp [own]

-- A batch is refused for the first reason there is, and then nothing happens to the book, or it is
-- applied as a whole, and the receipt counts all its operations.
theorem submit_atomic (x : Exchange) (ops : List Operation) :
    let b := Batch.ofList ops
    let answer := (Exchange.submit b x).1
    let after := (Exchange.submit b x).2
    (∀ e, answer = .error e ↔ x.Refuses b e) ∧
      match answer with
      | .error _ => x.Unchanged after
      | .ok receipt => x.Applies b after ∧
          ∀ g, receipt.counted g = UInt64.ofNat (b.group g).length := by
  intro b answer after
  refine ⟨x.submit_error b, ?_⟩
  rcases x.submit_cases b with ⟨e, y, refused, same⟩ | ⟨n, applied⟩
  · simp only [answer, after, refused]
    exact same
  · simp only [answer, after, applied]
    refine ⟨⟨?_, ?_, ?_⟩, fun g => ?_⟩
    · have cancelled := x.cancels_foldl_remove (b.toList.filterMap Operation.target)
      refine ⟨_, cancelled, ?_⟩
      simp only [b, foldl_apply_ofList, resting_foldl_rest, newly_eq_mapIdx, lag_foldl_remove,
        issued_foldl_remove]
    · simp only [b, foldl_apply_ofList, issued_foldl_rest, issued_foldl_remove]
    · simp only [b, foldl_apply_ofList, lag_foldl_rest, lag_foldl_remove]
    · have counted := counted_foldl b.toList ⟨signature n, 0, 0, 0, 0⟩ g
      have none : Receipt.counted ⟨signature n, 0, 0, 0, 0⟩ g = 0 := by cases g <;> rfl
      rw [counted, none, UInt64.zero_add, Batch.countP_toList]

end Exchange
end MarketMaking
