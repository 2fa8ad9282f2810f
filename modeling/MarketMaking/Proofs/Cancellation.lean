import MarketMaking.Proofs.Atomicity
import MarketMaking.Proofs.Numbering

/-! What cancels come to. One by one or in a batch they do the same (`cancels_agree`). But a batch
is checked before any of it is applied, so a strict cancel in it can find nothing left. -/

namespace MarketMaking

theorem Batch.toList_cancels (orders : List Order) (okIfMissing : Bool) :
    (ofList (orders.map (.cancel · okIfMissing))).toList = orders.map (.cancel · okIfMissing) := by
  have added : ∀ b : Batch, (orders.map (.cancel · okIfMissing)).foldl add b =
      { b with cancels := b.cancels ++ orders.map (.cancel · okIfMissing) } := by
    induction orders with
    | nil => simp
    | cons o rest ih =>
      intro b
      rw [List.map_cons, List.foldl_cons, ih]
      simp [add]
  simp [ofList, added, toList, empty]

theorem Batch.getElem?_cancel {ops : List Operation} {i : Nat} :
    (∃ target okIfMissing, (ofList ops).toList[i]? = some (.cancel target okIfMissing)) ↔
      i < (ofList ops).cancels.length := by
  have split : (ofList ops).toList = (ofList ops).cancels ++
      ((ofList ops).places ++ (ofList ops).cranks ++ (ofList ops).settlements) := by
    simp [toList]
  constructor
  · rintro ⟨target, okIfMissing, here⟩
    by_contra late
    rw [split, List.getElem?_append_right (Nat.le_of_not_lt late)] at here
    have other := List.mem_of_getElem? here
    simp only [List.mem_append] at other
    rcases other with (place | crank) | settlement
    · cases group_of_mem (g := .places) place
    · cases group_of_mem (g := .cranks) crank
    · cases group_of_mem (g := .settlements) settlement
  · intro early
    have own := group_of_mem (g := .cancels) (List.getElem_mem early)
    rw [split, List.getElem?_append_left early, List.getElem?_eq_getElem early]
    cases op : (ofList ops).cancels[i] with
    | cancel target okIfMissing => exact ⟨target, okIfMissing, rfl⟩
    | place | crank | settle | redeem =>
      rw [op] at own
      cases own

namespace Exchange
variable {x : Exchange} {b : Batch} {ops : List Operation} {i j : Nat} {r : Resting}

theorem serveAll_cancels (x : Exchange) (orders : List Order) :
    x.serveAll (orders.map (.cancel · true)) = orders.foldl remove x := by
  rw [serveAll, List.foldl_map]
  simp only [Exchange.serve, cancel_true]

theorem foldl_apply_cancels (x : Exchange) (orders : List Order) (okIfMissing : Bool) :
    (orders.map (.cancel · okIfMissing)).foldl apply x = orders.foldl remove x := by
  rw [List.foldl_map]
  rfl

-- Lenient cancels do the same one by one as in one batch, which is then always accepted; and one
-- cancel, strict or not, fares the same on its own as in a batch of its own. Only the submissions
-- are counted.
theorem cancels_agree (working : x.failingSubmissions = 0) (accepting : x.rejectedSubmissions = 0) :
    (∀ orders : List Order,
      let b := Batch.ofList (orders.map (.cancel · true))
      let single := x.serveAll (orders.map (.cancel · true))
      (∃ receipt, (Exchange.submit b x).1 = .ok receipt) ∧
        (Exchange.submit b x).2 = { single with submissions := x.submissions + 1 }) ∧
    ∀ (target : Order) (okIfMissing : Bool),
      let b := Batch.ofList [.cancel target okIfMissing]
      let single := Exchange.cancel target okIfMissing x
      (Exchange.submit b x).1.map (fun _ => ()) = single.1 ∧
        (Exchange.submit b x).2 = { single.2 with submissions := x.submissions + 1 } := by
  refine ⟨fun orders => ?_, fun target okIfMissing => ?_⟩
  · have clear : (orders.map (Operation.cancel · true)).findSome? x.fault = none := by
      simp [fault]
    simp only [submit_working working accepting, Batch.toList_cancels, clear, serveAll_cancels,
      foldl_apply_cancels]
    exact ⟨⟨_, rfl⟩, trivial⟩
  · have one : (Batch.ofList [.cancel target okIfMissing]).toList = [.cancel target okIfMissing] :=
      rfl
    simp only [submit_working working accepting, one, List.findSome?_singleton, fault,
      Exchange.cancel]
    cases present : x.holds target with
    | true => simp [apply, Except.map]
    | false => cases okIfMissing <;> simp [apply, Except.map, remove_of_not_holds present]

theorem cancels_agree_on_repeats :
    let o : Order := ⟨.buy, .one, .one, .limit, none, some ⟨7⟩⟩
    let x := ({} : Exchange).serveAll [.submit (.ofList [.place o, .place o])]
    let orders := [o.withExchangeId "paper-2", o.withExchangeId "paper-2", o, o]
    let b := Batch.ofList (orders.map (.cancel · true))
    let strict := Batch.ofList [.cancel (o.withExchangeId "paper-3") false]
    x.failingSubmissions = 0 ∧ x.rejectedSubmissions = 0 ∧
      (Exchange.submit b x).2.resting = [] ∧
      (Exchange.submit b x).2 =
        { x.serveAll (orders.map (.cancel · true)) with submissions := x.submissions + 1 } ∧
      (Exchange.submit strict x).1.map (fun _ => ()) =
        (Exchange.cancel (o.withExchangeId "paper-3") false x).1 := by
  intro o x orders b strict
  have working : x.failingSubmissions = 0 := by decide
  have accepting : x.rejectedSubmissions = 0 := by decide
  have empty : (Exchange.submit b x).2.resting = [] := by decide
  obtain ⟨each, one⟩ := cancels_agree working accepting
  exact ⟨working, accepting, empty, (each orders).2, (one _ false).1⟩

def atTurn (x : Exchange) (b : Batch) (i : Nat) : Exchange := (b.toList.take i).foldl apply x

structure Takes (x : Exchange) (b : Batch) (i : Nat) (r : Resting) : Prop where
  rests : r ∈ (x.atTurn b i).resting
  gone : r ∉ (x.atTurn b (i + 1)).resting

-- What the strict cancels of a batch are to come to, but for exceptions: every one takes an order
-- that its target designates off the book, and no two take the same.
structure StrictlyCancels (x : Exchange) (b : Batch) (excepted : Nat → Order → Prop) : Prop where
  leaves : (Exchange.submit b x).2.resting = (x.atTurn b b.toList.length).resting
  present : ∀ (i : Nat) target, b.toList[i]? = some (.cancel target false) →
    ∃ r ∈ x.resting, target.designates r.order = true
  takes : ∀ (i : Nat) target, b.toList[i]? = some (.cancel target false) →
    ((∃ r, x.Takes b i r) ↔ ¬ excepted i target)
  own : ∀ (i : Nat) target okIfMissing r, b.toList[i]? = some (.cancel target okIfMissing) →
    x.Takes b i r → r ∈ x.resting ∧ target.designates r.order = true
  once : ∀ i j r, x.Takes b i r → x.Takes b j r → i = j

def Forestalled (x : Exchange) (b : Batch) (i : Nat) (target : Order) : Prop :=
  ∀ r ∈ x.resting, target.designates r.order = true → ∃ j < i, x.Takes b j r

theorem atTurn_succ {op : Operation} (here : b.toList[i]? = some op) :
    x.atTurn b (i + 1) = (x.atTurn b i).apply op := by
  simp [atTurn, List.take_add_one, here]

theorem atTurn_sublist (le : i ≤ j) (early : j ≤ (Batch.ofList ops).cancels.length) :
    (x.atTurn (.ofList ops) j).resting.Sublist (x.atTurn (.ofList ops) i).resting := by
  induction le with
  | refl => exact List.Sublist.refl _
  | @step k _ ih =>
    obtain ⟨target, okIfMissing, here⟩ := Batch.getElem?_cancel.mpr (Nat.lt_of_succ_le early)
    rw [atTurn_succ here]
    exact List.eraseP_sublist.trans (ih (Nat.le_of_succ_le early))

theorem Takes.target (takes : x.Takes b i r) : ∃ target okIfMissing,
    b.toList[i]? = some (.cancel target okIfMissing) ∧ target.designates r.order = true := by
  obtain ⟨rests, gone⟩ := takes
  cases here : b.toList[i]? with
  | none =>
    have same : x.atTurn b (i + 1) = x.atTurn b i := by simp [atTurn, List.take_add_one, here]
    exact absurd rests (same ▸ gone)
  | some op =>
    rw [atTurn_succ here] at gone
    cases op with
    | cancel target okIfMissing =>
      refine ⟨target, okIfMissing, rfl, ?_⟩
      by_contra other
      have kept : r ∈ ((x.atTurn b i).remove target).resting :=
        (List.mem_eraseP_of_neg (p := fun s : Resting => target.designates s.order) other).mpr rests
      exact gone kept
    | place o => exact absurd (List.mem_append_left _ rests) gone
    | crank | settle | redeem => exact absurd rests gone

theorem Takes.early (takes : x.Takes (.ofList ops) i r) :
    i < (Batch.ofList ops).cancels.length := by
  obtain ⟨target, okIfMissing, here, -⟩ := takes.target
  exact Batch.getElem?_cancel.mp ⟨target, okIfMissing, here⟩

theorem Takes.rested (takes : x.Takes (.ofList ops) i r) : r ∈ x.resting :=
  (atTurn_sublist (Nat.zero_le i) (Nat.le_of_lt takes.early)).subset takes.rests

theorem Takes.le (one : x.Takes (.ofList ops) i r) (other : x.Takes (.ofList ops) j r) : j ≤ i := by
  by_contra later
  exact one.gone ((atTurn_sublist (Nat.lt_of_not_le later) (Nat.le_of_lt other.early)).subset
    other.rests)

theorem taken_before (here : r ∈ x.resting) (gone : r ∉ (x.atTurn b i).resting) :
    ∃ j < i, x.Takes b j r := by
  induction i with
  | zero => exact absurd here gone
  | succ i ih =>
    by_cases rests : r ∈ (x.atTurn b i).resting
    · exact ⟨i, Nat.lt_succ_self i, rests, gone⟩
    · obtain ⟨j, lt, takes⟩ := ih rests
      exact ⟨j, Nat.lt_succ_of_lt lt, takes⟩

theorem exists_removed {target : Order} (unique : x.resting.Nodup) (here : r ∈ x.resting)
    (designated : target.designates r.order = true) :
    ∃ s ∈ x.resting, s ∉ (x.remove target).resting := by
  obtain ⟨s, before, after, -, -, split, left⟩ :=
    List.exists_of_eraseP (p := fun r => target.designates r.order) here designated
  have removed : (x.remove target).resting = before ++ after := left
  rw [split] at unique ⊢
  rw [removed]
  exact ⟨s, by simp, (List.nodup_cons.mp (List.nodup_middle.mp unique)).1⟩

theorem Numbered.distinct (numbered : x.Numbered) : x.resting.Nodup := numbered.unique.of_map _

theorem fault_of_accepted (accepted : (Exchange.submit b x).1 = .ok receipt) :
    ∀ op ∈ b.toList, x.fault op = none := by
  have never : ∀ e, ¬ x.Refuses b e := by
    intro e refuses
    cases accepted.symm.trans ((x.submit_error b e).mpr refuses)
  have working : x.failingSubmissions = 0 :=
    Nat.eq_zero_of_not_pos fun failing => never _ (.failing failing)
  have accepting : x.rejectedSubmissions = 0 :=
    Nat.eq_zero_of_not_pos fun rejecting => never _ (.rejecting working rejecting)
  refine List.findSome?_eq_none_iff.mp ?_
  cases found : b.toList.findSome? x.fault with
  | none => rfl
  | some e => cases accepted.symm.trans ((submit_checked working accepting b).mpr found)

theorem strict_cancels_take (reached : x.Reachable)
    (accepted : (Exchange.submit (.ofList ops) x).1 = .ok receipt) :
    x.StrictlyCancels (.ofList ops) (x.Forestalled (.ofList ops)) := by
  refine ⟨?_, ?_, ?_, ?_, ?_⟩
  · rcases submit_cases (.ofList ops) x with ⟨e, y, refused, -⟩ | ⟨n, applied⟩
    · rw [refused] at accepted
      cases accepted
    · rw [applied, atTurn, List.take_length]
  · intro i target here
    have sound := fault_of_accepted accepted _ (List.mem_of_getElem? here)
    have present : x.holds target = true := by simpa [fault] using sound
    exact List.any_eq_true.mp present
  · intro i target here
    have early := Batch.getElem?_cancel.mp ⟨target, false, here⟩
    have part : (x.atTurn (.ofList ops) i).resting.Sublist x.resting :=
      atTurn_sublist (Nat.zero_le i) (Nat.le_of_lt early)
    constructor
    · rintro ⟨r, takes⟩ forestalled
      obtain ⟨_, _, same, designated⟩ := takes.target
      cases here.symm.trans same
      obtain ⟨j, lt, before⟩ := forestalled r takes.rested designated
      exact Nat.not_le_of_lt lt (before.le takes)
    · intro free
      -- some order it designates still rests at its turn
      simp only [Forestalled, not_forall] at free
      obtain ⟨r, here', designated, free⟩ := free
      have rests : r ∈ (x.atTurn (.ofList ops) i).resting := by
        by_contra gone
        exact free (taken_before here' gone)
      obtain ⟨s, rests, gone⟩ :=
        exists_removed (reached.numbered.distinct.sublist part) rests designated
      exact ⟨s, rests, by rwa [atTurn_succ here]⟩
  · intro i target okIfMissing r here takes
    obtain ⟨_, _, same, designated⟩ := takes.target
    cases here.symm.trans same
    exact ⟨takes.rested, designated⟩
  · exact fun i j r one other => Nat.le_antisymm (other.le one) (one.le other)

-- Both cancels pass the check, which finds their order on the book. The first takes it, the second
-- takes nothing, and the receipt counts two.
theorem repeated_strict_cancel_ignored :
    let o : Order := ⟨.buy, .one, .one, .limit, none, some ⟨7⟩⟩
    let x := ({} : Exchange).serveAll [.submit (.ofList [.place o])]
    let b := Batch.ofList [.cancel o false, .cancel (o.withExchangeId "paper-1") false]
    x.Reachable ∧ (Exchange.submit b x).1 = .ok ⟨"paper-tx-2", 2, 0, 0, 0⟩ ∧
      ¬ x.StrictlyCancels b fun _ _ => False := by
  intro o x b
  have accepted : (Exchange.submit b x).1 = .ok ⟨"paper-tx-2", 2, 0, 0, 0⟩ := by decide
  have second : b.toList[1]? = some (.cancel (o.withExchangeId "paper-1") false) := by decide
  have empty : (x.atTurn b 1).resting = [] := by decide
  refine ⟨⟨0, _, rfl⟩, accepted, fun strict => ?_⟩
  obtain ⟨r, takes⟩ := (strict.takes 1 _ second).mpr not_false
  have rests := takes.rests
  rw [empty] at rests
  cases rests

theorem strict_cancels_forestalled :
    let o : Order := ⟨.buy, .one, .one, .limit, none, some ⟨7⟩⟩
    let x := ({} : Exchange).serveAll [.submit (.ofList [.place o, .place o])]
    let ops : List Operation := [.cancel o false, .cancel (o.withExchangeId "paper-1") false,
      .cancel o true, .cancel o false]
    x.Reachable ∧ (Exchange.submit (.ofList ops) x).1 = .ok ⟨"paper-tx-2", 4, 0, 0, 0⟩ ∧
      x.StrictlyCancels (.ofList ops) (x.Forestalled (.ofList ops)) := by
  intro o x ops
  have reached : x.Reachable := ⟨0, _, rfl⟩
  have accepted : (Exchange.submit (.ofList ops) x).1 = .ok ⟨"paper-tx-2", 4, 0, 0, 0⟩ := by decide
  exact ⟨reached, accepted, strict_cancels_take reached accepted⟩

end Exchange
end MarketMaking
