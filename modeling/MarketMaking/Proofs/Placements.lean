import Mathlib
import MarketMaking.Proofs.Atomicity
import MarketMaking.Proofs.Numbering

/-! Every order that was ever placed on an exchange, whoever traded on it, read off the requests
that it served. What rests is what is left of them, in the order in which they were placed
(`Told`). -/

namespace MarketMaking
namespace Exchange
variable {x y : Exchange} {lag : Nat}

structure Moment where
  before : Exchange
  request : Request

def moments (x : Exchange) : List Request → List Moment
  | [] => []
  | request :: later => ⟨x, request⟩ :: (x.serve request).moments later

theorem serveAll_append (x : Exchange) (requests later : List Request) :
    x.serveAll (requests ++ later) = (x.serveAll requests).serveAll later := by
  simp [serveAll]

theorem moments_append (x : Exchange) (requests later : List Request) :
    x.moments (requests ++ later) = x.moments requests ++ (x.serveAll requests).moments later := by
  induction requests generalizing x with
  | nil => rfl
  | cons request rest ih => exact congrArg (⟨x, request⟩ :: ·) (ih (x.serve request))

namespace Moment

def after (m : Moment) : Exchange := m.before.serve m.request

def lists (m : Moment) : Bool :=
  match m.request with
  | .fetch => (Exchange.fetch m.before).1.isOk
  | _ => false

def receipt? (m : Moment) : Option Receipt :=
  match m.request with
  | .submit b => (Exchange.submit b m.before).1.toOption
  | _ => none

def placed (m : Moment) : List Order :=
  match m.request with
  | .submit b =>
    if m.receipt?.isSome then
      (newly m.before.lag m.before.issued (b.toList.filterMap Operation.placed)).map (·.order)
    else []
  | _ => []

inductive Served (m : Moment) : Prop where
  | quiet : m.lists = false → m.receipt? = none → m.placed = [] →
    m.after.resting.Sublist m.before.resting → m.after.issued = m.before.issued →
    m.after.lag = m.before.lag → Served m
  | listed : m.lists = true → m.receipt? = none → m.placed = [] →
    m.after.resting = m.before.resting.map Resting.age → m.after.issued = m.before.issued →
    m.after.lag = m.before.lag → Served m
  | applied (ops : List Operation) (n : Nat) : m.lists = false →
    m.receipt? = some (ops.foldl count ⟨signature n, 0, 0, 0, 0⟩) →
    m.placed = (newly m.before.lag m.before.issued (ops.filterMap Operation.placed)).map (·.order) →
    m.after = { ops.foldl apply m.before with submissions := n } → Served m

theorem served (m : Moment) : m.Served := by
  obtain ⟨x, request⟩ := m
  cases request with
  | fetch =>
    by_cases failing : 0 < x.failingFetches
    · have answer : Exchange.fetch x = _ := if_pos failing
      have after : after ⟨x, .fetch⟩ = _ := congrArg Prod.snd answer
      have blind : lists ⟨x, .fetch⟩ = false := by simp only [lists, answer]; rfl
      exact .quiet blind rfl rfl (after ▸ List.Sublist.refl _) (after ▸ rfl) (after ▸ rfl)
    · have answer : Exchange.fetch x = _ := if_neg failing
      have after : after ⟨x, .fetch⟩ = _ := congrArg Prod.snd answer
      have listing : lists ⟨x, .fetch⟩ = true := by simp only [lists, answer]; rfl
      exact .listed listing rfl rfl (after ▸ rfl) (after ▸ rfl) (after ▸ rfl)
  | submit b =>
    rcases submit_cases b x with ⟨e, y, refused, lag, issued, resting⟩ | ⟨n, accepted⟩
    · have after : after ⟨x, .submit b⟩ = y := congrArg Prod.snd refused
      have none : receipt? ⟨x, .submit b⟩ = none := by simp only [receipt?, refused]; rfl
      refine .quiet rfl none (by simp [placed, none]) ?_ (after ▸ issued) (after ▸ lag)
      rw [after, resting]
    · have receipt : receipt? ⟨x, .submit b⟩ =
          some (b.toList.foldl count ⟨signature n, 0, 0, 0, 0⟩) := by
        simp only [receipt?, accepted]
        rfl
      exact .applied b.toList n rfl receipt (by simp [placed, receipt]) (congrArg Prod.snd accepted)
  | cancel target okIfMissing =>
    refine .quiet rfl rfl rfl ?_ ?_ ?_ <;> simp only [after, Exchange.serve, Exchange.cancel]
    · split
      · exact List.eraseP_sublist
      · split <;> exact List.Sublist.refl _
    · split
      · rfl
      · split <;> rfl
    · split
      · rfl
      · split <;> rfl
  | disturb d =>
    exact .quiet rfl rfl rfl (x.resting_disturb_sublist d) (x.issued_disturb d) (x.lag_disturb d)

end Moment

structure Placement where
  order : Order
  fetches : Nat
  deriving DecidableEq

def placements : List Moment → List Placement
  | [] => []
  | m :: since => m.placed.map (⟨·, since.countP Moment.lists⟩) ++ placements since

def Placement.later (p : Placement) (since : List Moment) : Placement :=
  { p with fetches := p.fetches + since.countP Moment.lists }

theorem placements_append (ms since : List Moment) :
    placements (ms ++ since) = (placements ms).map (·.later since) ++ placements since := by
  induction ms with
  | nil => rfl
  | cons m ms ih =>
    rw [List.cons_append, placements, placements, ih, List.map_append, List.append_assoc]
    simp [List.countP_append, Placement.later]

-- The placements so far tell the book: their orders have the ids issued so far, one after another,
-- and what rests is some of them, each hidden for as many fetches as it has still to wait.
structure Told (lag : Nat) (x : Exchange) (history : List Placement) : Prop where
  setup : x.lag = lag
  ids : history.map (·.order.exchangeId) = (List.range x.issued).map fun i => some (orderId (i + 1))
  book : ∃ left : List Placement, left.Sublist history ∧
    x.resting = left.map fun p => ⟨p.order, lag - p.fetches⟩

namespace Told
variable {history : List Placement}

theorem new (lag : Nat) : Told lag { lag } [] := ⟨rfl, rfl, [], .slnil, rfl⟩

theorem length (told : Told lag x history) : history.length = x.issued := by
  simpa using congrArg List.length told.ids

theorem uniqueIds (told : Told lag x history) : (history.map (·.order.exchangeId)).Nodup := by
  rw [told.ids]
  refine List.nodup_range.map fun i j same => ?_
  exact Nat.succ.inj (orderId_injective (Option.some.inj same))

theorem unique (told : Told lag x history) : (history.map (·.order)).Nodup := by
  refine List.Nodup.of_map Order.exchangeId ?_
  rw [List.map_map]
  exact told.uniqueIds

theorem orders (told : Told lag x history) : x.orders.Sublist (history.map (·.order)) := by
  obtain ⟨left, kept, resting⟩ := told.book
  rw [Exchange.orders, resting, List.map_map]
  exact kept.map _

theorem fewer (told : Told lag x history) (part : y.resting.Sublist x.resting)
    (issued : y.issued = x.issued) (same : y.lag = x.lag) : Told lag y history := by
  obtain ⟨left, kept, resting⟩ := told.book
  rw [resting] at part
  obtain ⟨fewer, sub, eq⟩ := List.sublist_map_iff.mp part
  exact ⟨same.trans told.setup, issued ▸ told.ids, fewer, sub.trans kept, eq⟩

theorem age (told : Told lag x history) (aged : y.resting = x.resting.map Resting.age)
    (issued : y.issued = x.issued) (same : y.lag = x.lag) :
    Told lag y (history.map fun p => { p with fetches := p.fetches + 1 }) := by
  obtain ⟨left, kept, resting⟩ := told.book
  refine ⟨same.trans told.setup, ?_, _, kept.map _, ?_⟩
  · simpa [issued, Function.comp_def] using told.ids
  · simp [aged, resting, Resting.age, Nat.sub_add_eq]

theorem rest (told : Told lag x history) (o : Order) :
    Told lag (x.rest o) (history ++ [⟨o.withExchangeId (orderId (x.issued + 1)), 0⟩]) := by
  obtain ⟨left, kept, resting⟩ := told.book
  refine ⟨told.setup, ?_, left ++ [_], kept.append (List.Sublist.refl _), ?_⟩
  · simp [Exchange.rest, List.range_succ, told.ids]
  · simp [Exchange.rest, resting, told.setup]

theorem foldl_apply (told : Told lag x history) (ops : List Operation) :
    Told lag (ops.foldl Exchange.apply x)
      (history ++ (newly lag x.issued (ops.filterMap Operation.placed)).map (⟨·.order, 0⟩)) := by
  induction ops generalizing x history with
  | nil => simpa [newly] using told
  | cons op later ih =>
    cases op with
    | cancel target _ =>
      have removed : Told lag (x.remove target) history :=
        told.fewer List.eraseP_sublist rfl rfl
      exact ih removed
    | place o =>
      have next := ih (told.rest o)
      rw [List.append_assoc] at next
      exact next
    | crank | settle | redeem => exact ih told

theorem after {m : Moment} (told : Told lag m.before history) :
    Told lag m.after (history.map (·.later [m]) ++ placements [m]) := by
  cases m.served with
  | quiet blind _ none part issued same =>
    simpa [Placement.later, placements, blind, none] using told.fewer part issued same
  | listed listing _ none aged issued same =>
    simpa [Placement.later, placements, listing, none] using told.age aged issued same
  | applied ops n blind _ placed after =>
    have applied := (told.foldl_apply ops).fewer (y := m.after) (after ▸ List.Sublist.refl _)
      (after ▸ rfl) (after ▸ rfl)
    simpa [Placement.later, placements, blind, placed, told.setup, Function.comp_def] using applied

end Told

theorem told (lag : Nat) (requests : List Request) :
    Told lag (({ lag } : Exchange).serveAll requests)
      (placements (({ lag } : Exchange).moments requests)) := by
  induction requests using List.reverseRecOn with
  | nil => exact .new lag
  | append_singleton requests request ih =>
    rw [serveAll_append, moments_append, placements_append]
    exact Told.after (m := ⟨_, request⟩) ih

theorem length_filterMap_placed (ops : List Operation) :
    (ops.filterMap Operation.placed).length = ops.countP (·.group = .places) := by
  rw [List.length_filterMap_eq_countP]
  refine List.countP_congr fun op _ => ?_
  cases op <;> simp [Operation.placed, Operation.group]

theorem length_newly (lag issued : Nat) (orders : List Order) :
    (newly lag issued orders).length = orders.length := by
  rw [newly_eq_mapIdx, List.length_mapIdx]

theorem Moment.placed_receipt (m : Moment) (few : m.placed.length < 2 ^ 64) :
    m.receipt?.elim 0 (·.placed.toNat) = m.placed.length := by
  cases m.served with
  | quiet _ none placed | listed _ none placed => simp [none, placed]
  | applied ops n _ receipt placed =>
    have length : m.placed.length = ops.countP (·.group = .places) := by
      rw [placed, List.length_map, length_newly, length_filterMap_placed]
    have counted := counted_foldl ops ⟨signature n, 0, 0, 0, 0⟩ .places
    have number : (ops.foldl count ⟨signature n, 0, 0, 0, 0⟩).placed =
        UInt64.ofNat m.placed.length := by
      rw [length]
      exact counted.trans (UInt64.zero_add _)
    rw [receipt, Option.elim_some, number, UInt64.toNat_ofNat', Nat.mod_eq_of_lt few]

theorem sum_receipts {ms : List Moment} (few : (placements ms).length < 2 ^ 64) :
    ((ms.filterMap Moment.receipt?).map (·.placed.toNat)).sum = (placements ms).length := by
  induction ms with
  | nil => rfl
  | cons m since ih =>
    rw [placements, List.length_append, List.length_map] at few ⊢
    have own := m.placed_receipt (by omega)
    rw [← ih (by omega), ← own]
    cases returned : m.receipt? <;> simp [returned]

-- How a run of requests gives out exchange ids: the `k`-th order placed gets the number `k`, which
-- no other order ever gets, and the receipts account for all of them.
structure IssuesOnce (moments : List Moment) (x : Exchange) : Prop where
  book : x.Numbered
  resting : x.orders.Sublist ((placements moments).map (·.order))
  counted : x.issued = ((moments.filterMap Moment.receipt?).map (·.placed.toNat)).sum
  ids : (placements moments).map (·.order.exchangeId) =
    (List.range x.issued).map fun i => some (orderId (i + 1))
  unique : ((placements moments).map (·.order.exchangeId)).Nodup
  designated : ∀ target : Order, target.exchangeId ≠ none →
    (placements moments).countP (target.designates ·.order) ≤ 1

theorem exchangeIds_issued_once (lag : Nat) (requests : List Request)
    (few : (placements (({ lag } : Exchange).moments requests)).length < 2 ^ 64) :
    IssuesOnce (({ lag } : Exchange).moments requests)
      (({ lag } : Exchange).serveAll requests) := by
  have told := told lag requests
  have reached : (({ lag } : Exchange).serveAll requests).Reachable := ⟨lag, requests, rfl⟩
  refine ⟨reached.numbered, told.orders, ?_, told.ids, told.uniqueIds, ?_⟩
  · rw [sum_receipts few, told.length]
  · intro target named
    obtain ⟨id, named⟩ := Option.ne_none_iff_exists'.mp named
    have once := List.nodup_iff_count_le_one.mp told.uniqueIds (some id)
    rw [List.count, List.countP_map] at once
    refine Nat.le_trans (Nat.le_of_eq (List.countP_congr fun p _ => ?_)) once
    simp [Order.designates, named]

-- Three orders come with an exchange id of their own. The first is cancelled, the second is filled,
-- and a batch in between is refused; the third still gets a number of its own.
theorem exchangeIds_issued_once_after_removals :
    let o : Order := ⟨.buy, .one, .one, .limit, some "paper-1", some ⟨7⟩⟩
    let requests : List Request := [.submit (.ofList [.place o, .place o]), .cancel o false,
      .submit (.ofList [.cancel o false, .place o]), .disturb (.fill ⟨7⟩), .fetch,
      .submit (.ofList [.place o])]
    let moments := ({ lag := 1 } : Exchange).moments requests
    let x := ({ lag := 1 } : Exchange).serveAll requests
    (placements moments).length < 2 ^ 64 ∧ x.issued = 3 ∧ x.orders = [o.withExchangeId "paper-3"] ∧
      IssuesOnce moments x := by
  intro o requests moments x
  have few : (placements moments).length < 2 ^ 64 := by decide
  have issued : x.issued = 3 := by decide
  have left : x.orders = [o.withExchangeId "paper-3"] := by decide
  exact ⟨few, issued, left, exchangeIds_issued_once 1 requests few⟩

end Exchange
end MarketMaking
