import Mathlib
import MarketMaking.Proofs.Convergence

/-! Upkeep never alters quoting: of two makers that differ only in it, one may submit where the
other finds nothing to submit, and still they track the same orders and keep the same book. -/

namespace MarketMaking
open Process

structure Upkeep where
  crankEachPulse : Bool
  settleEachPulse : Bool
  redeemThreshold : Option Decimal

def CycleConfig.withUpkeep (c : CycleConfig) (u : Upkeep) : CycleConfig :=
  { c with
    crankEachPulse := u.crankEachPulse
    settleEachPulse := u.settleEachPulse
    redeemThreshold := u.redeemThreshold }

def Maker.withUpkeep (m : Maker) (u : Upkeep) : Maker :=
  { m with config := m.config.withUpkeep u }

def ModelState.withIncentives (s : ModelState) (incentives : Decimal) : ModelState :=
  { s with inventory := { s.inventory with incentives } }

structure Producer (π : Type) where
  quote : ModelState → π → Checked (Except ProducerError Quote × π)

def Producer.IgnoresIncentives (p : Producer π) : Prop :=
  ∀ state incentives memory,
    p.quote (state.withIncentives incentives) memory = p.quote state memory

def PulseOutcome.kind : PulseOutcome → PulseOutcome
  | .completed _ => .completed none
  | outcome => outcome

variable {w : Surroundings τ} {w' : Surroundings τ'} {m m' : Maker} {f g : Floor τ}
  {f' g' : Floor τ'} {x x' : Exchange}

namespace Exchange

theorem fault_lasting {op : Operation} (faulty : x.fault op = some e) : e.isTransient = false := by
  cases op with
  | cancel target okIfMissing =>
    simp only [fault] at faulty
    split at faulty
    · cases faulty
    · cases faulty; rfl
  | place o =>
    simp only [fault] at faulty
    split at faulty
    · cases faulty; rfl
    · split at faulty
      · cases faulty; rfl
      · cases faulty
  | crank | settle | redeem => cases faulty

def refusal (orders : List Order) : Option RemoteError :=
  (orders.map .place).findSome? (fault {})

theorem lasting_of_refusal {orders : List Order} (wrong : refusal orders = some e) :
    e.isTransient = false := by
  obtain ⟨op, -, faulty⟩ := List.exists_of_findSome?_eq_some wrong
  exact fault_lasting faulty

theorem findSome?_fault_instructions (m : Maker) (incentives : Decimal)
    (targets orders : List Order) (x : Exchange) :
    (m.instructions incentives targets orders).findSome? x.fault = refusal orders := by
  have cancels : (targets.map (Operation.cancel · true)).findSome? x.fault = none := by
    simp [List.findSome?_eq_none_iff, fault]
  have upkept : (m.upkeep incentives).findSome? x.fault = none := by
    simp only [Maker.upkeep]
    cases m.config.crankEachPulse <;> cases m.config.settleEachPulse <;>
      cases m.redeems incentives <;> rfl
  have places : (orders.map Operation.place).findSome? x.fault = refusal orders := by
    simp only [refusal, List.findSome?_map]
    rfl
  simp only [Maker.instructions, List.findSome?_append, cancels, places, upkept, Option.none_or,
    Option.or_none]

-- Submitted to a healthy exchange, a batch fares as its orders to place do: it is refused for the
-- first one at fault, or all its trades are made.
theorem submit_assemble (healthy : x.Healthy) (m : Maker) (incentives : Decimal)
    (targets orders : List Order) :
    ∃ y, y.Healthy ∧
      match refusal orders with
      | some e => Exchange.submit (m.assemble incentives targets orders) x = (.error e, y) ∧
          x.Unchanged y
      | none => ∃ receipt,
          Exchange.submit (m.assemble incentives targets orders) x = (.ok receipt, y) ∧
            (orders.foldl rest (targets.foldl remove x)).Unchanged y := by
  have checked := submit_working healthy.submissions healthy.rejections
    (m.assemble incentives targets orders)
  simp only [Maker.toList_assemble, findSome?_fault_instructions] at checked
  cases wrong : refusal orders with
  | some e =>
    simp only [wrong] at checked
    exact ⟨{ x with submissions := x.submissions + 1 },
      ⟨healthy.fetches, healthy.submissions, healthy.rejections⟩, checked, rfl, rfl, rfl⟩
  | none =>
    simp only [wrong, Maker.foldl_apply_instructions] at checked
    have after := healthy.foldl_apply (m.instructions incentives targets orders)
    rw [Maker.foldl_apply_instructions] at after
    refine ⟨{ orders.foldl rest (targets.foldl remove x) with submissions := x.submissions + 1 },
      ⟨after.fetches, after.submissions, after.rejections⟩, _, checked, rfl, rfl, rfl⟩

theorem Unchanged.rest (same : x.Unchanged x') (o : Order) : (x.rest o).Unchanged (x'.rest o) := by
  obtain ⟨lag, issued, resting⟩ := same
  refine ⟨lag, ?_, ?_⟩
  · simp only [Exchange.rest, issued]
  · simp only [Exchange.rest, issued, resting, lag]

theorem Unchanged.remove (same : x.Unchanged x') (target : Order) :
    (x.remove target).Unchanged (x'.remove target) :=
  ⟨same.1, same.2.1, by simp only [Exchange.remove, same.2.2]⟩

theorem Unchanged.traded (same : x.Unchanged x') (targets orders : List Order) :
    (orders.foldl Exchange.rest (targets.foldl Exchange.remove x)).Unchanged
      (orders.foldl Exchange.rest (targets.foldl Exchange.remove x')) := by
  induction targets generalizing x x' with
  | cons t later ih => exact ih (same.remove t)
  | nil =>
    induction orders generalizing x x' with
    | nil => exact same
    | cons o later ih => exact ih (same.rest o)

theorem Unchanged.through (same : x.Unchanged x') {y y' : Exchange} (one : x.Unchanged y)
    (other : x'.Unchanged y') : y.Unchanged y' := by
  obtain ⟨lag, issued, resting⟩ := same
  exact ⟨other.1.trans (lag.trans one.1.symm), other.2.1.trans (issued.trans one.2.1.symm),
    other.2.2.trans (resting.trans one.2.2.symm)⟩

theorem Unchanged.fill (same : x.Unchanged x') (id : ClientId) :
    (Exchange.fill id x).1 = (Exchange.fill id x').1 ∧
      (Exchange.fill id x).2.Unchanged (Exchange.fill id x').2 := by
  have orders : x'.orders = x.orders := congrArg (List.map Resting.order) same.2.2
  simp only [Exchange.fill, orders]
  cases x.orders.find? (·.clientId == some id) with
  | none => exact ⟨rfl, same⟩
  | some o => exact ⟨rfl, same.1, same.2.1, by simp only [same.2.2]⟩

theorem Healthy.fill (healthy : x.Healthy) (id : ClientId) : (Exchange.fill id x).2.Healthy := by
  simp only [Exchange.fill]
  cases x.orders.find? (·.clientId == some id) with
  | none => exact healthy
  | some o => exact ⟨healthy.fetches, healthy.submissions, healthy.rejections⟩

end Exchange

structure Maker.Twins (m m' : Maker) : Prop where
  reconciler : m'.reconciler = m.reconciler
  tracker : m'.tracker = m.tracker
  draws : m'.draws = m.draws

namespace Maker

theorem twins_withUpkeep (m : Maker) (u u' : Upkeep) :
    (m.withUpkeep u).Twins (m.withUpkeep u') := ⟨rfl, rfl, rfl⟩

theorem placeAll_twins (twins : m.Twins m') (b : Batch) (orders : List Order) :
    (m'.placeAll b orders).1 = (m.placeAll b orders).1 ∧
      (m.placeAll b orders).2.Twins (m'.placeAll b orders).2 := by
  induction orders generalizing m m' b with
  | nil => exact ⟨rfl, twins⟩
  | cons o rest ih =>
    unfold placeAll
    rw [twins.tracker, twins.draws]
    cases m.tracker.nextId m.draws with
    | none => exact ⟨rfl, twins⟩
    | some found =>
      simp only
      cases m.tracker.track (o.withClientId found.1) with
      | error e => exact ⟨rfl, ⟨twins.reconciler, rfl, rfl⟩⟩
      | ok tracker =>
        have next :
            Twins { m with draws := found.2, tracker } { m' with draws := found.2, tracker } :=
          ⟨twins.reconciler, rfl, rfl⟩
        exact ih next _

theorem prepare_twins (twins : m.Twins m') (desired listing : List Order)
    (incentives incentives' : Decimal) :
    ∃ n n', n.Twins n' ∧
      ((∃ stop, m.prepare desired incentives listing = (.error stop, n) ∧
          m'.prepare desired incentives' listing = (.error stop, n')) ∨
        ∃ targets orders,
          m.prepare desired incentives listing =
            (.ok ⟨m.assemble incentives targets orders, targets.filterMap (·.clientId)⟩, n) ∧
          m'.prepare desired incentives' listing =
            (.ok ⟨m'.assemble incentives' targets orders, targets.filterMap (·.clientId)⟩,
              n')) := by
  have observed : (m.observe listing).Twins (m'.observe listing) :=
    ⟨twins.reconciler, by simp only [observe, twins.tracker], twins.draws⟩
  cases plans : m.reconciler.plan (m.tracker.existing listing).1 desired with
  | error o =>
    refine ⟨_, _, observed, .inl ⟨.halted (.overflow o), ?_, ?_⟩⟩
    · simp only [prepare, plans, observe]
    · simp only [prepare, plans, observe, twins.tracker, twins.reconciler]
  | ok plan =>
    have plans' : m'.reconciler.plan (m'.tracker.existing listing).1 desired = .ok plan := by
      rw [twins.reconciler, twins.tracker, plans]
    obtain ⟨answers, after⟩ := placeAll_twins observed
      (Batch.ofList (plan.toCancel.map (.cancel · true))) plan.toPlace
    rcases placed : (m.observe listing).placeAll
      (Batch.ofList (plan.toCancel.map (.cancel · true))) plan.toPlace with ⟨answer, n⟩
    rcases placed' : (m'.observe listing).placeAll
      (Batch.ofList (plan.toCancel.map (.cancel · true))) plan.toPlace with ⟨answer', n'⟩
    rw [placed, placed'] at answers after
    obtain rfl : answer' = answer := answers
    rw [prepare_of_placed plans placed, prepare_of_placed plans' placed']
    refine ⟨n, n', after, ?_⟩
    cases answer' with
    | error stop => exact .inl ⟨stop, rfl, rfl⟩
    | ok b =>
      obtain ⟨ids, -, rfl⟩ := placeAll_batch placed
      exact .inr ⟨plan.toCancel, tagged ids plan.toPlace, rfl, rfl⟩

end Maker

namespace Maker

theorem fetch_from_calm (m : Maker) (calm : w.Calm) (healthy : f.exchange.Healthy) :
    ∃ g, (m.fetch w.venue).from f = (some (.ok f.exchange.visible), g) ∧ g.exchange.Healthy ∧
      f.Lists f.exchange.visible g := by
  obtain ⟨g, fetched, still⟩ := m.fetch_calm calm healthy
  have ends := m.fetch_ends calm.noFills.fades f
  rw [fetched] at ends
  obtain ⟨h, drifts, lists⟩ := ends
  exact ⟨g, fetched, still, rfl, lists.lag.trans drifts.lag, lists.issued.trans drifts.issued,
    drifts.resting ▸ lists.resting, lists.listed⟩

theorem submit_from_calm (m : Maker) (calm : w.Calm) {b : Batch}
    (submitted : Exchange.submit b f.exchange = (answer, x))
    (lasting : ∀ e, answer = .error e → e.isTransient = false) :
    (m.submit w.venue b).from f =
      (some answer, { f with exchange := x, rest := (w.request f.rest).2 }) := by
  have answered : (w.venue.submit b).from f =
      (some answer, { f with exchange := x, rest := (w.request f.rest).2 }) := by
    refine (from_bind_of_some (calm.request_from f)).trans ?_
    simp only [Floor.ask, from_mk, submitted]
  cases answer with
  | ok receipt => exact m.submitPolicy.runTransient_of_ok answered
  | error e => exact m.submitPolicy.runTransient_of_lasting (lasting e rfl) answered

theorem cancel_from_calm (m : Maker) (calm : w.Calm) (target : Order) (f : Floor τ) :
    (m.cancel w.venue target).from f =
      (some (.ok ()), { f with
        exchange := f.exchange.remove target, rest := (w.request f.rest).2 }) := by
  refine m.submitPolicy.runTransient_of_ok ?_
  refine (from_bind_of_some (calm.request_from f)).trans ?_
  simp only [Floor.ask, from_mk, Exchange.cancel_true]

end Maker

-- What a pulse comes to once its trades are planned, whatever the upkeep: it fails for what is
-- wrong with the orders to place, or makes the trades and forgets what it cancelled. Without
-- trades there may be nothing to submit, which makes no difference.
theorem Maker.tryPulse_planned {n : Maker} {targets orders desired listing : List Order}
    (calm : w.Calm) (healthy : g.exchange.Healthy) (u : Maker)
    (fetched : (m.fetch w.venue).from f = (some (.ok listing), g))
    (prepared : m.prepare desired incentives listing =
      (.ok ⟨u.assemble incentives targets orders, targets.filterMap (·.clientId)⟩, n)) :
    ∃ k : Floor τ, k.exchange.Healthy ∧
      match Exchange.refusal orders with
      | some e => g.exchange.Unchanged k.exchange ∧
          m.tryPulse w.venue (.ok (.live desired)) incentives f =
            (.error (.failed (.remote e)), n, k)
      | none =>
          (orders.foldl Exchange.rest (targets.foldl Exchange.remove g.exchange)).Unchanged
              k.exchange ∧
            ∃ receipt, m.tryPulse w.venue (.ok (.live desired)) incentives f =
              (.ok (.completed receipt), (targets.filterMap (·.clientId)).foldl untrack n, k) := by
  unfold tryPulse
  simp only [fetched, prepared]
  cases empty : (u.assemble incentives targets orders).isEmpty with
  | true =>
    obtain ⟨rfl, rfl⟩ := trades_of_isEmpty empty
    exact ⟨g, healthy, ⟨rfl, rfl, rfl⟩, none, rfl⟩
  | false =>
    obtain ⟨x, still, fares⟩ := Exchange.submit_assemble healthy u incentives targets orders
    refine ⟨{ g with exchange := x, rest := (w.request g.rest).2 }, still, ?_⟩
    revert fares
    cases wrong : Exchange.refusal orders with
    | some e =>
      rintro ⟨submitted, same⟩
      have lasting : e.isTransient = false := Exchange.lasting_of_refusal wrong
      have ended := n.submit_from_calm calm submitted (by rintro _ ⟨⟩; exact lasting)
      simp only [ended, Bool.false_eq_true, if_false]
      exact ⟨same, trivial⟩
    | none =>
      rintro ⟨receipt, submitted, traded⟩
      have ended := n.submit_from_calm calm submitted nofun
      simp only [ended, Bool.false_eq_true, if_false]
      exact ⟨traded, some receipt, rfl⟩

structure Alike (m : Maker) (f : Floor τ) (m' : Maker) (f' : Floor τ') : Prop where
  twins : m.Twins m'
  book : f.exchange.Unchanged f'.exchange
  healthy : f.exchange.Healthy
  healthy' : f'.exchange.Healthy

namespace Alike

theorem fetched (alike : Alike m f m' f') (calm : w.Calm) (calm' : w'.Calm) :
    ∃ listing g g', (m.fetch w.venue).from f = (some (.ok listing), g) ∧
      (m'.fetch w'.venue).from f' = (some (.ok listing), g') ∧ Alike m g m' g' := by
  obtain ⟨g, fetched, still, lists⟩ := m.fetch_from_calm calm alike.healthy
  obtain ⟨g', fetched', still', lists'⟩ := m'.fetch_from_calm calm' alike.healthy'
  have visible : f'.exchange.visible = f.exchange.visible := by
    rw [Exchange.visible, alike.book.2.2, Exchange.visible]
  rw [visible] at fetched'
  have book : g.exchange.Unchanged g'.exchange := by
    refine ⟨?_, ?_, ?_⟩
    · rw [lists.lag, lists'.lag, alike.book.1]
    · rw [lists.issued, lists'.issued, alike.book.2.1]
    · rw [lists.resting, lists'.resting, alike.book.2.2]
  exact ⟨_, g, g', fetched, fetched', alike.twins, book, still, still'⟩

theorem tryPulse (alike : Alike m f m' f') (calm : w.Calm) (calm' : w'.Calm)
    (quote : Except ProducerError Quote) (incentives incentives' : Decimal) :
    let (answer, n, g) := m.tryPulse w.venue quote incentives f
    let (answer', n', g') := m'.tryPulse w'.venue quote incentives' f'
    answer.map PulseOutcome.kind = answer'.map PulseOutcome.kind ∧ Alike n g n' g' := by
  rcases quote with e | ⟨desired⟩ | _
  · exact ⟨rfl, alike⟩
  · obtain ⟨listing, g, g', fetched, fetched', next⟩ := alike.fetched calm calm'
    obtain ⟨n, n', twins, ⟨stop, stopped, stopped'⟩ | ⟨targets, orders, prepared, prepared'⟩⟩ :=
      Maker.prepare_twins alike.twins desired listing incentives incentives'
    · simp only [Maker.tryPulse, fetched, fetched', stopped, stopped']
      exact ⟨trivial, twins, next.book, next.healthy, next.healthy'⟩
    · obtain ⟨k, still, fares⟩ := Maker.tryPulse_planned calm next.healthy m fetched prepared
      obtain ⟨k', still', fares'⟩ :=
        Maker.tryPulse_planned calm' next.healthy' m' fetched' prepared'
      revert fares fares'
      cases Exchange.refusal orders with
      | some e =>
        rintro ⟨same, ended⟩ ⟨same', ended'⟩
        rw [ended, ended']
        exact ⟨rfl, twins, next.book.through same same', still, still'⟩
      | none =>
        rintro ⟨traded, receipt, ended⟩ ⟨traded', receipt', ended'⟩
        rw [ended, ended', Maker.foldl_untrack, Maker.foldl_untrack]
        refine ⟨rfl, ⟨twins.reconciler, ?_, twins.draws⟩,
          (next.book.traded targets orders).through traded traded', still, still'⟩
        simp only [twins.tracker]
  · exact ⟨rfl, alike⟩

theorem conclude (alike : Alike m f m' f') (calm : w.Calm) (calm' : w'.Calm)
    (event event' : Timestamp → PulseEvent) (outcome outcome' : PulseOutcome) :
    ∃ n n', m.conclude w.venue event outcome f = (.ok outcome, n, f) ∧
      m'.conclude w'.venue event' outcome' f' = (.ok outcome', n', f') ∧ Alike n f n' f' := by
  obtain ⟨now, reading⟩ := calm.now f.rest
  obtain ⟨now', reading'⟩ := calm'.now f'.rest
  have clock : w.venue.now f = .ok now := reading
  have clock' : w'.venue.now f' = .ok now' := reading'
  simp only [Maker.conclude, clock, clock']
  exact ⟨_, _, rfl, rfl, ⟨alike.twins.reconciler, alike.twins.tracker, alike.twins.draws⟩,
    alike.book, alike.healthy, alike.healthy'⟩

theorem pulse (alike : Alike m f m' f') (calm : w.Calm) (calm' : w'.Calm)
    (quote : Except ProducerError Quote) (incentives incentives' : Decimal) :
    let (answer, n, g) := m.pulse w.venue quote incentives f
    let (answer', n', g') := m'.pulse w'.venue quote incentives' f'
    answer.map PulseOutcome.kind = answer'.map PulseOutcome.kind ∧ Alike n g n' g' := by
  have tried := alike.tryPulse calm calm' quote incentives incentives'
  unfold Maker.pulse
  revert tried
  rcases m.tryPulse w.venue quote incentives f with ⟨answer, n, g⟩
  rcases m'.tryPulse w'.venue quote incentives' f' with ⟨answer', n', g'⟩
  rintro ⟨kinds, next⟩
  rcases answer with (e | h) | _ | receipt | e <;>
    rcases answer' with (e' | h') | _ | receipt' | e' <;> cases kinds
  · obtain ⟨_, _, ended, ended', after⟩ :=
      next.conclude calm calm' (.failed · e) (.failed · e) (.failed e) (.failed e)
    simp only [ended, ended']
    exact ⟨trivial, after⟩
  · exact ⟨rfl, next⟩
  · exact ⟨rfl, next⟩
  · obtain ⟨_, _, ended, ended', after⟩ :=
      next.conclude calm calm' .completed .completed (.completed receipt) (.completed receipt')
    simp only [ended, ended']
    exact ⟨rfl, after⟩
  · exact ⟨rfl, next⟩

theorem cancelEach (alike : Alike m f m' f') (calm : w.Calm) (calm' : w'.Calm)
    (targets : List Order) :
    let (answer, n, g) := m.cancelEach w.venue f targets
    let (answer', n', g') := m'.cancelEach w'.venue f' targets
    answer = answer' ∧ Alike n g n' g' := by
  induction targets generalizing m m' f f' with
  | nil => exact ⟨rfl, alike⟩
  | cons t rest ih =>
    simp only [Maker.cancelEach, m.cancel_from_calm calm t f, m'.cancel_from_calm calm' t f']
    refine ih ⟨?_, alike.book.remove t, ?_, ?_⟩
    · cases t.clientId with
      | none => exact alike.twins
      | some id =>
        exact ⟨alike.twins.reconciler, by simp only [Maker.untrack, alike.twins.tracker],
          alike.twins.draws⟩
    · exact ⟨alike.healthy.fetches, alike.healthy.submissions, alike.healthy.rejections⟩
    · exact ⟨alike.healthy'.fetches, alike.healthy'.submissions, alike.healthy'.rejections⟩

theorem cancelAll (alike : Alike m f m' f') (calm : w.Calm) (calm' : w'.Calm) :
    let (answer, n, g) := m.cancelAll w.venue f
    let (answer', n', g') := m'.cancelAll w'.venue f'
    answer = answer' ∧ Alike n g n' g' := by
  obtain ⟨listing, g, g', fetched, fetched', next⟩ := alike.fetched calm calm'
  unfold Maker.cancelAll
  simp only [fetched, fetched', alike.twins.tracker]
  have observed : Alike { m with tracker := (m.tracker.existing listing).2 } g
      { m' with tracker := (m.tracker.existing listing).2 } g' :=
    ⟨⟨alike.twins.reconciler, rfl, alike.twins.draws⟩, next.book, next.healthy, next.healthy'⟩
  have swept := observed.cancelEach calm calm' (m.tracker.existing listing).1
  revert swept
  rcases Maker.cancelEach { m with tracker := _ } w.venue g _ with ⟨answer, n, h⟩
  rcases Maker.cancelEach { m' with tracker := _ } w'.venue g' _ with ⟨answer', n', h'⟩
  rintro ⟨rfl, after⟩
  cases answer with
  | error stop => exact ⟨rfl, after⟩
  | ok _ => exact ⟨rfl, after⟩

end Alike

inductive Call where
  | pulse (state : ModelState)
  | sweep
  | fill (id : ClientId)

inductive Call.SameButIncentives : Call → Call → Prop where
  | pulse (state : ModelState) (incentives : Decimal) :
      SameButIncentives (.pulse state) (.pulse (state.withIncentives incentives))
  | sweep : SameButIncentives .sweep .sweep
  | fill (id : ClientId) : SameButIncentives (.fill id) (.fill id)

inductive Ending where
  | pulsed (outcome : Except Halt PulseOutcome)
  | swept (cancelled : Except Stop Nat)
  | filled (order : Option Order)

def Ending.kind : Ending → Ending
  | .pulsed outcome => .pulsed (outcome.map PulseOutcome.kind)
  | ending => ending

namespace Desk

-- A pulse asks the producer first. One that leaves the range of its numbers there ends at once.
def call (w : Surroundings τ) (p : Producer π) (d : Desk τ) (memory : π) :
    Call → Ending × Desk τ × π
  | .pulse state =>
    match p.quote state memory with
    | .error o => (.pulsed (.error (.overflow o)), d, memory)
    | .ok (quote, memory) =>
      let (outcome, maker, floor) :=
        d.maker.pulse w.venue quote state.inventory.incentives d.floor
      (.pulsed outcome, ⟨maker, floor⟩, memory)
  | .sweep =>
    let (cancelled, maker, floor) := d.maker.cancelAll w.venue d.floor
    (.swept cancelled, ⟨maker, floor⟩, memory)
  | .fill id =>
    let (order, exchange) := Exchange.fill id d.floor.exchange
    (.filled order, { d with floor := { d.floor with exchange } }, memory)

def history (w : Surroundings τ) (p : Producer π) (d : Desk τ) (memory : π) :
    List Call → List (Ending × Desk τ)
  | [] => []
  | c :: later =>
    let (ending, d, memory) := d.call w p memory c
    (ending, d) :: history w p d memory later

variable {d : Desk τ} {d' : Desk τ'} {p : Producer π} {calls calls' : List Call}

theorem call_alike (alike : Alike d.maker d.floor d'.maker d'.floor) (calm : w.Calm)
    (calm' : w'.Calm) (ignores : p.IgnoresIncentives) (memory : π) {c c' : Call}
    (same : c.SameButIncentives c') :
    let (ending, e, after) := d.call w p memory c
    let (ending', e', after') := d'.call w' p memory c'
    ending.kind = ending'.kind ∧ after = after' ∧ Alike e.maker e.floor e'.maker e'.floor := by
  cases same with
  | pulse state incentives =>
    simp only [call, ignores state incentives memory]
    cases p.quote state memory with
    | error o => exact ⟨rfl, rfl, alike⟩
    | ok answer =>
      obtain ⟨kinds, next⟩ := alike.pulse calm calm' answer.1 state.inventory.incentives
        (state.withIncentives incentives).inventory.incentives
      exact ⟨congrArg Ending.pulsed kinds, rfl, next⟩
  | sweep =>
    obtain ⟨counts, next⟩ := alike.cancelAll calm calm'
    exact ⟨congrArg Ending.swept counts, rfl, next⟩
  | fill id =>
    obtain ⟨filled, book⟩ := alike.book.fill id
    exact ⟨congrArg Ending.filled filled, rfl,
      alike.twins, book, alike.healthy.fill id, alike.healthy'.fill id⟩

structure Agree (after : Ending × Desk τ) (after' : Ending × Desk τ') : Prop where
  kind : after.1.kind = after'.1.kind
  resting : after.2.floor.exchange.resting = after'.2.floor.exchange.resting
  tracker : after.2.maker.tracker = after'.2.maker.tracker

theorem history_alike (alike : Alike d.maker d.floor d'.maker d'.floor) (calm : w.Calm)
    (calm' : w'.Calm) (ignores : p.IgnoresIncentives) (memory : π)
    (same : List.Forall₂ Call.SameButIncentives calls calls') :
    List.Forall₂ Agree (d.history w p memory calls) (d'.history w' p memory calls') := by
  induction same generalizing d d' memory with
  | nil => exact .nil
  | cons one _ ih =>
    have next := call_alike alike calm calm' ignores memory one
    unfold history
    revert next
    rcases d.call w p memory _ with ⟨ending, e, after⟩
    rcases d'.call w' p memory _ with ⟨ending', e', after'⟩
    rintro ⟨kinds, rfl, next⟩
    exact .cons ⟨kinds, next.book.2.2.symm, next.twins.tracker.symm⟩ (ih next after)

def withUpkeep (m : Maker) (u : Upkeep) (exchange : Exchange) (rest : τ) : Desk τ :=
  ⟨m.withUpkeep u, { exchange, rest }⟩

theorem upkeep_never_alters_quoting (m : Maker) (u u' : Upkeep) (rest : τ) (rest' : τ')
    (healthy : x.Healthy) (calm : w.Calm) (calm' : w'.Calm) (ignores : p.IgnoresIncentives)
    (memory : π) (same : List.Forall₂ Call.SameButIncentives calls calls') :
    List.Forall₂ Agree ((withUpkeep m u x rest).history w p memory calls)
      ((withUpkeep m u' x rest').history w' p memory calls') :=
  have alike : Alike (m.withUpkeep u) ⟨x, [], rest⟩ (m.withUpkeep u') ⟨x, [], rest'⟩ :=
    ⟨m.twins_withUpkeep u u', ⟨rfl, rfl, rfl⟩, healthy, healthy⟩
  history_alike alike calm calm' ignores memory same

-- The second pulse finds nothing to trade: the maker with upkeep submits its upkeep, the other one
-- nothing. The last one moves the quotes.
theorem upkeep_alone_alters_nothing :
    let p : Producer Unit := ⟨fun state memory =>
      .ok (.ok (if state.price.isSome then .live (spread 99 101) else .live (spread 98 102)),
        memory)⟩
    let priced : ModelState :=
      ⟨"SOL/USDC", some (.ofMid (.ofWord 100 0)), ⟨.one, .one, .zero⟩, .epoch⟩
    let unpriced : ModelState := { priced with price := none }
    let accrued (state : ModelState) := state.withIncentives (.ofWord 30 0)
    let calls := [.pulse priced, .pulse priced, .fill ⟨0⟩, .pulse unpriced, .sweep]
    let calls' :=
      [.pulse (accrued priced), .pulse (accrued priced), .fill ⟨0⟩, .pulse (accrued unpriced),
        .sweep]
    let x : Exchange := { lag := 1 }
    let bare := (withUpkeep (small []).maker ⟨false, false, none⟩ x ()).history .still p () calls
    let full :=
      (withUpkeep (small []).maker ⟨true, true, some (.ofWord 25 0)⟩ x ()).history .still p ()
        calls'
    x.Healthy ∧ (Surroundings.still : Surroundings Unit).Calm ∧ p.IgnoresIncentives ∧
      List.Forall₂ Call.SameButIncentives calls calls' ∧ List.Forall₂ Agree bare full ∧
      bare.map (·.2.floor.exchange.submissions) = [1, 1, 1, 2, 2] ∧
      full.map (·.2.floor.exchange.submissions) = [1, 2, 2, 3, 3] := by
  intro p priced unpriced accrued calls calls' x bare full
  have healthy : x.Healthy := ⟨rfl, rfl, rfl⟩
  have ignores : p.IgnoresIncentives := fun _ _ _ => rfl
  have same : List.Forall₂ Call.SameButIncentives calls calls' :=
    .cons (.pulse _ _) (.cons (.pulse _ _) (.cons (.fill _) (.cons (.pulse _ _)
      (.cons .sweep .nil))))
  have submissions : bare.map (·.2.floor.exchange.submissions) = [1, 1, 1, 2, 2] := by cbv
  have submissions' : full.map (·.2.floor.exchange.submissions) = [1, 2, 2, 3, 3] := by cbv
  exact ⟨healthy, Surroundings.still_calm, ignores, same,
    upkeep_never_alters_quoting (small []).maker _ _ () () healthy Surroundings.still_calm
      Surroundings.still_calm ignores () same, submissions, submissions'⟩

end Desk
end MarketMaking
