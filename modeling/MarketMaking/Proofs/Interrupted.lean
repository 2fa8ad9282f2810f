import Mathlib
import MarketMaking.Proofs.Desk

/-! Pulses that are not completed. One that is skipped, or that gets neither a quote nor a listing,
has touched nothing. One that cannot submit has fetched once and has tracked what it was about to
place; the book is as the fetch left it, and nothing is forgotten that was to be cancelled. -/

namespace MarketMaking
open Process

variable {w : Surroundings τ} {m m' : Maker} {f f' g : Floor τ} {desired listing : List Order}
  {incentives : Decimal}

namespace Tracker

def trackAll (t : Tracker) (orders : List Order) : Except TrackingError Tracker :=
  orders.foldlM track t

theorem Places.trackAll {t t' : Tracker} {ids left : List ClientId} {wanted placed : List Order}
    (places : t.Places ids wanted placed t' left) : t.trackAll placed = .ok t' := by
  induction places with
  | done => rfl
  | next used free tracked known others ih =>
    rw [Tracker.trackAll, List.foldlM_cons, tracked]
    exact ih

end Tracker

namespace Maker

-- Only free ids are drawn, so what is drawn for can be tracked. All that can happen on the way is
-- that the draws run out.
theorem placeAll_cases (m : Maker) (b : Batch) (orders : List Order) :
    (m.placeAll b orders).1 = .error (.halted .outOfDraws) ∨
      ∃ ids batch, (m.placeAll b orders).1 = .ok batch ∧ ids.length = orders.length ∧
        m.tracker.trackAll (tagged ids orders) = .ok (m.placeAll b orders).2.tracker := by
  rcases m.placeAll_draws b orders with ⟨_, _, done, places⟩ | ⟨_, _, _, _, _, spent, -⟩
  · have each := places.trackAll
    obtain ⟨ids, all, rfl⟩ := tagged_of_places places
    rw [done]
    exact .inr ⟨ids, _, rfl, all, each⟩
  · rw [spent]
    exact .inl rfl

structure Tracks (m : Maker) (desired listing : List Order) (t : Tracker) (plan : Plan)
    (ids : List ClientId) : Prop where
  planned : m.reconciler.plan (m.tracker.existing listing).1 desired = .ok plan
  all : ids.length = plan.toPlace.length
  each : (m.tracker.existing listing).2.trackAll (tagged ids plan.toPlace) = .ok t

theorem prepare_cases (m : Maker) (desired : List Order) (incentives : Decimal)
    (listing : List Order) :
    (∃ h n, m.prepare desired incentives listing = (.error (.halted h), n) ∧ h ≠ .cutOff) ∨
      ∃ ready n plan ids, m.prepare desired incentives listing = (.ok ready, n) ∧
        m.Tracks desired listing n.tracker plan ids := by
  unfold prepare
  simp only
  cases planned : m.reconciler.plan (m.tracker.existing listing).1 desired with
  | error o => exact .inl ⟨.overflow o, _, rfl, by simp⟩
  | ok plan =>
    have placed := (m.observe listing).placeAll_cases
      (Batch.ofList (plan.toCancel.map (.cancel · true))) plan.toPlace
    simp only [observe] at placed ⊢
    revert placed
    rcases placeAll _ _ plan.toPlace with ⟨answer, n⟩
    rintro (spent | ⟨ids, batch, ready, all, each⟩)
    · cases spent
      exact .inl ⟨.outOfDraws, n, rfl, by simp⟩
    · cases ready
      exact .inr ⟨_, _, plan, ids, rfl, planned, all, each⟩

structure Untouched (m : Maker) (f : Floor τ) (m' : Maker) (f' : Floor τ) : Prop where
  tracker : m'.tracker = m.tracker
  resting : f'.exchange.resting = f.exchange.resting
  issued : f'.exchange.issued = f.exchange.issued

structure Unsent (m : Maker) (f : Floor τ) (desired : List Order) (m' : Maker) (f' : Floor τ) :
    Prop where
  resting : f'.exchange.resting = f.exchange.resting.map Resting.age
  issued : f'.exchange.issued = f.exchange.issued
  tracker : ∃ plan ids, m.Tracks desired f.exchange.visible m'.tracker plan ids

theorem untouched_of_drifts (drifts : f.Drifts .still g) : m.Untouched f m g :=
  ⟨rfl, drifts.resting.symm, drifts.issued⟩

theorem tryPulse_unfetched (noFills : w.NoFills) (m : Maker) (f : Floor τ) (desired : List Order)
    (incentives : Decimal)
    (failed : ∀ listing, ((m.fetch w.venue).from f).1 ≠ some (.ok listing)) :
    let tried := m.tryPulse w.venue (.ok (.live desired)) incentives f
    m.Untouched f tried.2.1 tried.2.2 := by
  have ends := m.fetch_ends noFills.fades f
  unfold tryPulse
  revert ends failed
  rcases (m.fetch w.venue).from f with ⟨_ | _ | listing, g⟩
  · exact fun _ before => untouched_of_drifts before
  · exact fun _ before => untouched_of_drifts before
  · exact fun failed => absurd rfl (failed listing)

theorem tryPulse_fetched (noFills : w.NoFills) (incentives : Decimal)
    (fetched : (m.fetch w.venue).from f = (some (.ok listing), g)) (desired : List Order) :
    let tried := m.tryPulse w.venue (.ok (.live desired)) incentives f
    (∃ receipt, tried.1 = .ok (.completed receipt)) ∨
      (∃ h, tried.1 = .error (.halted h) ∧ h ≠ .cutOff) ∨
      (tried.1 = .error (.halted .cutOff) ∨ ∃ e, tried.1 = .error (.failed (.remote e))) ∧
        m.Unsent f desired tried.2.1 tried.2.2 := by
  have before := m.fetch_ends noFills.fades f
  rw [fetched] at before
  obtain ⟨h, drifts, lists⟩ := before
  have seen : listing = f.exchange.visible := by
    rw [lists.visible, Exchange.visible, ← drifts.resting, Exchange.visible]
  have aged : g.exchange.resting = f.exchange.resting.map Resting.age := by
    rw [lists.resting, ← drifts.resting]
  have issued := lists.issued.trans drifts.issued
  unfold tryPulse
  simp only [fetched]
  rcases m.prepare_cases desired incentives listing with
    ⟨halt, n, stopped, running⟩ | ⟨ready, n, plan, ids, prepared, tracks⟩
  · simp only [stopped]
    exact .inr (.inl ⟨halt, rfl, running⟩)
  · simp only [prepared]
    have unsent : ∀ k : Floor τ, g.Drifts .still k → m.Unsent f desired n k := fun k meanwhile =>
      ⟨meanwhile.resting.symm.trans aged, meanwhile.issued.trans issued, plan, ids, seen ▸ tracks⟩
    cases empty : ready.batch.isEmpty with
    | true => exact .inl ⟨none, rfl⟩
    | false =>
      have submitted := n.submit_ends noFills.fades ready.batch g
      simp only [Bool.false_eq_true, if_false]
      revert submitted
      rcases (n.submit w.venue ready.batch).from g with ⟨_ | _ | receipt, after⟩
      · exact fun meanwhile => .inr (.inr ⟨.inl rfl, unsent _ meanwhile⟩)
      · exact fun meanwhile => .inr (.inr ⟨.inr ⟨_, rfl⟩, unsent _ meanwhile⟩)
      · exact fun _ => .inl ⟨some receipt, rfl⟩

def report : Except Stop PulseOutcome → Except Halt PulseOutcome
  | .ok outcome => .ok outcome
  | .error (.failed e) => .ok (.failed e)
  | .error (.halted h) => .error h

theorem pulse_reports (m : Maker) (v : Venue σ) (quote : Except ProducerError Quote)
    (incentives : Decimal) (s : σ) :
    (m.pulse v quote incentives s).1 = report (m.tryPulse v quote incentives s).1 ∨
      ∃ o, (m.pulse v quote incentives s).1 = .error (.overflow o) := by
  unfold pulse
  rcases m.tryPulse v quote incentives s with ⟨(e | h) | _ | receipt | e, n, t⟩
  · simp only [conclude]
    cases v.now t with
    | error o => exact .inr ⟨o, rfl⟩
    | ok now => exact .inl rfl
  · exact .inl rfl
  · exact .inl rfl
  · simp only [conclude]
    cases v.now t with
    | error o => exact .inr ⟨o, rfl⟩
    | ok now => exact .inl rfl
  · exact .inl rfl

-- How a pulse that is not completed leaves the maker and the floor: as they were if it did not get
-- to a listing, and else with nothing sent, whether its submission failed or a time limit struck.
structure Interrupted (w : Surroundings τ) (m : Maker) (f : Floor τ)
    (quote : Except ProducerError Quote) (outcome : Except Halt PulseOutcome) (m' : Maker)
    (f' : Floor τ) : Prop where
  skipped : outcome = .ok .skipped → m.Untouched f m' f'
  unquoted : ∀ e, outcome = .ok (.failed (.producer e)) → m.Untouched f m' f'
  unfetched : ∀ desired, quote = .ok (.live desired) →
    (∀ listing, ((m.fetch w.venue).from f).1 ≠ some (.ok listing)) → m.Untouched f m' f'
  unsent : ∀ desired listing, quote = .ok (.live desired) →
    ((m.fetch w.venue).from f).1 = some (.ok listing) →
    (outcome = .error .cutOff ∨ ∃ e, outcome = .ok (.failed e)) → m.Unsent f desired m' f'

theorem interrupted_unlisted (noFills : w.NoFills) (m : Maker) (f : Floor τ)
    {quote : Except ProducerError Quote} (incentives : Decimal)
    (unlisted : ∀ desired listing, quote = .ok (.live desired) →
      ((m.fetch w.venue).from f).1 ≠ some (.ok listing)) (outcome : Except Halt PulseOutcome) :
    let tried := m.tryPulse w.venue quote incentives f
    m.Interrupted w f quote outcome tried.2.1 tried.2.2 := by
  have untouched : m.Untouched f (m.tryPulse w.venue quote incentives f).2.1
      (m.tryPulse w.venue quote incentives f).2.2 := by
    rcases quote with e | ⟨desired⟩ | _
    · exact ⟨rfl, rfl, rfl⟩
    · exact m.tryPulse_unfetched noFills f desired incentives fun listing => unlisted _ _ rfl
    · exact ⟨rfl, rfl, rfl⟩
  exact ⟨fun _ => untouched, fun _ _ => untouched, fun _ _ _ => untouched,
    fun desired listing live fetched => absurd fetched (unlisted desired listing live)⟩

theorem Interrupted.of_ended {quote : Except ProducerError Quote}
    {outcome : Except Halt PulseOutcome}
    (fetched : ((m.fetch w.venue).from f).1 = some (.ok listing)) (skipped : outcome ≠ .ok .skipped)
    (failed : ∀ e, outcome ≠ .ok (.failed e)) (cutOff : outcome ≠ .error .cutOff) :
    m.Interrupted w f quote outcome m' f' := by
  refine ⟨fun same => absurd same skipped, fun e same => absurd same (failed _),
    fun _ _ unlisted => absurd fetched (unlisted listing), fun _ _ _ _ stopped => ?_⟩
  rcases stopped with same | ⟨e, same⟩
  · exact absurd same cutOff
  · exact absurd same (failed e)

theorem interrupted_listed (noFills : w.NoFills) (incentives : Decimal)
    (fetched : (m.fetch w.venue).from f = (some (.ok listing), g)) (desired : List Order)
    {outcome : Except Halt PulseOutcome}
    (reports : outcome =
        report (m.tryPulse w.venue (.ok (.live desired)) incentives f).1 ∨
      ∃ o, outcome = .error (.overflow o)) :
    let tried := m.tryPulse w.venue (.ok (.live desired)) incentives f
    m.Interrupted w f (.ok (.live desired)) outcome tried.2.1 tried.2.2 := by
  have listed := congrArg Prod.fst fetched
  have tried := m.tryPulse_fetched noFills incentives fetched desired
  revert reports tried
  rcases m.tryPulse w.venue (.ok (.live desired)) incentives f with ⟨answer, n, k⟩
  rintro reports (⟨receipt, rfl⟩ | ⟨h, rfl, running⟩ | ⟨stopped, unsent⟩)
  · rcases reports with rfl | ⟨o, rfl⟩ <;> exact .of_ended listed nofun nofun nofun
  · rcases reports with rfl | ⟨o, rfl⟩
    · exact .of_ended listed nofun nofun fun same => running (Except.error.inj same)
    · exact .of_ended listed nofun nofun nofun
  · have never : ∀ other, (∀ l, ((m.fetch w.venue).from f).1 ≠ some (.ok l)) → other :=
      fun _ failed => absurd listed (failed listing)
    have kept : ∀ other, (Except.ok (Quote.live desired) : Except ProducerError Quote) =
        .ok (.live other) → m.Unsent f other n k := by
      rintro _ ⟨⟩
      exact unsent
    rcases stopped with rfl | ⟨e, rfl⟩ <;> rcases reports with rfl | ⟨o, rfl⟩ <;>
      exact ⟨nofun, nofun, fun _ _ => never _, fun other _ live _ _ => kept other live⟩

theorem Interrupted.published {quote : Except ProducerError Quote}
    {outcome : Except Halt PulseOutcome} (ends : m.Interrupted w f quote outcome m' f')
    (log : EventLog) : m.Interrupted w f quote outcome { m' with log } f' := by
  have quiet : m.Untouched f m' f' → m.Untouched f { m' with log } f' :=
    fun same => ⟨same.tracker, same.resting, same.issued⟩
  exact ⟨fun same => quiet (ends.skipped same), fun e same => quiet (ends.unquoted e same),
    fun desired live failed => quiet (ends.unfetched desired live failed),
    fun desired listing live fetched stopped =>
      have same := ends.unsent desired listing live fetched stopped
      ⟨same.resting, same.issued, same.tracker⟩⟩

theorem interrupted_pulse (noFills : w.NoFills) (m : Maker) (f : Floor τ)
    (quote : Except ProducerError Quote) (incentives : Decimal) :
    let (outcome, m', f') := m.pulse w.venue quote incentives f
    m.Interrupted w f quote outcome m' f' := by
  have reports := m.pulse_reports w.venue quote incentives f
  obtain ⟨⟨log, maker⟩, floor⟩ := m.pulse_published w.venue quote incentives f
  simp only
  rw [maker, floor]
  by_cases listed : ∃ desired listing, quote = .ok (.live desired) ∧
      ((m.fetch w.venue).from f).1 = some (.ok listing)
  · obtain ⟨desired, listing, rfl, fetched⟩ := listed
    have ended := interrupted_listed noFills incentives (Prod.ext fetched rfl) desired reports
    exact ended.published log
  · have unlisted : ∀ desired listing, quote = .ok (.live desired) →
        ((m.fetch w.venue).from f).1 ≠ some (.ok listing) :=
      fun desired listing live fetched => listed ⟨desired, listing, live, fetched⟩
    exact (interrupted_unlisted noFills m f incentives unlisted _).published log

end Maker

def Surroundings.hasty : Surroundings τ where
  request t := ({}, t)
  pause _ t := ({ cutOff := true }, t)
  now _ := .ok .epoch

namespace Desk

theorem interrupted_between_attempts :
    let d := (small []).run .hasty
      [.pulse (.ok (.live (spread 99 101))) .zero, .disturb (.failSubmissions 1)]
    let quote := .ok (.live (spread 98 102))
    let (outcome, m', f') := d.maker.pulse Surroundings.hasty.venue quote .zero d.floor
    (Surroundings.hasty : Surroundings (List Spell)).NoFills ∧ outcome = .error .cutOff ∧
      d.maker.Interrupted .hasty d.floor quote outcome m' f' := by
  intro d quote
  have noFills : (Surroundings.hasty : Surroundings (List Spell)).NoFills :=
    ⟨fun _ _ => List.not_mem_nil, fun _ _ _ => List.not_mem_nil⟩
  have cutOff : (d.maker.pulse Surroundings.hasty.venue quote .zero d.floor).1 =
      .error .cutOff := by cbv
  exact ⟨noFills, cutOff, Maker.interrupted_pulse noFills d.maker d.floor quote .zero⟩

end Desk
end MarketMaking
